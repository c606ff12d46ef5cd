import Curried.Proofs.Expr.Form
import Curried.Proofs.Scheme.Shape
import Curried.Typing.Infer

/-!
Inference without the questions: `infer`, `resolve` and `inferArgs` as recursive equations.
Inference sees the supply up to renaming only (`infer_agree`), so the choice of an overload is that
of a first match among candidates tried alone (`resolve_index_iff`).
-/

namespace Curried

/-- The candidate, tried alone with a new supply, accepts the arguments. -/
def Scheme.Accepts (f : Scheme) (args : List Scheme) : Prop :=
  ∃ r, (f.applyAll args ⟨0⟩).1 = .ok r

namespace Typing

variable {Γ : Signatures} {e : Expr} {name : String} {args : List Expr} {s : Supply}

/-- Goes on with a result and the supply that it left; an error stands. -/
def andThen (p : Typed α) (next : α → Supply → Typed β) : Typed β :=
  match p with
  | (.ok a, s) => next a s
  | (.error err, s) => (.error err, s)

theorem andThen_eq_ok {p : Typed α} {next : α → Supply → Typed β} {b : β} :
    (andThen p next).1 = .ok b ↔ ∃ a s, p = (.ok a, s) ∧ (next a s).1 = .ok b := by
  rcases p with ⟨_ | a, s⟩ <;> simp [andThen]

theorem andThen_eq_ok_supply {p : Typed α} {next : α → Supply → Typed β} {b : β}
    {s' : Supply} :
    andThen p next = (.ok b, s') ↔ ∃ a s, p = (.ok a, s) ∧ next a s = (.ok b, s') := by
  rcases p with ⟨_ | a, s⟩ <;> simp [andThen]

theorem agree_andThen {R : α → α → Prop} {R' : β → β → Prop} {Q : TypeError → TypeError → Prop}
    {p p' : Typed α} {next next' : α → Supply → Typed β} (h : Agree R Q p.1 p'.1)
    (hnext : ∀ a a' s s', R a a' → Agree R' Q (next a s).1 (next' a' s').1) :
    Agree R' Q (andThen p next).1 (andThen p' next').1 := by
  obtain ⟨a, s⟩ := p
  obtain ⟨a', s'⟩ := p'
  cases h with
  | ok h => exact hnext _ _ s s' h
  | error h => exact .error h

/-- The types of the arguments from left to right, up to the first error. -/
def inferArgs (Γ : Signatures) : List Expr → Supply → Typed (List Scheme)
  | [], s => (.ok [], s)
  | e :: es, s =>
    andThen (infer Γ e s) fun t s => andThen (inferArgs Γ es s) fun ts s => (.ok (t :: ts), s)

private theorem run_askArgs (args : List Expr) (seen : List Scheme) (s : Supply) :
    (askArgs args seen s).run (fun q => infer Γ q.1 q.2) =
      andThen (inferArgs Γ args s) fun ts s => (.ok (seen.reverse ++ ts), s) := by
  induction args generalizing seen s with
  | nil => simp [askArgs, inferArgs, andThen]
  | cons e es ih =>
    simp only [askArgs, Ask.run_ask, inferArgs]
    rcases infer Γ e s with ⟨_ | t, s⟩
    · rfl
    · simp only [ih, andThen]
      rcases inferArgs Γ es s with ⟨_ | ts, s⟩ <;> simp

private theorem run_withArgs {α : Type} (args : List Expr) (s : Supply)
    (next : List Scheme → Supply → Typed α) :
    (withArgs args s next).run (fun q => infer Γ q.1 q.2) = andThen (inferArgs Γ args s) next := by
  rw [withArgs, Ask.run_bind, run_askArgs]
  rcases inferArgs Γ args s with ⟨_ | ts, s⟩ <;> rfl

/-- Each argument has the type that it gets among the others, from some supply. -/
theorem forall₂_of_inferArgs {ts : List Scheme} (h : (inferArgs Γ args s).1 = .ok ts) :
    List.Forall₂ (fun a t => ∃ s, (infer Γ a s).1 = .ok t) args ts := by
  induction args generalizing s ts with
  | nil =>
    cases h
    exact .nil
  | cons e es ih =>
    obtain ⟨t, s', ht, h⟩ := andThen_eq_ok.mp h
    obtain ⟨ts', s'', hts, h⟩ := andThen_eq_ok.mp h
    cases h
    exact .cons ⟨s, by rw [ht]⟩ (ih (s := s') (by rw [hts]))

theorem exists_infer_of_mem {a : Expr} {ts : List Scheme} (h : (inferArgs Γ args s).1 = .ok ts)
    (ha : a ∈ args) : ∃ s t, (infer Γ a s).1 = .ok t := by
  obtain ⟨i, hi, rfl⟩ := List.getElem_of_mem ha
  obtain ⟨hlen, hget⟩ := List.forall₂_iff_get.mp (forall₂_of_inferArgs h)
  obtain ⟨s, ht⟩ := hget i hi (hlen ▸ hi)
  exact ⟨s, _, ht⟩

theorem resolve_unknown (h : Γ name = []) (args : List Expr) (s : Supply) :
    resolve Γ name args s = (.error (.unknownFunction name), s) := by
  rw [resolve, resolveAsking, h]
  rfl

theorem resolve_known (h : Γ name ≠ []) (args : List Expr) (s : Supply) :
    resolve Γ name args s = andThen (inferArgs Γ args s) (choose name (Γ name)) := by
  rw [resolve, resolveAsking]
  split
  · contradiction
  · exact run_withArgs args s _

theorem infer_value {v : Value} (h : e.form = .value v) (s : Supply) :
    infer Γ e s = (.ok v.scheme, s) := by
  rw [infer_eq, inferAsking, h]
  rfl

theorem infer_call (h : e.form = .call name args) (s : Supply) :
    infer Γ e s = andThen (resolve Γ name args s) fun r s => (.ok r.scheme, s) := by
  rw [infer_eq, inferAsking, h]
  refine (Ask.run_bind ..).trans ?_
  rw [← resolve]
  rcases resolve Γ name args s with ⟨_ | r, s⟩ <;> rfl

theorem infer_misapplied {head : Value} (h : e.form = .misapplied head args) (s : Supply) :
    infer Γ e s = andThen (inferArgs Γ args s) head.scheme.applyAll := by
  rw [infer_eq, inferAsking, h]
  exact run_withArgs args s _

/-- The arguments of an expression that has a type have types too. -/
theorem exists_infer_of_mem_form {a : Expr} {t : Scheme} (h : (infer Γ e s).1 = .ok t)
    (ha : a ∈ e.form.args) : ∃ s t, (infer Γ a s).1 = .ok t := by
  cases hf : e.form with
  | value v => simp [hf, Expr.Form.args] at ha
  | call name args =>
    rw [hf] at ha
    rw [infer_call hf] at h
    obtain ⟨r, _, hr, -⟩ := andThen_eq_ok.mp h
    by_cases hΓ : Γ name = []
    · rw [resolve_unknown hΓ] at hr
      cases hr
    · rw [resolve_known hΓ] at hr
      obtain ⟨ts, _, hts, -⟩ := andThen_eq_ok.mp (congrArg Prod.fst hr)
      exact exists_infer_of_mem (congrArg Prod.fst hts) ha
  | misapplied head args =>
    rw [hf] at ha
    rw [infer_misapplied hf] at h
    obtain ⟨ts, _, hts, -⟩ := andThen_eq_ok.mp h
    exact exists_infer_of_mem (congrArg Prod.fst hts) ha

/-! ## The first candidate that accepts -/

/-- `i` is the position of the first candidate that accepts the arguments. -/
def FirstAccepted (candidates args : List Scheme) (i : Nat) : Prop :=
  (∃ f, candidates[i]? = some f ∧ f.Accepts args) ∧
    ∀ j < i, ∀ f, candidates[j]? = some f → ¬ f.Accepts args

/-- Whether a candidate accepts does not depend on the supply. -/
theorem accepts_iff {f : Scheme} {ts : List Scheme} (s : Supply) :
    f.Accepts ts ↔ ∃ r, (f.applyAll ts s).1 = .ok r := by
  have h := Scheme.applyAll_agree_supply f ts ⟨0⟩ s
  unfold Scheme.Accepts
  generalize (f.applyAll ts ⟨0⟩).1 = a at h
  generalize (f.applyAll ts s).1 = b at h
  cases h <;> simp

section

variable {f : Scheme} {fs ts : List Scheme} {k i : Nat} {s' : Supply}

private theorem firstAccepting_cons_ok {t : Scheme} (h : f.applyAll ts s = (.ok t, s')) :
    firstAccepting ts k (f :: fs) s = (.ok ⟨k, t⟩, s') := by
  rw [firstAccepting, h]

private theorem firstAccepting_cons_error {err : TypeError}
    (h : f.applyAll ts s = (.error err, s')) : (firstAccepting ts k (f :: fs) s).1 =
      (firstAccepting ts (k + 1) fs s').1.mapError (err :: ·) := by
  rw [firstAccepting, h]
  dsimp only
  rcases firstAccepting ts (k + 1) fs s' with ⟨_ | r, s''⟩ <;> rfl

private theorem le_of_firstAccepting {r : Resolution}
    (h : (firstAccepting ts k fs s).1 = .ok r) : k ≤ r.index := by
  induction fs generalizing k s with
  | nil => cases h
  | cons f fs ih =>
    rcases hf : f.applyAll ts s with ⟨_ | t, s'⟩
    · rw [firstAccepting_cons_error hf, mapError_eq_ok] at h
      exact Nat.le_of_succ_le (ih h)
    · rw [firstAccepting_cons_ok hf] at h
      cases h
      exact Nat.le_refl _

private theorem applyAll_of_firstAccepting {r : Resolution}
    (h : (firstAccepting ts k fs s).1 = .ok r) :
    ∃ f s', fs[r.index - k]? = some f ∧ (f.applyAll ts s').1 = .ok r.scheme := by
  induction fs generalizing k s with
  | nil => cases h
  | cons f fs ih =>
    rcases hf : f.applyAll ts s with ⟨_ | t, s'⟩
    · rw [firstAccepting_cons_error hf, mapError_eq_ok] at h
      obtain ⟨g, s'', hg, hr⟩ := ih h
      have hk := le_of_firstAccepting h
      refine ⟨g, s'', ?_, hr⟩
      rwa [show r.index - k = r.index - (k + 1) + 1 by omega, List.getElem?_cons_succ]
    · rw [firstAccepting_cons_ok hf] at h
      cases h
      exact ⟨f, s, by simp, by rw [hf]⟩

theorem firstAccepted_cons_of_accepts (h : f.Accepts ts) :
    FirstAccepted (f :: fs) ts i ↔ i = 0 := by
  constructor
  · intro hi
    refine Nat.eq_zero_of_not_pos fun hpos => ?_
    exact hi.2 0 hpos f rfl h
  · rintro rfl
    exact ⟨⟨f, rfl, h⟩, fun j hj => absurd hj (Nat.not_lt_zero j)⟩

theorem firstAccepted_cons_of_not_accepts (h : ¬ f.Accepts ts) :
    FirstAccepted (f :: fs) ts i ↔ ∃ j, i = j + 1 ∧ FirstAccepted fs ts j := by
  constructor
  · intro ⟨⟨g, hg, hacc⟩, hleast⟩
    cases i with
    | zero =>
      cases hg
      exact absurd hacc h
    | succ j => exact ⟨j, rfl, ⟨g, hg, hacc⟩, fun l hl => hleast (l + 1) (Nat.succ_lt_succ hl)⟩
  · rintro ⟨j, rfl, ⟨g, hg, hacc⟩, hleast⟩
    refine ⟨⟨g, hg, hacc⟩, fun l hl f' hf' => ?_⟩
    cases l with
    | zero =>
      cases hf'
      exact h
    | succ l => exact hleast l (Nat.lt_of_succ_lt_succ hl) f' hf'

/-- The candidate found is the first that accepts, whatever the supply. -/
theorem firstAccepting_index_iff :
    (∃ r, (firstAccepting ts k fs s).1 = .ok r ∧ r.index = k + i) ↔ FirstAccepted fs ts i := by
  induction fs generalizing k i s with
  | nil => simp [firstAccepting, FirstAccepted]
  | cons f fs ih =>
    have hf : f.Accepts ts ↔ ∃ r, (f.applyAll ts s).1 = .ok r := accepts_iff s
    rcases h : f.applyAll ts s with ⟨err | t, s'⟩
    · rw [h] at hf
      rw [firstAccepting_cons_error h, firstAccepted_cons_of_not_accepts (by simp [hf])]
      simp only [mapError_eq_ok]
      constructor
      · intro ⟨r, hr, hi⟩
        have hk := le_of_firstAccepting hr
        refine ⟨i - 1, by omega, ih.mp ⟨r, hr, by omega⟩⟩
      · intro ⟨j, hj, hfirst⟩
        obtain ⟨r, hr, hi⟩ := (ih (k := k + 1) (s := s')).mpr hfirst
        exact ⟨r, hr, by omega⟩
    · rw [h] at hf
      rw [firstAccepting_cons_ok h, firstAccepted_cons_of_accepts (by simp [hf])]
      constructor
      · intro ⟨r, hr, hi⟩
        cases hr
        exact Nat.add_eq_left.mp hi.symm
      · rintro rfl
        exact ⟨_, rfl, rfl⟩

end

/-! ## The supply does not matter -/

/-- The same overload, giving a type of the same shape. -/
def SameChoice (r r' : Resolution) : Prop := r.index = r'.index ∧ r.scheme.sameShape r'.scheme

theorem firstAccepting_agree {fs ts ts' : List Scheme}
    (hts : List.Forall₂ (Scheme.sameShape · ·) ts ts') (k : Nat) (s s' : Supply) :
    Agree SameChoice (List.Forall₂ TypeError.SameKind)
      (firstAccepting ts k fs s).1 (firstAccepting ts' k fs s').1 := by
  induction fs generalizing k s s' with
  | nil => exact .error .nil
  | cons f fs ih =>
    have hf := Scheme.applyAll_agree f.sameShape_refl hts s s'
    rcases ha : f.applyAll ts s with ⟨a, u⟩
    rcases hb : f.applyAll ts' s' with ⟨b, u'⟩
    rw [ha, hb] at hf
    cases hf with
    | ok h =>
      rw [firstAccepting_cons_ok ha, firstAccepting_cons_ok hb]
      exact .ok ⟨rfl, h⟩
    | error h =>
      rw [firstAccepting_cons_error ha, firstAccepting_cons_error hb]
      exact (ih (k + 1) u u').mapError fun _ _ hs => .cons h hs

theorem refusal_sameKind (name : String) {es es' : List TypeError}
    (h : List.Forall₂ TypeError.SameKind es es') :
    (refusal name es).SameKind (refusal name es') := by
  cases h with
  | nil => exact .unknownFunction
  | cons he hes =>
    cases hes with
    | nil => exact he
    | cons _ _ => exact .noMatchingOverload he

theorem choose_fst (name : String) (candidates ts : List Scheme) (s : Supply) :
    (choose name candidates ts s).1 =
      (firstAccepting ts 0 candidates s).1.mapError (refusal name) := by
  rw [choose]
  rcases firstAccepting ts 0 candidates s with ⟨_ | r, s⟩ <;> rfl

theorem choose_agree {candidates ts ts' : List Scheme}
    (hts : List.Forall₂ (Scheme.sameShape · ·) ts ts') (s s' : Supply) :
    Agree SameChoice TypeError.SameKind
      (choose name candidates ts s).1 (choose name candidates ts' s').1 := by
  rw [choose_fst, choose_fst]
  exact (firstAccepting_agree hts 0 s s').mapError fun _ _ h => refusal_sameKind name h

/-- Whatever the supplies, the types of the two expressions have one shape, or there are none for
the same reason. -/
def SameTyping (Γ : Signatures) (e e' : Expr) : Prop :=
  ∀ s s', Agree (Scheme.sameShape · ·) TypeError.SameKind (infer Γ e s).1 (infer Γ e' s').1

/-- The types of an expression from two supplies have one shape, or both runs fail alike. -/
def InferAgree (Γ : Signatures) (e : Expr) : Prop :=
  ∀ s s', Agree (Scheme.sameShape · ·) TypeError.SameKind (infer Γ e s).1 (infer Γ e s').1

theorem inferArgs_agree {args args' : List Expr} (h : List.Forall₂ (SameTyping Γ) args args')
    (s s' : Supply) : Agree (List.Forall₂ (Scheme.sameShape · ·)) TypeError.SameKind
      (inferArgs Γ args s).1 (inferArgs Γ args' s').1 := by
  induction h generalizing s s' with
  | nil => exact .ok .nil
  | cons ha _ ih =>
    refine agree_andThen (ha s s') fun t t' s s' ht => ?_
    exact agree_andThen (ih s s') fun ts ts' _ _ hts => .ok (.cons ht hts)

theorem resolve_agree_of {args args' : List Expr} (h : List.Forall₂ (SameTyping Γ) args args')
    (s s' : Supply) : Agree SameChoice TypeError.SameKind
      (resolve Γ name args s).1 (resolve Γ name args' s').1 := by
  by_cases hΓ : Γ name = []
  · rw [resolve_unknown hΓ, resolve_unknown hΓ]
    exact .error .unknownFunction
  · rw [resolve_known hΓ, resolve_known hΓ]
    exact agree_andThen (inferArgs_agree h s s') fun _ _ s s' hts => choose_agree hts s s'

/-- Only the types of the arguments matter for the type of a call. -/
theorem sameTyping_of_form {e e' : Expr} (h : Expr.Form.Alike (SameTyping Γ) e.form e'.form) :
    SameTyping Γ e e' := by
  intro s s'
  generalize hf : e.form = F, hf' : e'.form = F' at h
  cases h with
  | value =>
    rw [infer_value hf, infer_value hf']
    exact .ok (Scheme.sameShape_refl _)
  | call h =>
    rw [infer_call hf, infer_call hf']
    exact agree_andThen (resolve_agree_of h s s') fun r r' _ _ hr => .ok hr.2
  | misapplied h =>
    rw [infer_misapplied hf, infer_misapplied hf']
    exact agree_andThen (inferArgs_agree h s s') fun ts ts' s s' hts =>
      Scheme.applyAll_agree (Scheme.sameShape_refl _) hts s s'

/-- Inference depends on the supply up to the numbers of variables only. -/
theorem infer_agree (Γ : Signatures) (e : Expr) : InferAgree Γ e := by
  induction e using Expr.argInduction with
  | step e ih => exact sameTyping_of_form (Expr.Form.alike_refl ih)

/-- A constant type is the same from every supply. -/
theorem infer_const {type : String} {t : Scheme} (h : check Γ e = .ok ⟨.const type⟩)
    (ht : (infer Γ e s).1 = .ok t) : t = ⟨.const type⟩ := by
  have hagree := infer_agree Γ e s ⟨0⟩
  rw [check] at h
  rw [h, ht] at hagree
  exact Scheme.eq_const_of_sameShape hagree.of_ok

theorem inferArgs_agree_supply (Γ : Signatures) (args : List Expr) (s s' : Supply) :
    Agree (List.Forall₂ (Scheme.sameShape · ·)) TypeError.SameKind
      (inferArgs Γ args s).1 (inferArgs Γ args s').1 :=
  inferArgs_agree (List.forall₂_same.mpr fun a _ => infer_agree Γ a) s s'

theorem resolve_agree (Γ : Signatures) (name : String) (args : List Expr) (s s' : Supply) :
    Agree SameChoice TypeError.SameKind
      (resolve Γ name args s).1 (resolve Γ name args s').1 :=
  resolve_agree_of (List.forall₂_same.mpr fun a _ => infer_agree Γ a) s s'

/-- The overload of a call is the first one that accepts the types of the arguments. -/
theorem resolve_index_iff {i : Nat} :
    (∃ r, (resolve Γ name args s).1 = .ok r ∧ r.index = i) ↔
      ∃ ts, (inferArgs Γ args s).1 = .ok ts ∧ FirstAccepted (Γ name) ts i := by
  by_cases hΓ : Γ name = []
  · simp [resolve_unknown hΓ, hΓ, FirstAccepted]
  · simp only [resolve_known hΓ, andThen_eq_ok, choose_fst, mapError_eq_ok]
    constructor
    · intro ⟨r, ⟨ts, s', hts, hr⟩, hi⟩
      exact ⟨ts, by rw [hts], firstAccepting_index_iff.mp ⟨r, hr, by omega⟩⟩
    · intro ⟨ts, hts, hfirst⟩
      obtain ⟨r, hr, hi⟩ := (firstAccepting_index_iff (k := 0)
        (s := (inferArgs Γ args s).2)).mpr hfirst
      exact ⟨r, ⟨ts, _, Prod.ext hts rfl, hr⟩, by omega⟩

/-- The type of a call is that of its overload applied to the types of the arguments. -/
theorem resolve_eq_ok {r : Resolution} (h : (resolve Γ name args s).1 = .ok r) :
    ∃ ts f s', (inferArgs Γ args s).1 = .ok ts ∧ (Γ name)[r.index]? = some f ∧
      (f.applyAll ts s').1 = .ok r.scheme := by
  by_cases hΓ : Γ name = []
  · rw [resolve_unknown hΓ] at h
    cases h
  · simp only [resolve_known hΓ, andThen_eq_ok, choose_fst, mapError_eq_ok] at h
    obtain ⟨ts, s', hts, hr⟩ := h
    obtain ⟨f, s'', hf, happly⟩ := applyAll_of_firstAccepting hr
    exact ⟨ts, f, s'', by rw [hts], hf, happly⟩

end Typing

end Curried
