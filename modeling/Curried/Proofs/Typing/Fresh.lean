import Curried.Proofs.Scheme.Fresh
import Curried.Proofs.Typing.Infer
import Curried.Standard

/-!
Fresh variables. The type of an expression has variables that its inference took from the supply, so
what is inferred later has other variables (`Typing.infer_mints`); only a name without arguments has
its declared type as it is (`Typing.infer_bare`). So of the types that are inferred one after the
other no two share a variable, unless one of them is that of a bare name
(`Typing.inferEach_disjoint`).
-/

namespace Curried

/-- A name that is called without arguments. -/
def Expr.IsBare (e : Expr) : Prop := ∃ name, e.form = .call name []

namespace Typing

variable {Γ : Signatures} {e : Expr} {name : String} {args : List Expr} {s s' : Supply}
  {x t : Scheme} {fs ts : List Scheme} {k : Nat}

/-! ## The supply only grows -/

theorem le_firstAccepting {a : Except (List TypeError) Resolution}
    (h : firstAccepting ts k fs s = (a, s')) : s.next ≤ s'.next := by
  induction fs generalizing k s a with
  | nil =>
    cases h
    exact Nat.le_refl _
  | cons f fs ih =>
    rw [firstAccepting] at h
    rcases hf : f.applyAll ts s with ⟨_ | t, s₁⟩ <;> rw [hf] at h <;> dsimp only at h
    · have hle := Scheme.le_applyAll hf
      rcases hrest : firstAccepting ts (k + 1) fs s₁ with ⟨_ | r, s₂⟩ <;>
        rw [hrest] at h <;> cases h
      · exact Nat.le_trans hle (ih hrest)
      · exact Nat.le_trans hle (ih hrest)
    · cases h
      exact Scheme.le_applyAll hf

theorem le_choose {a : Except TypeError Resolution} (h : choose name fs ts s = (a, s')) :
    s.next ≤ s'.next := by
  rw [choose] at h
  rcases hfirst : firstAccepting ts 0 fs s with ⟨_ | r, s₁⟩ <;> rw [hfirst] at h <;> cases h
  · exact le_firstAccepting hfirst
  · exact le_firstAccepting hfirst

theorem le_andThen {p : Typed α} {next : α → Supply → Typed β} (hp : s.next ≤ p.2.next)
    (hnext : ∀ a s, s.next ≤ (next a s).2.next) : s.next ≤ (andThen p next).2.next := by
  rcases p with ⟨_ | a, s₁⟩
  · exact hp
  · exact Nat.le_trans hp (hnext a s₁)

theorem le_inferArgs (hargs : ∀ a ∈ args, ∀ s, s.next ≤ (infer Γ a s).2.next) (s : Supply) :
    s.next ≤ (inferArgs Γ args s).2.next := by
  induction args generalizing s with
  | nil => exact Nat.le_refl _
  | cons a args ih =>
    obtain ⟨ha, hargs⟩ := List.forall_mem_cons.mp hargs
    exact le_andThen (ha s) fun t s => le_andThen (ih hargs s) fun _ _ => Nat.le_refl _

/-- Inference never puts variables back, also where it fails. -/
theorem le_infer (Γ : Signatures) (e : Expr) (s : Supply) : s.next ≤ (infer Γ e s).2.next := by
  induction e using Expr.formInduction generalizing s with
  | value e v hf => exact Nat.le_of_eq (by rw [infer_value hf])
  | call e name args hf ih =>
    rw [infer_call hf]
    refine le_andThen ?_ fun _ _ => Nat.le_refl _
    by_cases hΓ : Γ name = []
    · exact Nat.le_of_eq (by rw [resolve_unknown hΓ])
    · rw [resolve_known hΓ]
      exact le_andThen (le_inferArgs ih s) fun _ _ => le_choose rfl
  | misapplied e head args hf ih =>
    rw [infer_misapplied hf]
    exact le_andThen (le_inferArgs ih s) fun _ _ => Scheme.le_applyAll rfl

/-! ## Types have new variables -/

theorem firstAccepting_mints {r : Resolution}
    (h : firstAccepting (x :: ts) k fs s = (.ok r, s')) : s.Mints s' r.scheme := by
  induction fs generalizing k s with
  | nil => cases h
  | cons f fs ih =>
    rw [firstAccepting] at h
    rcases hf : f.applyAll (x :: ts) s with ⟨_ | t, s₁⟩ <;> rw [hf] at h <;> dsimp only at h
    · rcases hrest : firstAccepting (x :: ts) (k + 1) fs s₁ with ⟨_ | r₁, s₂⟩ <;>
        rw [hrest] at h <;> cases h
      exact (ih hrest).of_le (Scheme.le_applyAll hf)
    · cases h
      exact Scheme.applyAll_mints hf

theorem choose_mints {r : Resolution} (h : choose name fs (x :: ts) s = (.ok r, s')) :
    s.Mints s' r.scheme := by
  rw [choose] at h
  rcases hfirst : firstAccepting (x :: ts) 0 fs s with ⟨_ | r₁, s₁⟩ <;> rw [hfirst] at h <;> cases h
  exact firstAccepting_mints hfirst

/-- A name without arguments has its first declared type, with the variables of that. -/
theorem infer_bare (hf : e.form = .call name []) (h : infer Γ e s = (.ok t, s')) :
    (Γ name).head? = some t := by
  rw [infer_call hf, andThen_eq_ok_supply] at h
  obtain ⟨r, s₁, hr, h⟩ := h
  cases hΓ : Γ name with
  | nil =>
    rw [resolve_unknown hΓ] at hr
    cases hr
  | cons f fs =>
    rw [resolve_known (by simp [hΓ]), hΓ] at hr
    cases hr
    cases h
    rfl

/-- The variables of any other type were taken from the supply. -/
theorem infer_mints (he : ¬e.IsBare) (h : infer Γ e s = (.ok t, s')) : s.Mints s' t := by
  have hle {args : List Expr} {ts : List Scheme} {s₁ : Supply}
      (h : inferArgs Γ args s = (.ok ts, s₁)) : s.next ≤ s₁.next := by
    have hle : s.next ≤ (inferArgs Γ args s).2.next := le_inferArgs (fun a _ => le_infer Γ a) s
    rwa [h] at hle
  have hlength {args : List Expr} {ts : List Scheme} {s₁ : Supply}
      (h : inferArgs Γ args s = (.ok ts, s₁)) : args.length = ts.length :=
    (forall₂_of_inferArgs (congrArg Prod.fst h)).length_eq
  cases hf : e.form with
  | value v =>
    rw [infer_value hf] at h
    cases h
    exact nofun
  | call name args =>
    rw [infer_call hf, andThen_eq_ok_supply] at h
    obtain ⟨r, _, hr, h⟩ := h
    cases h
    by_cases hΓ : Γ name = []
    · rw [resolve_unknown hΓ] at hr
      cases hr
    rw [resolve_known hΓ, andThen_eq_ok_supply] at hr
    obtain ⟨ts, s₁, hts, hr⟩ := hr
    cases ts with
    | nil =>
      obtain rfl := List.length_eq_zero_iff.mp (hlength hts)
      exact absurd ⟨name, hf⟩ he
    | cons x ts => exact (choose_mints hr).of_le (hle hts)
  | misapplied head args =>
    rw [infer_misapplied hf, andThen_eq_ok_supply] at h
    obtain ⟨ts, s₁, hts, h⟩ := h
    cases ts with
    | nil =>
      cases h
      exact nofun
    | cons x ts => exact (Scheme.applyAll_mints h).of_le (hle hts)

/-! ## One inference after the other -/

/-- The types of expressions that are inferred with one supply. -/
def inferEach (Γ : Signatures) : List Expr → Supply → List (Except TypeError Scheme)
  | [], _ => []
  | e :: es, s => (infer Γ e s).1 :: inferEach Γ es (infer Γ e s).2

variable {es : List Expr} {e' : Expr} {i j : Nat} {t' : Scheme}

theorem infer_of_inferEach (he : es[i]? = some e) (ht : (inferEach Γ es s)[i]? = some (.ok t)) :
    ∃ s₁ s₂, s.next ≤ s₁.next ∧ infer Γ e s₁ = (.ok t, s₂) := by
  induction es generalizing s i with
  | nil => cases he
  | cons e₁ es ih =>
    cases i with
    | zero =>
      cases he
      exact ⟨s, _, Nat.le_refl _, Prod.ext (Option.some.inj ht) rfl⟩
    | succ i =>
      obtain ⟨s₁, s₂, hle, h⟩ := ih he ht
      exact ⟨s₁, s₂, Nat.le_trans (le_infer Γ e₁ s) hle, h⟩

/-- The variables of an earlier type are below those of a later one. -/
theorem lt_of_inferEach (hij : i < j) (he : es[i]? = some e) (he' : es[j]? = some e')
    (ht : (inferEach Γ es s)[i]? = some (.ok t)) (ht' : (inferEach Γ es s)[j]? = some (.ok t'))
    (hbare : ¬e.IsBare) (hbare' : ¬e'.IsBare) :
    ∀ v ∈ t.ty.occurrences, ∀ w ∈ t'.ty.occurrences, v < w := by
  induction es generalizing s i j with
  | nil => cases he
  | cons e₁ es ih =>
    obtain ⟨j, rfl⟩ := Nat.exists_eq_add_one_of_ne_zero (Nat.ne_of_gt (Nat.zero_lt_of_lt hij))
    cases i with
    | zero =>
      intro v hv w hw
      cases he
      rw [List.getElem?_cons_succ] at he'
      obtain ⟨s₁, s₂, hle, h⟩ := infer_of_inferEach he' ht'
      have hmints := infer_mints hbare (Prod.ext (Option.some.inj ht) rfl) v hv
      exact Nat.lt_of_lt_of_le (Nat.lt_of_lt_of_le hmints.2 hle) (infer_mints hbare' h w hw).1
    | succ i => exact ih (Nat.lt_of_succ_lt_succ hij) he he' ht ht'

/-- Types that are inferred with one supply share no variable, unless one of them is that of a bare
name: that is the declared type, with the same variables at each use. -/
theorem inferEach_disjoint (hij : i ≠ j) (he : es[i]? = some e) (he' : es[j]? = some e')
    (ht : (inferEach Γ es s)[i]? = some (.ok t)) (ht' : (inferEach Γ es s)[j]? = some (.ok t')) :
    (¬e.IsBare → ¬e'.IsBare → List.Disjoint t.vars t'.vars) ∧
    ∀ name, e.form = .call name [] → (Γ name).head? = some t := by
  constructor
  · intro hbare hbare' v hv hv'
    rw [Scheme.mem_vars] at hv hv'
    rcases Nat.lt_or_gt_of_ne hij with hlt | hlt
    · exact Nat.lt_irrefl v (lt_of_inferEach hlt he he' ht ht' hbare hbare' v hv v hv')
    · exact Nat.lt_irrefl v (lt_of_inferEach hlt he' he ht' ht hbare' hbare v hv' v hv)
  · intro name hf
    obtain ⟨s₁, s₂, -, h⟩ := infer_of_inferEach he ht
    exact infer_bare hf h

/-- What is left of `const` behind its first argument has a variable of its own each time. -/
theorem inferEach_disjoint_const :
    let e := Expr.call "const" [.int 1]
    inferEach Standard.registry.signatures [e, e] ⟨0⟩ =
      [.ok ⟨.arrow (.var 1) .int⟩, .ok ⟨.arrow (.var 3) .int⟩] ∧
    List.Disjoint (Scheme.mk (.arrow (.var 1) .int)).vars
      (Scheme.mk (.arrow (.var 3) .int)).vars := by
  intro e
  have hf : e.form = .call "const" [.int 1] := rfl
  have heach : inferEach Standard.registry.signatures [e, e] ⟨0⟩ =
      [.ok ⟨.arrow (.var 1) .int⟩, .ok ⟨.arrow (.var 3) .int⟩] := by
    have hknown : Standard.registry.signatures "const" ≠ [] := by decide
    simp only [inferEach, infer_call hf, resolve_known hknown, inferArgs,
      infer_value (e := .int _) rfl]
    rfl
  have hbare : ¬e.IsBare := by
    rintro ⟨name, hname⟩
    cases hname
  have hfirst : (inferEach Standard.registry.signatures [e, e] ⟨0⟩)[0]? =
      some (.ok ⟨.arrow (.var 1) .int⟩) := congrArg (·[0]?) heach
  have hsecond : (inferEach Standard.registry.signatures [e, e] ⟨0⟩)[1]? =
      some (.ok ⟨.arrow (.var 3) .int⟩) := congrArg (·[1]?) heach
  exact ⟨heach, (inferEach_disjoint Nat.zero_ne_one rfl rfl hfirst hsecond).1 hbare hbare⟩

/-- Both uses of the bare name `return` have the declared type, with the same variable. -/
theorem inferEach_return :
    let e := Expr.call "return" []
    inferEach Standard.registry.signatures [e, e] ⟨0⟩ =
      [.ok ⟨.arrow (.var 0) (.var 0)⟩, .ok ⟨.arrow (.var 0) (.var 0)⟩] ∧
    ¬List.Disjoint (Scheme.mk (.arrow (.var 0) (.var 0))).vars
      (Scheme.mk (.arrow (.var 0) (.var 0))).vars := by
  intro e
  have hf : e.form = .call "return" [] := rfl
  constructor
  · have hknown : Standard.registry.signatures "return" ≠ [] := by decide
    simp only [inferEach, infer_call hf, resolve_known hknown, inferArgs]
    rfl
  · intro h
    have hmem : 0 ∈ (Scheme.mk (.arrow (.var 0) (.var 0))).vars := Scheme.mem_vars.mpr (by simp)
    exact h hmem hmem

end Typing

end Curried
