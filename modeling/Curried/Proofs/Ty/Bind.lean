import Mathlib.Data.List.Basic
import Curried.Proofs.Ty.Opposite

/-!
What binding decides. A run goes through both types from left to right; each of its steps binds a
variable that has no binding yet, or refuses two parts (`bindInto_eq_foldlM`), so a binding stays as
it was made. What comes out solves the equation between the two types (`bind_solves`). Against a
type without variables, binding is matching, for templates in which no variable repeats
(`bind_matches`).
-/

namespace Curried

namespace Subst

/-- A step of a run: a variable is bound, unless the run was refused at this place. -/
def step (σ : Subst) (a : Except BindError (TyVar × Ty)) : Except BindError Subst :=
  a >>= fun b => σ.bindNew b.1 b.2

/-- All bindings of `σ` are bindings of `τ`. -/
def Extends (τ σ : Subst) : Prop := ∀ v b, σ.get? v = some b → τ.get? v = some b

variable {σ τ ρ : Subst} {v w : TyVar} {t : Ty} {a : Except BindError (TyVar × Ty)}

theorem Extends.refl (σ : Subst) : σ.Extends σ := fun _ _ h => h

theorem Extends.trans (h : τ.Extends ρ) (h' : ρ.Extends σ) : τ.Extends σ :=
  fun v b hv => h v b (h' v b hv)

theorem contains_iff : σ.contains v ↔ ∃ b, σ.get? v = some b := Option.isSome_iff_exists

/-- A step leaves the bindings that there are as they are. -/
theorem extends_of_step (h : σ.step a = .ok τ) : τ.Extends σ := by
  obtain ⟨⟨v, t⟩, -, h⟩ := bind_eq_ok.mp h
  exact fun w b hw => (get?_of_bindNew h).mpr (.inl hw)

theorem extends_of_steps {l : List (Except BindError (TyVar × Ty))}
    (h : l.foldlM step σ = .ok τ) : τ.Extends σ := by
  induction l generalizing σ with
  | nil =>
    cases h
    exact .refl _
  | cons a l ih =>
    rw [List.foldlM_cons] at h
    obtain ⟨ρ, hstep, h⟩ := bind_eq_ok.mp h
    exact (ih h).trans (extends_of_step hstep)

theorem step_ok_eq_ok : σ.step (.ok (v, t)) = .ok τ ↔ σ.get? v = none ∧ τ = σ.insert v t :=
  bindNew_eq_ok

theorem get?_insert_eq_none : (σ.insert v t).get? w = none ↔ w ≠ v ∧ σ.get? w = none := by
  rw [get?_insert]
  split <;> simp [*]

/-- Variables can be bound one after the other if none of them comes twice or is bound already. -/
theorem exists_foldlM_step_iff {θ : TyVar → Ty} {l : List TyVar} :
    (∃ τ, (l.map fun v => .ok (v, θ v)).foldlM step σ = .ok τ) ↔
      l.Nodup ∧ ∀ v ∈ l, σ.get? v = none := by
  induction l generalizing σ with
  | nil => simp [pure, Except.pure]
  | cons v l ih =>
    have hstep : (∃ τ, ((v :: l).map fun v => .ok (v, θ v)).foldlM step σ = .ok τ) ↔
        σ.get? v = none ∧
          ∃ τ, (l.map fun v => .ok (v, θ v)).foldlM step (σ.insert v (θ v)) = .ok τ := by
      simp [bind_eq_ok, step_ok_eq_ok, and_assoc]
    have hrest : (∀ w ∈ l, (σ.insert v (θ v)).get? w = none) ↔
        v ∉ l ∧ ∀ w ∈ l, σ.get? w = none := by
      simp only [get?_insert_eq_none, imp_and, forall_and, List.forall_mem_ne', ne_eq]
    rw [hstep, ih, hrest, List.nodup_cons, List.forall_mem_cons]
    tauto

end Subst

namespace Ty

variable {t u a : Ty} {v : TyVar} {σ : Subst} {θ : TyVar → Ty}

/-- The steps of binding a template to a type, from left to right. -/
def steps : (template given : Ty) → List (Except BindError (TyVar × Ty))
  | var v, given => [.ok (v, given)]
  | const expected, const found =>
    if expected = found then [] else [.error (.constMismatch (const expected) (const found))]
  | const expected, var v => [.ok (v, const expected)]
  | const expected, arrow domain codomain =>
    [.error (.constMismatch (const expected) (arrow domain codomain))]
  | arrow domain codomain, arrow domain' codomain' =>
    domain.steps domain' ++ codomain.steps codomain'
  | arrow domain codomain, given => [.error (.arrowMismatch (arrow domain codomain) given)]

/-- Binding is the run of its steps, one after the other. -/
theorem bindInto_eq_foldlM (σ : Subst) (t u : Ty) :
    bindInto σ t u = (t.steps u).foldlM Subst.step σ := by
  induction t generalizing σ u with
  | var v => simp [bindInto, steps, Subst.step]
  | const name =>
    cases u with
    | const found =>
      simp only [bindInto, steps]
      split <;> rfl
    | var v => simp [bindInto, steps, Subst.step]
    | arrow d' c' => rfl
  | arrow d c ihd ihc =>
    cases u with
    | arrow d' c' => simp only [bindInto_arrow, steps, List.foldlM_append, ihd, ihc]
    | var v => rfl
    | const found => rfl

/-! ## The equation -/

theorem substitute_substitute_of_bind (h : t.bind u = .ok σ) :
    (t.substitute σ).substitute σ = u.substitute σ := by
  rw [substitute, substitute, subst_subst]
  refine subst_eq_of_bindInto h (fun v b hv => ?_) fun name v hv => apply_of_bind h (.given hv)
  rw [apply_of_bind h (.template hv)]

theorem contains_iff_of_bind (h : t.bind u = .ok σ) :
    σ.contains v ↔ v ∈ t.occurrences ∨ ∃ name, Opposite t u (const name) (var v) := by
  rw [Subst.contains_iff]
  simp only [get?_of_bind h]
  constructor
  · rintro ⟨b, hv | hv⟩
    · exact .inl (hv.mem_occurrences_left (by simp))
    · exact .inr ⟨_, hv⟩
  · rintro (hv | ⟨name, hv⟩)
    · obtain ⟨b, hb⟩ := exists_opposite_of_bindInto h hv
      exact ⟨b, .template hb⟩
    · exact ⟨_, .given hv⟩

/-- Binding solves the equation between the two types, if what is put into the template is itself
substituted. It does so step by step, where later steps keep what earlier ones have bound, and it
binds the variables of the template and those that stand opposite one of its constants. -/
theorem bind_solves (h : t.bind u = .ok σ) :
    (t.substitute σ).substitute σ = u.substitute σ ∧
    t.bind u = (t.steps u).foldlM Subst.step .empty ∧
    (∀ earlier between later, t.steps u = earlier ++ between ++ later →
      ∃ ρ ρ', earlier.foldlM Subst.step .empty = .ok ρ ∧ between.foldlM Subst.step ρ = .ok ρ' ∧
        later.foldlM Subst.step ρ' = .ok σ ∧ ρ'.Extends ρ ∧ σ.Extends ρ') ∧
    ∀ v, σ.contains v ↔ v ∈ t.occurrences ∨ ∃ name, Opposite t u (const name) (var v) := by
  refine ⟨substitute_substitute_of_bind h, bindInto_eq_foldlM .empty t u,
    fun earlier between later hsteps => ?_, fun v => contains_iff_of_bind h⟩
  -- The run falls into parts where the list of its steps does.
  rw [bind, bindInto_eq_foldlM, hsteps, List.foldlM_append, bind_eq_ok] at h
  obtain ⟨ρ', hfirst, hlater⟩ := h
  rw [List.foldlM_append, bind_eq_ok] at hfirst
  obtain ⟨ρ, hearlier, hbetween⟩ := hfirst
  exact ⟨ρ, ρ', hearlier, hbetween, hlater, Subst.extends_of_steps hbetween,
    Subst.extends_of_steps hlater⟩

/-- With a variable of both types, what is put into the template has to be substituted again: `a`
becomes `b`, which is bound only later. -/
theorem bind_solves_shared :
    let t := arrow (var 0) (arrow int (var 1))
    let u := arrow (var 1) (arrow (var 2) int)
    let σ := Subst.ofList [(0, var 1), (1, int), (2, int)]
    t.bind u = .ok σ ∧ t.substitute σ ≠ u.substitute σ ∧
      (t.substitute σ).substitute σ = u.substitute σ ∧
      ∀ v, σ.contains v ↔ v ∈ t.occurrences ∨ ∃ name, Opposite t u (const name) (var v) := by
  intro t u σ
  have hσ : t.bind u = .ok σ := rfl
  obtain ⟨hequation, -, -, hbound⟩ := bind_solves hσ
  exact ⟨hσ, by decide, hequation, hbound⟩

/-! ## Matching -/

/-- To fit one of its instances, a template binds each variable, as often as it occurs, to what the
variable stands for. -/
theorem steps_subst (θ : TyVar → Ty) (t : Ty) :
    t.steps (t.subst θ) = t.occurrences.map fun v => .ok (v, θ v) := by
  induction t with
  | var v => rfl
  | const name => simp [subst, steps]
  | arrow d c ihd ihc => simp [subst, steps, ihd, ihc]

/-- A template fits one of its instances if and only if no variable occurs in it twice. -/
theorem exists_bind_subst_iff : (∃ σ, t.bind (t.subst θ) = .ok σ) ↔ t.occurrences.Nodup := by
  simp only [bind, bindInto_eq_foldlM, steps_subst]
  rw [Subst.exists_foldlM_step_iff]
  simp

theorem IsGround.not_opposite_var (hu : u.IsGround) : ¬Opposite t u a (var v) :=
  fun hv => List.eq_nil_iff_forall_not_mem.mp hu v (hv.mem_occurrences_right (by simp))

/-- The template becomes the given type, unless variables of that were bound as well. -/
theorem IsGround.substitute_of_bind (hu : u.IsGround) (h : t.bind u = .ok σ) :
    t.substitute σ = u := by
  rw [← u.subst_var]
  refine subst_eq_of_bindInto h (fun v b hv => ?_) fun name v hv => absurd hv hu.not_opposite_var
  rw [apply_of_bind h (.template hv), subst_var]

theorem IsGround.contains_iff_of_bind (hu : u.IsGround) (h : t.bind u = .ok σ) :
    σ.contains v ↔ v ∈ t.occurrences := by
  rw [Ty.contains_iff_of_bind h, or_iff_left]
  intro ⟨name, hv⟩
  exact hu.not_opposite_var hv

theorem IsGround.nodup_of_bind (hu : u.IsGround) (h : t.bind u = .ok σ) :
    t.occurrences.Nodup := by
  -- The given type is an instance by the very bindings that were found.
  have hinstance : t.bind (t.subst σ.apply) = .ok σ := by
    rwa [← substitute, hu.substitute_of_bind h]
  exact exists_bind_subst_iff.mp ⟨σ, hinstance⟩

theorem IsGround.bind_self (ht : t.IsGround) : t.bind t = .ok .empty := by
  have hsteps : t.steps (t.subst var) = [] := by rw [steps_subst, ht, List.map_nil]
  rw [subst_var] at hsteps
  rw [bind, bindInto_eq_foldlM, hsteps]
  rfl

/-- Against a type without variables, binding finds out whether that type is an instance of a
template in which no variable repeats, and of which choice of variables; where the template has none
either, whether the two are equal. -/
theorem bind_matches (hu : u.IsGround) :
    ((∃ σ, t.bind u = .ok σ) ↔ t.occurrences.Nodup ∧ ∃ ρ : Subst, t.substitute ρ = u) ∧
    (∀ σ, t.bind u = .ok σ →
      (∀ v, σ.contains v ↔ v ∈ t.occurrences) ∧ t.substitute σ = u) ∧
    (t.IsGround → ∀ σ, t.bind u = .ok σ ↔ t = u ∧ σ = .empty) := by
  refine ⟨⟨?_, ?_⟩, fun σ h => ?_, fun ht σ => ⟨fun h => ?_, ?_⟩⟩
  · intro ⟨σ, h⟩
    exact ⟨hu.nodup_of_bind h, σ, hu.substitute_of_bind h⟩
  · rintro ⟨hnodup, ρ, rfl⟩
    exact exists_bind_subst_iff.mpr hnodup
  · exact ⟨fun v => hu.contains_iff_of_bind h, hu.substitute_of_bind h⟩
  · obtain rfl : t = u := (ht.subst_eq σ.apply).symm.trans (hu.substitute_of_bind h)
    exact ⟨rfl, Except.ok.inj (h.symm.trans ht.bind_self)⟩
  · rintro ⟨rfl, rfl⟩
    exact ht.bind_self

/-- The template `a -> Int -> b` fits `Bool -> Int -> Bool -> Int`, and `Int -> Int` itself, while
`a -> a` does not even fit its instance `Int -> Int`. -/
theorem bind_matches_call :
    let t := arrow (var 0) (arrow int (var 1))
    let u := arrow bool (arrow int (arrow bool int))
    let σ := Subst.ofList [(0, bool), (1, arrow bool int)]
    u.IsGround ∧ t.bind u = .ok σ ∧ (∀ v, σ.contains v ↔ v ∈ t.occurrences) ∧
      t.substitute σ = u ∧ (arrow int int).IsGround ∧
      (arrow int int).bind (arrow int int) = .ok .empty ∧
      ¬∃ σ, (arrow (var 0) (var 0)).bind (arrow int int) = .ok σ := by
  intro t u σ
  have hu : u.IsGround := rfl
  have hint : (arrow int int).IsGround := rfl
  have hσ : t.bind u = .ok σ := rfl
  obtain ⟨hbound, hsubstitute⟩ := (bind_matches hu).2.1 σ hσ
  have hself := ((bind_matches hint).2.2 hint .empty).mpr ⟨rfl, rfl⟩
  refine ⟨hu, hσ, hbound, hsubstitute, hint, hself, fun h => ?_⟩
  have hnodup := ((bind_matches hint).1.mp h).1
  simp at hnodup

end Ty

end Curried
