import Curried.Ty.Display

/-!
Substitution in types: it depends on the occurring variables only, substitutions compose, and a
type without variables stays as it is. `Ty.rename` is the substitution of variables for variables,
and `Ty.GroundInstance` the types without variables that a type stands for.
-/

namespace Curried.Ty

variable {σ τ : TyVar → Ty} {ρ ρ' : TyVar → TyVar} {t u : Ty} {v w : TyVar}

theorem subst_congr_iff : t.subst σ = t.subst τ ↔ ∀ v ∈ t.occurrences, σ v = τ v := by
  induction t with
  | var v => simp [subst]
  | const name => simp [subst]
  | arrow domain codomain ihd ihc =>
    simp only [subst, arrow.injEq, ihd, ihc, occurrences_arrow, List.mem_append, or_imp,
      forall_and]

theorem subst_congr (h : ∀ v ∈ t.occurrences, σ v = τ v) : t.subst σ = t.subst τ :=
  subst_congr_iff.mpr h

theorem subst_subst (t : Ty) : (t.subst σ).subst τ = t.subst fun v => (σ v).subst τ := by
  induction t with
  | var v => rfl
  | const name => rfl
  | arrow domain codomain ihd ihc => simp only [subst, ihd, ihc]

theorem subst_var (t : Ty) : t.subst var = t := by
  induction t with
  | var v => rfl
  | const name => rfl
  | arrow domain codomain ihd ihc => simp only [subst, ihd, ihc]

theorem mem_occurrences_subst :
    w ∈ (t.subst σ).occurrences ↔ ∃ v ∈ t.occurrences, w ∈ (σ v).occurrences := by
  induction t with
  | var v => simp [subst]
  | const name => simp [subst]
  | arrow domain codomain ihd ihc =>
    simp only [subst, occurrences_arrow, List.mem_append, ihd, ihc, or_and_right, exists_or]

/-! ## Renaming -/

def rename (ρ : TyVar → TyVar) (t : Ty) : Ty := t.subst fun v => var (ρ v)

@[simp] theorem rename_var (ρ : TyVar → TyVar) (v : TyVar) : (var v).rename ρ = var (ρ v) := rfl

@[simp] theorem rename_const (ρ : TyVar → TyVar) (name : String) :
    (const name).rename ρ = const name := rfl

@[simp] theorem rename_arrow (ρ : TyVar → TyVar) (domain codomain : Ty) :
    (arrow domain codomain).rename ρ = arrow (domain.rename ρ) (codomain.rename ρ) := rfl

theorem rename_subst (t : Ty) : (t.rename ρ).subst σ = t.subst fun v => σ (ρ v) := subst_subst t

theorem rename_rename (t : Ty) : (t.rename ρ).rename ρ' = t.rename fun v => ρ' (ρ v) :=
  subst_subst t

@[simp] theorem occurrences_rename (ρ : TyVar → TyVar) (t : Ty) :
    (t.rename ρ).occurrences = t.occurrences.map ρ := by
  induction t with
  | var v => rfl
  | const name => rfl
  | arrow domain codomain ihd ihc => simp only [rename_arrow, occurrences_arrow, ihd, ihc,
      List.map_append]

theorem rename_eq_arrow {d c : Ty} :
    t.rename ρ = arrow d c ↔ ∃ d₀ c₀, t = arrow d₀ c₀ ∧ d₀.rename ρ = d ∧ c₀.rename ρ = c := by
  cases t with
  | arrow domain codomain =>
    simp only [rename_arrow, arrow.injEq]
    constructor
    · intro h
      exact ⟨domain, codomain, ⟨rfl, rfl⟩, h⟩
    · rintro ⟨_, _, ⟨rfl, rfl⟩, h⟩
      exact h
  | _ => simp

theorem rename_eq_var : t.rename ρ = var v ↔ ∃ v₀, t = var v₀ ∧ ρ v₀ = v := by
  cases t <;> simp

theorem rename_eq_const {name : String} : t.rename ρ = const name ↔ t = const name := by
  cases t <;> simp

/-! ## Ground types -/

/-- The type has no variables. -/
def IsGround (t : Ty) : Prop := t.occurrences = []

/-- A type without variables that comes from `t` by a choice of its variables. -/
def GroundInstance (t g : Ty) : Prop := g.IsGround ∧ ∃ σ, t.subst σ = g

theorem IsGround.subst_eq (h : t.IsGround) (σ : TyVar → Ty) : t.subst σ = t := by
  refine (subst_congr fun v hv => ?_).trans (subst_var t)
  rw [h] at hv
  cases hv

theorem isGround_function {ts : List Ty} (hts : ∀ t ∈ ts, t.IsGround) (hu : u.IsGround) :
    (function ts u).IsGround := by
  induction ts with
  | nil => exact hu
  | cons t ts ih =>
    have ht := hts t (List.mem_cons_self ..)
    have hrest := ih fun t' ht' => hts t' (List.mem_cons_of_mem _ ht')
    exact (occurrences_arrow ..).trans (by rw [ht, ← function, hrest]; rfl)

theorem isGround_subst (h : ∀ v ∈ t.occurrences, (σ v).IsGround) : (t.subst σ).IsGround := by
  refine List.eq_nil_iff_forall_not_mem.mpr fun w hw => ?_
  obtain ⟨v, hv, hw⟩ := mem_occurrences_subst.mp hw
  rw [h v hv] at hw
  cases hw

/-- The choice of variables behind a ground instance can be ground throughout. -/
theorem GroundInstance.exists_ground (h : t.GroundInstance u) :
    ∃ σ, (∀ v, (σ v).IsGround) ∧ t.subst σ = u := by
  obtain ⟨hu, σ, rfl⟩ := h
  refine ⟨fun v => (σ v).subst fun _ => int, fun v => isGround_subst fun _ _ => rfl, ?_⟩
  rw [← subst_subst, hu.subst_eq]

theorem GroundInstance.of_rename (h : (t.rename ρ).GroundInstance u) : t.GroundInstance u := by
  obtain ⟨hu, σ, rfl⟩ := h
  exact ⟨hu, _, (rename_subst t).symm⟩

end Curried.Ty
