import Mathlib.Data.List.Sort
import Curried.Scheme.Apply
import Curried.Proofs.Ty.Subst

/-!
Instantiation renames the variables of a scheme injectively into the interval that it takes from the
supply, so function and argument of an application share no variable (`apply_eq_ok`,
`freshVar_ne_freshVar`).
-/

namespace Curried.Scheme

variable {p f x r : Scheme} {s : Supply} {v w : TyVar}

theorem insertAscending_eq (v : TyVar) (l : List TyVar) :
    insertAscending v l = l.orderedInsert (· ≤ ·) v := by
  induction l with
  | nil => rfl
  | cons w l ih => rw [insertAscending, List.orderedInsert_cons, ih]

theorem vars_eq_insertionSort (p : Scheme) : p.vars = p.ty.vars.insertionSort (· ≤ ·) := by
  rw [vars, List.insertionSort]
  congr
  funext v l
  exact insertAscending_eq v l

theorem perm_vars (p : Scheme) : p.vars.Perm p.ty.vars := by
  rw [vars_eq_insertionSort]
  exact List.perm_insertionSort ..

theorem mem_vars : v ∈ p.vars ↔ v ∈ p.ty.occurrences := by
  rw [p.perm_vars.mem_iff, Ty.mem_vars]

/-- The variable that stands for `v` when `p` is instantiated. -/
def freshVar (p : Scheme) (s : Supply) (v : TyVar) : TyVar := s.next + p.vars.idxOf v

theorem instantiate_eq (p : Scheme) (s : Supply) :
    p.instantiate s = (⟨p.ty.rename (p.freshVar s)⟩, ⟨s.next + p.vars.length⟩) := rfl

theorem freshVar_inj (hv : v ∈ p.ty.occurrences) :
    p.freshVar s v = p.freshVar s w ↔ v = w := by
  rw [freshVar, freshVar, Nat.add_left_cancel_iff, List.idxOf_inj (mem_vars.mpr hv)]

theorem freshVar_lt (hv : v ∈ p.ty.occurrences) :
    p.freshVar s v < (p.instantiate s).2.next :=
  Nat.add_lt_add_left (List.idxOf_lt_length_of_mem (mem_vars.mpr hv)) _

theorem le_freshVar (p : Scheme) (s : Supply) (v : TyVar) : s.next ≤ p.freshVar s v :=
  Nat.le_add_right ..

/-- What is instantiated later has other variables. -/
theorem freshVar_ne_freshVar (hv : v ∈ f.ty.occurrences) (w : TyVar) :
    f.freshVar s v ≠ x.freshVar (f.instantiate s).2 w :=
  Nat.ne_of_lt (Nat.lt_of_lt_of_le (freshVar_lt hv) (le_freshVar ..))

theorem apply_eq_ok : (f.apply x s).1 = .ok r ↔
    ∃ d c σ, f.ty = .arrow d c ∧
      (d.rename (f.freshVar s)).bind (x.ty.rename (x.freshVar (f.instantiate s).2)) = .ok σ ∧
      r = ⟨(c.rename (f.freshVar s)).substitute σ⟩ := by
  simp only [apply, instantiate_eq, applyApart]
  cases f.ty with
  | arrow d c =>
    simp only [Ty.rename_arrow]
    split
    · rename_i σ hσ
      constructor
      · intro h
        cases h
        exact ⟨d, c, σ, rfl, hσ, rfl⟩
      · rintro ⟨_, _, τ, h, hτ, rfl⟩
        cases h
        cases hσ.symm.trans hτ
        rfl
    · rename_i e he
      simp [he]
  | _ => simp

end Curried.Scheme
