import Curried.Ty.Basic

/-!
Substitutions: finite maps from type variables to types, and their application in a single pass,
which leaves the variables inside a substituted type alone.
-/

namespace Curried

/-- The type with `σ` in the place of each variable. -/
def Ty.subst (σ : TyVar → Ty) : Ty → Ty
  | var v => σ v
  | const name => const name
  | arrow domain codomain => arrow (domain.subst σ) (codomain.subst σ)

/-- A finite map from variables to types, kept by ascending variable. -/
structure Subst where
  bindings : List (TyVar × Ty)
  ascending : bindings.Pairwise (·.1 < ·.1)

namespace Subst

def empty : Subst := ⟨[], .nil⟩

instance : Inhabited Subst := ⟨empty⟩

instance : BEq Subst := ⟨fun σ τ => σ.bindings == τ.bindings⟩

/-- Puts a binding into a list by ascending variable, in the place of an earlier one. -/
def insertInto (v : TyVar) (t : Ty) : List (TyVar × Ty) → List (TyVar × Ty)
  | [] => [(v, t)]
  | (w, u) :: rest =>
    if v < w then (v, t) :: (w, u) :: rest
    else if v = w then (v, t) :: rest
    else (w, u) :: insertInto v t rest

private theorem fst_mem_insertInto {v : TyVar} {t : Ty} {l : List (TyVar × Ty)} {p : TyVar × Ty}
    (h : p ∈ insertInto v t l) : p.1 = v ∨ p ∈ l := by
  induction l with
  | nil => simp_all [insertInto]
  | cons q rest ih =>
    simp only [insertInto] at h
    grind

private theorem insertInto_ascending (v : TyVar) (t : Ty) {l : List (TyVar × Ty)}
    (h : l.Pairwise (·.1 < ·.1)) : (insertInto v t l).Pairwise (·.1 < ·.1) := by
  induction l with
  | nil => simp [insertInto]
  | cons q rest ih =>
    obtain ⟨w, u⟩ := q
    obtain ⟨hq, hrest⟩ := List.pairwise_cons.1 h
    simp only [insertInto]
    split
    · refine List.pairwise_cons.2 ⟨fun p hp => ?_, h⟩
      rcases List.mem_cons.1 hp with rfl | hp
      · assumption
      · exact Nat.lt_trans ‹_› (hq p hp)
    · split
      · subst_vars
        exact List.pairwise_cons.2 ⟨hq, hrest⟩
      · refine List.pairwise_cons.2 ⟨fun p hp => ?_, ih hrest⟩
        rcases fst_mem_insertInto hp with hp | hp
        · exact hp ▸ Nat.lt_of_le_of_ne (Nat.le_of_not_lt ‹_›) (Ne.symm ‹_›)
        · exact hq p hp

/-- The substitution that also maps `v` to `t`, whatever it mapped `v` to. -/
def insert (σ : Subst) (v : TyVar) (t : Ty) : Subst :=
  ⟨insertInto v t σ.bindings, insertInto_ascending v t σ.ascending⟩

def ofList (l : List (TyVar × Ty)) : Subst := l.foldl (fun σ (v, t) => σ.insert v t) empty

def get? (σ : Subst) (v : TyVar) : Option Ty := σ.bindings.lookup v

def contains (σ : Subst) (v : TyVar) : Bool := (σ.get? v).isSome

def size (σ : Subst) : Nat := σ.bindings.length

def isEmpty (σ : Subst) : Bool := σ.bindings.isEmpty

/-- The type for a variable: a variable that is not bound stands for itself. -/
def apply (σ : Subst) (v : TyVar) : Ty := (σ.get? v).getD (.var v)

@[simp] theorem get?_empty (v : TyVar) : empty.get? v = none := rfl

private theorem lookup_insertInto (v w : TyVar) (t : Ty) (l : List (TyVar × Ty)) :
    (insertInto v t l).lookup w = if w = v then some t else l.lookup w := by
  induction l with
  | nil => simp only [insertInto, List.lookup_cons, List.lookup_nil]; grind
  | cons q rest ih =>
    simp only [insertInto]
    grind

@[simp] theorem get?_insert (σ : Subst) (v w : TyVar) (t : Ty) :
    (σ.insert v t).get? w = if w = v then some t else σ.get? w :=
  lookup_insertInto v w t σ.bindings

end Subst

/-- Puts the bound types in the place of their variables, all at once. -/
def Ty.substitute (t : Ty) (σ : Subst) : Ty := t.subst σ.apply

end Curried
