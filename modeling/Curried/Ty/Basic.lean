/-!
Types: variables, named constants and arrows. A function of several arguments is curried, so its
parameters stand along the right spine of its type.
-/

namespace Curried

/-- A type variable, known by its number. Numbers have no bound here. The program counts them in 32
bits, so it is taken as long as it draws fewer than `2 ^ 32` of them. -/
abbrev TyVar := Nat

inductive Ty where
  | var (v : TyVar)
  | const (name : String)
  | arrow (domain codomain : Ty)
  deriving BEq, ReflBEq, LawfulBEq

namespace Ty

instance : DecidableEq Ty := fun t u => decidable_of_iff (t == u) beq_iff_eq

instance : Inhabited Ty := ⟨var 0⟩

def int : Ty := const "Int"

def bool : Ty := const "Bool"

def string : Ty := const "String"

def void : Ty := const "Void"

/-- The curried type of a function from `params` to `result`. -/
def function (params : List Ty) (result : Ty) : Ty := params.foldr arrow result

def isArrow : Ty → Bool
  | arrow _ _ => true
  | _ => false

def constName? : Ty → Option String
  | const name => some name
  | _ => none

def params : Ty → List Ty
  | arrow domain codomain => domain :: codomain.params
  | _ => []

/-- The number of arguments that a function of this type takes. -/
def arity : Ty → Nat
  | arrow _ codomain => codomain.arity + 1
  | _ => 0

/-- What is left when every parameter has its argument. -/
def result : Ty → Ty
  | arrow _ codomain => codomain.result
  | t => t

/-- What the type becomes when each kind of type is given a meaning. -/
def fold {α : Type} (var : TyVar → α) (const : String → α) (arrow : α → α → α) : Ty → α
  | .var v => var v
  | .const name => const name
  | .arrow domain codomain =>
    arrow (domain.fold var const arrow) (codomain.fold var const arrow)

/-- The variables and constants, from left to right, in front of `rest`. -/
def leavesBefore : Ty → List Ty → List Ty
  | arrow domain codomain, rest => domain.leavesBefore (codomain.leavesBefore rest)
  | t, rest => t :: rest

/-- The variables and constants, from left to right. -/
def leaves (t : Ty) : List Ty := t.leavesBefore []

def var? : Ty → Option TyVar
  | var v => some v
  | _ => none

def occurrences (t : Ty) : List TyVar := t.leaves.filterMap var?

/-- The variables of a type, in the order of their first appearance. -/
def vars (t : Ty) : List TyVar := t.occurrences.eraseDups

theorem leavesBefore_eq (t : Ty) (rest : List Ty) : t.leavesBefore rest = t.leaves ++ rest := by
  induction t generalizing rest with
  | arrow domain codomain ihd ihc =>
    simp only [leaves, leavesBefore]
    rw [ihd, ihc, ihd (leavesBefore _ _), ihc []]
    simp
  | _ => rfl

@[simp] theorem leaves_arrow (domain codomain : Ty) :
    (arrow domain codomain).leaves = domain.leaves ++ codomain.leaves :=
  leavesBefore_eq domain codomain.leaves

@[simp] theorem occurrences_var (v : TyVar) : (var v).occurrences = [v] := rfl

@[simp] theorem occurrences_const (name : String) : (const name).occurrences = [] := rfl

@[simp] theorem occurrences_arrow (domain codomain : Ty) :
    (arrow domain codomain).occurrences = domain.occurrences ++ codomain.occurrences := by
  simp only [occurrences, leaves_arrow, List.filterMap_append]

@[simp] theorem mem_vars {v : TyVar} {t : Ty} : v ∈ t.vars ↔ v ∈ t.occurrences := by
  simp [vars]

end Ty

end Curried
