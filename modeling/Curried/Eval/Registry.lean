import Curried.Eval.Function
import Curried.Typing.Infer

/-!
Registries: the functions that are known, in the order of their first declaration, with an index of
their positions by name. Functions of one name are overloads of each other; declaring a function
again under the same key puts the new one in the old one's place.
-/

namespace Curried

namespace Registry

/-- Positions of functions by name. -/
abbrev Index := List (String × List Nat)

/-- The positions at which a name stands in a list of names. -/
def positions (name : String) (names : List String) : List Nat :=
  (names.zipIdx.filter (·.1 == name)).map (·.2)

/-- Puts a position behind those that the name has. -/
def enter (name : String) (i : Nat) : Index → Index
  | [] => [(name, [i])]
  | (other, is) :: rest =>
    if other = name then (other, is ++ [i]) :: rest else (other, is) :: enter name i rest

theorem mem_positions {name : String} {names : List String} {i : Nat} :
    i ∈ positions name names ↔ names[i]? = some name := by
  simp [positions, List.mem_zipIdx_iff_getElem?]

theorem positions_append (name other : String) (names : List String) :
    positions name (names ++ [other]) =
      positions name names ++ if other = name then [names.length] else [] := by
  simp only [positions, List.zipIdx_append, List.filter_append, List.map_append,
    List.zipIdx_cons, List.zipIdx_nil, List.filter_cons, List.filter_nil, beq_iff_eq]
  split <;> simp

theorem lookup_enter (name other : String) (i : Nat) (index : Index) :
    (enter name i index).lookup other =
      if other = name then some ((index.lookup name).getD [] ++ [i]) else index.lookup other := by
  induction index with
  | nil => simp only [enter, List.lookup_cons, List.lookup_nil]; grind
  | cons entry rest ih =>
    simp only [enter]
    grind

end Registry

open Registry in
structure Registry where
  functions : List Function
  index : Index
  /-- The positions of a name are those of the functions that have it. -/
  indexed : ∀ name, (index.lookup name).getD [] = positions name (functions.map (·.name))
  /-- A name without functions has no entry. -/
  named : ∀ name, index.lookup name ≠ some []

namespace Registry

def empty : Registry := ⟨[], [], fun _ => rfl, fun _ => nofun⟩

/-- The positions of the functions of a name. -/
def slots (R : Registry) (name : String) : List Nat := (R.index.lookup name).getD []

theorem slots_eq (R : Registry) (name : String) :
    R.slots name = positions name (R.functions.map (·.name)) := R.indexed name

/-- The position of the function that has the name and the key of `f`. -/
def position? (R : Registry) (f : Function) : Option Nat :=
  (R.slots f.name).find? fun i => R.functions[i]?.any (·.key == f.key)

theorem name_of_position? {R : Registry} {f : Function} {i : Nat} (h : R.position? f = some i) :
    (R.functions.map (·.name))[i]? = some f.name := by
  rw [← mem_positions, ← slots_eq]
  exact List.mem_of_find?_eq_some h

/-- Puts a function in the place of another one of its name. -/
def replace (R : Registry) (i : Nat) (f : Function)
    (h : (R.functions.map (·.name))[i]? = some f.name) : Registry where
  functions := R.functions.set i f
  index := R.index
  indexed name := by
    obtain ⟨hi, hf⟩ := List.getElem?_eq_some_iff.mp h
    rw [List.map_set, ← hf, List.set_getElem_self, R.indexed]
  named := R.named

/-- Puts a function behind all others. -/
def append (R : Registry) (f : Function) : Registry where
  functions := R.functions ++ [f]
  index := enter f.name R.functions.length R.index
  indexed name := by
    rw [lookup_enter, List.map_append, List.map_singleton, positions_append, List.length_map]
    split
    · subst_vars
      rw [if_pos rfl, Option.getD_some, R.indexed]
    · rw [if_neg (Ne.symm ‹_›), List.append_nil, R.indexed]
  named name := by
    rw [lookup_enter]
    split
    · simp
    · exact R.named name

/-- Puts a function in the place of the one with its key, or at the end. -/
def declare (R : Registry) (f : Function) : Registry :=
  match h : R.position? f with
  | some i => R.replace i f (name_of_position? h)
  | none => R.append f

/-- The overloads of a name. -/
def find (R : Registry) (name : String) : List Function :=
  (R.slots name).filterMap fun i => R.functions[i]?

def get? (R : Registry) (name : String) (index : Nat) : Option Function :=
  (R.slots name)[index]?.bind fun i => R.functions[i]?

def overloadCount (R : Registry) (name : String) : Nat := (R.slots name).length

def contains (R : Registry) (name : String) : Bool := (R.index.lookup name).isSome

def signatures (R : Registry) : Signatures := fun name => (R.find name).map (·.signature)

def dump (R : Registry) : String := String.join (R.functions.map fun f => f.key ++ "\n")

/-- The function that a call of `name` with the given arguments runs. A name with several overloads
is resolved by the types of the arguments. -/
def resolve (R : Registry) (name : String) (args : List Expr) : Except EvalError Function :=
  match R.find name with
  | [] => .error (.unknownFunction name)
  | [f] => .ok f
  | overloads =>
    match (Typing.resolve R.signatures name args ⟨0⟩).1 with
    | .error e => .error (.resolution e)
    | .ok r =>
      match overloads[r.index]? with
      | some f => .ok f
      | none => .error (.unknownFunction name)

end Registry

end Curried
