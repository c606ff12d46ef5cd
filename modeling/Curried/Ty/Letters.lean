import Curried.Ty.Basic

/-!
Names of type variables: the number in base 26, with the letters `a` to `z` as digits. The letter
`a` is the digit zero, so `z` is followed by `ba`.
-/

namespace Curried.TyVar

/-- One more than the greatest number that a name may stand for. -/
def limit : Nat := UInt32.size

def letter (digit : Nat) : Char := Char.ofNat ('a'.toNat + digit)

def digit? (c : Char) : Option Nat :=
  if 'a' ≤ c ∧ c ≤ 'z' then some (c.toNat - 'a'.toNat) else none

/-- The letters of a number, the least significant first. -/
def lettersReversed (v : Nat) : List Char :=
  if v < 26 then [letter v] else letter (v % 26) :: lettersReversed (v / 26)

/-- The name of a variable: `a` to `z`, then `ba`, `bb` and so on. -/
def letters (v : TyVar) : String := String.ofList (lettersReversed v).reverse

/-- Puts one more letter behind a number that is written in letters. -/
def appendLetter (v : Nat) (c : Char) : Option Nat := do
  let d ← digit? c
  let v := v * 26 + d
  if v < limit then some v else none

/-- The variable of a name that is made of lowercase letters and stays below the limit. -/
def ofLetters? (name : String) : Option TyVar :=
  match name.toList with
  | [] => none
  | c :: cs => (c :: cs).foldlM appendLetter 0

/-- A variable by its number, as messages name it: `t7`. -/
def display (v : TyVar) : String := "t" ++ v.repr

end Curried.TyVar
