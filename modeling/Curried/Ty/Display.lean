import Curried.Ty.Letters
import Curried.Ty.Subst

/-!
How a type is written. Its variables take the names `a`, `b`, … in the order in which they first
appear, so types that differ in the numbers of their variables only are written alike.
-/

namespace Curried.Ty

/-- Numbers the variables 0, 1, 2, … in the order of their first appearance. -/
def canonical (t : Ty) : Ty :=
  let vars := t.vars
  t.subst fun v => var (vars.idxOf v)

/-- Puts the text of a type behind `written`: the letters of each variable, parentheses around a
domain that is an arrow, and no others. -/
def writeAfter (written : String) : Ty → String
  | var v => written ++ TyVar.letters v
  | const name => written ++ name
  | arrow domain codomain =>
    let written :=
      if domain.isArrow then domain.writeAfter (written ++ "(") ++ ")"
      else domain.writeAfter written
    codomain.writeAfter (written ++ " -> ")

def display (t : Ty) : String := t.canonical.writeAfter ""

theorem writeAfter_eq (written : String) (t : Ty) :
    t.writeAfter written = written ++ t.writeAfter "" := by
  induction t generalizing written with
  | var v => simp [writeAfter]
  | const name => simp [writeAfter]
  | arrow domain codomain ihd ihc =>
    simp only [writeAfter]
    split
    · rw [ihc, ihd, ihc (_ ++ _), ihd ("" ++ "(")]
      simp only [String.append_assoc, String.empty_append]
    · rw [ihc, ihd, ihc (_ ++ _)]
      simp only [String.append_assoc]

/-- An arrow is its domain, in parentheses if that is an arrow, `->`, and its codomain. -/
theorem writeAfter_arrow (domain codomain : Ty) :
    (arrow domain codomain).writeAfter "" =
      (if domain.isArrow then "(" ++ domain.writeAfter "" ++ ")" else domain.writeAfter "") ++
        " -> " ++ codomain.writeAfter "" := by
  simp only [writeAfter]
  split
  · rw [writeAfter_eq, writeAfter_eq ("" ++ "(")]
    simp only [String.append_assoc, String.empty_append]
  · rw [writeAfter_eq]

end Curried.Ty
