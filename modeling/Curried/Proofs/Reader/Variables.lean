import Mathlib.Data.List.Forall2
import Curried.Proofs.Reader.Signature

/-!
The variables of a signature and their names. From left to right, the names in a signature are the
variables and constants of its type (`Signs.leaves`). The number of a variable is what its name
spells, where the letter `a` is zero, so two names are one variable exactly if they are the same but
for any `a` in front (`Ty.parse_var_eq_iff`).
-/

namespace Curried

namespace Lexeme

def Symbol.name? : Symbol → Option String
  | name text => some text
  | _ => none

/-- The names among the symbols, in their order. -/
def names (ks : List Symbol) : List String := ks.filterMap Symbol.name?

@[simp] theorem names_nil : names [] = [] := rfl

@[simp] theorem names_name (name : String) (ks : List Symbol) :
    names (.name name :: ks) = name :: names ks := rfl

@[simp] theorem names_arrow (ks : List Symbol) : names (.arrow :: ks) = names ks := rfl

@[simp] theorem names_openParen (ks : List Symbol) : names (.openParen :: ks) = names ks := rfl

@[simp] theorem names_closeParen (ks : List Symbol) : names (.closeParen :: ks) = names ks := rfl

@[simp] theorem names_append (ks ks' : List Symbol) : names (ks ++ ks') = names ks ++ names ks' :=
  List.filterMap_append

end Lexeme

open Lexeme (Symbol names)

namespace Reader

variable {name : String} {v : TyVar} {t : Ty}

theorem Names.spells (h : Names name (.var v)) : TyVar.Spells name.toList v := by
  cases h with
  | var hspells => exact hspells

/-- A name that starts with a lowercase letter is a variable, any other a constant. -/
theorem Names.isLower_iff (h : Names name t) :
    name.toList.head?.any Char.isLower ↔ ∃ v, t = .var v := by
  cases h with
  | var hspells => exact iff_of_true (head?_isLower_of_spells hspells) ⟨_, rfl⟩
  | const hname => exact iff_of_false hname nofun

theorem Names.leaves (h : Names name t) : t.leaves = [t] := by
  cases h with
  | var | const => rfl

mutual

/-- The names in an operand are the leaves of the type, one by one. -/
theorem Operand.leaves {ks : List Symbol} {t : Ty} (h : Operand ks t) :
    List.Forall₂ Names (names ks) t.leaves := by
  match h with
  | .name ht => simpa [ht.leaves] using ht
  | .parens ht => simpa using ht.leaves

theorem Signs.leaves {ks : List Symbol} {t : Ty} (h : Signs ks t) :
    List.Forall₂ Names (names ks) t.leaves := by
  match h with
  | .operand ht => exact ht.leaves
  | .arrow hd hc => simpa using List.rel_append hd.leaves hc.leaves

end

end Reader

namespace Ty

open Lexeme (Lexes)
open TyVar (significant)

/-- In a source that is read, the names are the leaves of the type, one by one from left to right:
those that start with a lowercase letter are its variables, and two of them are the same variable
exactly if they are the same behind any `a` in front. -/
theorem parse_var_eq_iff {source : String} {t : Ty} (h : parse source = .ok t) :
    ∃ ks, Lexes source.toList ks ∧ (names ks).length = t.leaves.length ∧
      (∀ name leaf, (name, leaf) ∈ (names ks).zip t.leaves →
        (name.toList.head?.any Char.isLower ↔ ∃ v, leaf = var v)) ∧
      ∀ name v name' v', (name, var v) ∈ (names ks).zip t.leaves →
        (name', var v') ∈ (names ks).zip t.leaves →
          (v = v' ↔ significant name.toList = significant name'.toList) := by
  obtain ⟨ks, hks, ht⟩ := parse_eq_ok_iff.mp h
  obtain ⟨hlength, hnames⟩ := List.forall₂_iff_zip.mp ht.leaves
  refine ⟨ks, hks, hlength, fun name leaf hleaf => (hnames hleaf).isLower_iff, ?_⟩
  intro name v name' v' hv hv'
  exact TyVar.eq_iff_of_spells (hnames hv).spells (hnames hv').spells

/-- The names `b` and `aab` are one variable, and `ba` is another. -/
theorem parse_var_eq_aab :
    let ks : List Symbol := [.openParen, .name "b", .arrow, .name "aab", .closeParen, .arrow,
      .name "ba"]
    Lexes "(b -> aab) -> ba".toList ks ∧
      parse "(b -> aab) -> ba" = .ok (arrow (arrow (var 1) (var 1)) (var 26)) ∧
      significant "b".toList = significant "aab".toList ∧
      significant "b".toList ≠ significant "ba".toList := by
  intro ks
  have hks : Lexes "(b -> aab) -> ba".toList ks := Lexeme.lexes_iff.mpr ⟨_, rfl, rfl⟩
  have ht : parse "(b -> aab) -> ba" = .ok (arrow (arrow (var 1) (var 1)) (var 26)) := rfl
  obtain ⟨ks', hks', -, -, hsame⟩ := parse_var_eq_iff ht
  obtain rfl := hks.unique hks'
  have hzip : (names ks).zip (arrow (arrow (var 1) (var 1)) (var 26)).leaves =
      [("b", var 1), ("aab", var 1), ("ba", var 26)] := rfl
  rw [hzip] at hsame
  have haab := hsame "b" 1 "aab" 1 (by simp) (by simp)
  have hba := hsame "b" 1 "ba" 26 (by simp) (by simp)
  exact ⟨hks, ht, haab.mp rfl, fun h => absurd (hba.mpr h) (by decide)⟩

/-- Different names of one variable: in front of other letters, `a` counts for nothing. -/
theorem parse_var_eq_aa :
    let ks : List Symbol := [.name "a", .arrow, .name "aa"]
    let t : Ty := arrow (var 0) (var 0)
    Lexes "a -> aa".toList ks ∧ parse "a -> aa" = .ok t ∧
      (names ks).zip t.leaves = [("a", var 0), ("aa", var 0)] ∧ "a" ≠ "aa" :=
  ⟨Lexeme.lexes_iff.mpr ⟨_, rfl, rfl⟩, rfl, rfl, by decide⟩

end Ty

end Curried
