import Mathlib.Data.Nat.Digits.Defs
import Curried.Reader.Expr

/-!
What atoms denote. A numeral has digits in the decimal system, of any number, with a minus sign in
front if it is negative; an atom that is one denotes its value or, out of range, nothing
(`literal_eq_ok_iff`).
-/

namespace Curried

theorem Word.ofInt?_eq_some_iff {n : Int} {w : Word} : Word.ofInt? n = some w ↔ w.toInt = n := by
  rw [Word.ofInt?, Int64.toInt_minValue, Int64.toInt_maxValue]
  constructor
  · intro h
    obtain ⟨⟨hmin, hmax⟩, h⟩ := Option.ite_none_right_eq_some.mp h
    rw [← Option.some.inj h, Int64.toInt_ofInt_of_le hmin (by omega)]
  · rintro rfl
    rw [if_pos ⟨w.le_toInt, by have := w.toInt_lt; omega⟩, Int64.ofInt_toInt]

/-- A number has no word exactly if it is the value of none. -/
theorem Word.ofInt?_eq_none_iff {n : Int} : Word.ofInt? n = none ↔ ∀ w : Word, w.toInt ≠ n := by
  simp only [Option.eq_none_iff_forall_not_mem, Option.mem_def, Word.ofInt?_eq_some_iff, ne_eq]

theorem Word.exists_toInt_eq {n : Int} (hle : -2 ^ 63 ≤ n) (hlt : n < 2 ^ 63) :
    ∃ w : Word, w.toInt = n := ⟨.ofInt n, Int64.toInt_ofInt_of_le hle hlt⟩

/-- The integers that are out of the range of the words. -/
theorem Word.forall_toInt_ne_iff {n : Int} :
    (∀ w : Word, w.toInt ≠ n) ↔ n < -2 ^ 63 ∨ 2 ^ 63 - 1 < n := by
  constructor
  · intro h
    by_contra hrange
    obtain ⟨w, hw⟩ := exists_toInt_eq (n := n) (by omega) (by omega)
    exact h w hw
  · rintro hrange w rfl
    have := w.le_toInt
    have := w.toInt_lt
    omega

namespace Reader

/-- `Decimal digits n`: the number with these digits in the decimal system is `n`. -/
structure Decimal (digits : List Char) (n : Nat) : Prop where
  ne_nil : digits ≠ []
  isDigit : ∀ c ∈ digits, c.isDigit
  value : Nat.ofDigits 10 (digits.reverse.map fun c => c.toNat - '0'.toNat) = n

/-- `Numeral text n`: the text writes the integer `n`, in any number of digits. -/
inductive Numeral : List Char → Int → Prop where
  | nonneg : Decimal digits n → Numeral digits n
  | neg : Decimal digits n → Numeral ('-' :: digits) (-n)

/-- `Denotes text l`: as an atom, the text stands for the literal `l`. -/
inductive Denotes : String → Literal → Prop where
  | true : Denotes "true" (.bool true)
  | false : Denotes "false" (.bool false)
  | int {w : Word} : Numeral text.toList w.toInt → Denotes text (.int w)
  | atom : text ≠ "true" → text ≠ "false" → (∀ n, ¬Numeral text.toList n) →
      Denotes text (.atom text)

variable {digits cs : List Char} {n : Nat} {i : Int} {text : String} {l : Literal} {span : Span}

theorem decimal_eq_ofDigits :
    decimal digits = Nat.ofDigits 10 (digits.reverse.map fun c => c.toNat - '0'.toNat) := by
  rw [Nat.ofDigits_eq_foldr, List.map_reverse, List.foldr_reverse, List.foldl_map, decimal]
  simp only [Nat.cast_id, Nat.add_comm]

theorem decimal_iff : Decimal digits n ↔
    (!digits.isEmpty && digits.all Char.isDigit) = true ∧ decimal digits = n := by
  rw [decimal_eq_ofDigits, Bool.and_eq_true, Bool.not_eq_true', List.isEmpty_eq_false_iff,
    List.all_eq_true]
  exact ⟨fun h => ⟨⟨h.ne_nil, h.isDigit⟩, h.value⟩, fun ⟨⟨hne, hdigit⟩, hvalue⟩ =>
    ⟨hne, hdigit, hvalue⟩⟩

theorem integer?_eq_some_iff : integer? cs = some i ↔ Numeral cs i := by
  unfold integer?
  split
  · next digits =>
    simp only [Option.ite_none_right_eq_some, Option.some.injEq]
    constructor
    · rintro ⟨hdigits, rfl⟩
      exact .neg (decimal_iff.mpr ⟨hdigits, rfl⟩)
    · intro h
      cases h with
      | nonneg h => exact absurd (h.isDigit '-' List.mem_cons_self) (by decide)
      | neg h =>
        obtain ⟨hdigits, rfl⟩ := decimal_iff.mp h
        exact ⟨hdigits, rfl⟩
  · next hsign =>
    simp only [Option.ite_none_right_eq_some, Option.some.injEq]
    constructor
    · rintro ⟨hdigits, rfl⟩
      exact .nonneg (decimal_iff.mpr ⟨hdigits, rfl⟩)
    · intro h
      cases h with
      | nonneg h =>
        obtain ⟨hdigits, rfl⟩ := decimal_iff.mp h
        exact ⟨hdigits, rfl⟩
      | neg => exact absurd rfl (hsign _)

theorem integer?_eq_none_iff : integer? cs = none ↔ ∀ i, ¬Numeral cs i := by
  simp only [Option.eq_none_iff_forall_not_mem, Option.mem_def, integer?_eq_some_iff]

theorem Numeral.unique {j : Int} (h : Numeral cs i) (h' : Numeral cs j) : i = j :=
  Option.some.inj ((integer?_eq_some_iff.mpr h).symm.trans (integer?_eq_some_iff.mpr h'))

theorem not_numeral_true : ∀ i, ¬Numeral "true".toList i := integer?_eq_none_iff.mp (by decide)

theorem not_numeral_false : ∀ i, ¬Numeral "false".toList i := integer?_eq_none_iff.mp (by decide)

/-- A numeral denotes its value, if this has 64 bits. -/
theorem denotes_iff_of_numeral (h : Numeral text.toList i) :
    Denotes text l ↔ ∃ w, Word.ofInt? i = some w ∧ l = .int w := by
  constructor
  · intro hl
    cases hl with
    | true => exact absurd h (not_numeral_true _)
    | false => exact absurd h (not_numeral_false _)
    | int h' => exact ⟨_, Word.ofInt?_eq_some_iff.mpr (h'.unique h), rfl⟩
    | atom _ _ hnone => exact absurd h (hnone _)
  · rintro ⟨w, hw, rfl⟩
    exact .int (Word.ofInt?_eq_some_iff.mp hw ▸ h)

/-- An atom is read as the literal that it denotes, and as nothing if it denotes none. -/
theorem literal_eq_ok_iff : literal text span = .ok l ↔ Denotes text l := by
  unfold literal
  split_ifs with htrue hfalse
  · refine ⟨fun h => by cases h; exact htrue ▸ .true, fun h => ?_⟩
    cases h with
    | true => rfl
    | false => exact absurd htrue (by decide)
    | int h => exact absurd (htrue ▸ h) (not_numeral_true _)
    | atom hne => exact absurd htrue hne
  · refine ⟨fun h => by cases h; exact hfalse ▸ .false, fun h => ?_⟩
    cases h with
    | true => exact absurd rfl htrue
    | false => rfl
    | int h => exact absurd (hfalse ▸ h) (not_numeral_false _)
    | atom _ hne => exact absurd hfalse hne
  · split
    · next hnone =>
      have hnone := integer?_eq_none_iff.mp hnone
      refine ⟨fun h => by cases h; exact .atom htrue hfalse hnone, fun h => ?_⟩
      cases h with
      | true => exact absurd rfl htrue
      | false => exact absurd rfl hfalse
      | int h => exact absurd h (hnone _)
      | atom => rfl
    · next i hsome =>
      rw [denotes_iff_of_numeral (integer?_eq_some_iff.mp hsome)]
      split
      · next w hw => simp [hw, eq_comm]
      · next hw => simp [hw]

/-- The only atoms that denote nothing are the numerals out of range. -/
theorem literal_eq_error_iff {err : ParseError} : literal text span = .error err ↔
    (∃ i, Numeral text.toList i ∧ ∀ w : Word, w.toInt ≠ i) ∧
      err = ⟨.integerOutOfRange text, span⟩ := by
  constructor
  · intro h
    unfold literal at h
    split_ifs at h
    split at h
    · cases h
    · next i hsome =>
      split at h
      · cases h
      · next hnone =>
        cases h
        exact ⟨⟨i, integer?_eq_some_iff.mp hsome, Word.ofInt?_eq_none_iff.mp hnone⟩, rfl⟩
  · rintro ⟨⟨i, hnumeral, hrange⟩, rfl⟩
    have htrue : text ≠ "true" := fun h => not_numeral_true i (h ▸ hnumeral)
    have hfalse : text ≠ "false" := fun h => not_numeral_false i (h ▸ hnumeral)
    rw [literal, if_neg htrue, if_neg hfalse, integer?_eq_some_iff.mpr hnumeral]
    simp only [Word.ofInt?_eq_none_iff.mpr hrange]

end Reader

end Curried
