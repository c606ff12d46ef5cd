import Curried.Eval.Basic
import Curried.Proofs.Eval.Call
import Curried.Proofs.Eval.Overload
import Curried.Proofs.Reader.Literal
import Curried.Standard

/-!
The operations on integers. A call on two words comes to the exact integer result if a word has it
and to an overflow otherwise; quotients are rounded toward zero, and a remainder has the sign of the
number that was divided (`Standard.eval_integers`).
-/

namespace Curried

/-- The result is the integer `n` if that is in the range of the words, and an overflow of the
operation otherwise. -/
structure Result.Exactly (operation : String) (n : Int) (r : Result) : Prop where
  word : -2 ^ 63 ≤ n → n ≤ 2 ^ 63 - 1 → ∃ w : Word, w.toInt = n ∧ r = .ok (.int w)
  overflow : n < -2 ^ 63 ∨ 2 ^ 63 - 1 < n → r = .error (.integerOverflow operation)

/-- Dividing `a` by `b` gives the quotient `q`, rounded toward zero, and the remainder `r`. -/
structure Division (a b q r : Int) : Prop where
  eq : a = q * b + r
  lt : r.natAbs < b.natAbs
  sign : r = 0 ∨ r.sign = a.sign

theorem Word.natAbs_le (a : Word) : a.toInt.natAbs ≤ 2 ^ 63 := by
  have := a.le_toInt
  have := a.toInt_lt
  omega

/-- The quotients of words are words, but for one. -/
theorem Word.tdiv_range {a b : Word} (h : ¬(a.toInt = -2 ^ 63 ∧ b.toInt = -1)) :
    -2 ^ 63 ≤ a.toInt.tdiv b.toInt ∧ a.toInt.tdiv b.toInt < 2 ^ 63 := by
  have ha := a.natAbs_le
  have hlt := a.toInt_lt
  have hle := Int.natAbs_tdiv_le_natAbs a.toInt b.toInt
  -- a divisor other than 0, 1 and -1 leaves at most half of `a`, which is far inside the range
  by_cases hone : b.toInt.natAbs ≤ 1
  · obtain hb | hb | hb : b.toInt = 0 ∨ b.toInt = 1 ∨ b.toInt = -1 := by omega
    · rw [hb, Int.tdiv_zero]
      decide
    · rw [hb, Int.tdiv_one]
      exact ⟨a.le_toInt, hlt⟩
    · rw [hb, Int.tdiv_neg, Int.tdiv_one]
      have := a.le_toInt
      omega
  · have hhalf : (a.toInt.tdiv b.toInt).natAbs ≤ a.toInt.natAbs / 2 := by
      rw [Int.natAbs_tdiv]
      exact Nat.div_le_div_left (by omega) (by decide)
    omega

theorem natAbs_tmod_lt (a : Int) {b : Int} (hb : b ≠ 0) : (a.tmod b).natAbs < b.natAbs := by
  rw [Int.natAbs_tmod]
  exact Nat.mod_lt _ (Int.natAbs_pos.mpr hb)

theorem Word.tmod_range (a : Word) {b : Word} (hb : b.toInt ≠ 0) :
    -2 ^ 63 ≤ a.toInt.tmod b.toInt ∧ a.toInt.tmod b.toInt < 2 ^ 63 := by
  have hle := b.natAbs_le
  have hlt := natAbs_tmod_lt a.toInt hb
  omega

theorem division_tdiv_tmod (a : Int) {b : Int} (hb : b ≠ 0) :
    Division a b (a.tdiv b) (a.tmod b) where
  eq := (Int.tdiv_mul_add_tmod a b).symm
  lt := natAbs_tmod_lt a hb
  sign := by
    rw [← Int.sign_eq_zero_iff_zero, Int.sign_tmod]
    split
    · exact .inl rfl
    · exact .inr rfl

namespace Standard

variable {a b : Word} {operation : String} {n : Int}

theorem exact_toInt (operation : String) (w : Word) : exact operation w.toInt = .ok (.int w) := by
  rw [exact, Word.ofInt?_eq_some_iff.mpr rfl]

theorem exact_overflow (h : n < -2 ^ 63 ∨ 2 ^ 63 - 1 < n) :
    exact operation n = .error (.integerOverflow operation) := by
  rw [exact, Word.ofInt?_eq_none_iff.mpr]
  rintro w rfl
  have := w.le_toInt
  have := w.toInt_lt
  omega

theorem exact_exactly (operation : String) (n : Int) :
    (exact operation n).Exactly operation n where
  word hle hlt := by
    obtain ⟨w, rfl⟩ := Word.exists_toInt_eq hle (Int.lt_of_le_sub_one hlt)
    exact ⟨w, rfl, exact_toInt operation w⟩
  overflow := exact_overflow

theorem div_rem_zero (a : Word) (hb : b.toInt = 0) :
    div a b = .error .divisionByZero ∧ rem a b = .error .divisionByZero := by
  obtain rfl : b = 0 := Int64.toInt_inj.mp hb
  exact ⟨rfl, rfl⟩

theorem div_rem_overflow (ha : a.toInt = -2 ^ 63) (hb : b.toInt = -1) :
    div a b = .error (.integerOverflow "/") ∧ rem a b = .error (.integerOverflow "%") := by
  have hne : b ≠ 0 := by
    rintro rfl
    cases hb
  have hlarge : 2 ^ 63 - 1 < a.toInt.tdiv b.toInt := by
    rw [ha, hb]
    decide
  rw [div, rem, if_neg hne, if_neg hne, exact_overflow (.inr hlarge), exact_overflow (.inr hlarge)]
  exact ⟨rfl, rfl⟩

theorem div_rem_division (hb : b.toInt ≠ 0) (h : ¬(a.toInt = -2 ^ 63 ∧ b.toInt = -1)) :
    ∃ q r : Word, div a b = .ok (.int q) ∧ rem a b = .ok (.int r) ∧
      Division a.toInt b.toInt q.toInt r.toInt := by
  have hne : b ≠ 0 := by
    rintro rfl
    exact hb rfl
  obtain ⟨q, hq⟩ := Word.exists_toInt_eq (Word.tdiv_range h).1 (Word.tdiv_range h).2
  obtain ⟨r, hr⟩ := Word.exists_toInt_eq (a.tmod_range hb).1 (a.tmod_range hb).2
  rw [div, rem, if_neg hne, if_neg hne, ← hq, ← hr, exact_toInt, exact_toInt]
  refine ⟨q, r, rfl, exact_toInt "%" r, ?_⟩
  rw [hq, hr]
  exact division_tdiv_tmod a.toInt hb

/-! ## Calls -/

/-- A call that runs an operation on integers gives the operation its arguments. -/
theorem eval_ints (name : String) {result : Ty} {body : Word → Word → Result}
    (h : registry.resolve name [.int a, .int b] = .ok (ints name result body)) :
    registry.eval (.call name [.int a, .int b]) = body a b := by
  have hform : (Expr.call name [.int a, .int b]).form = .call name [.int a, .int b] := rfl
  have heval (w : Word) : registry.eval (.int w) = .ok (.int w) := Registry.eval_value rfl
  rw [Registry.eval_call hform h, ints, Function.eager, Closure.run_call_eager]
  simp only [Closure.collect, heval]
  rfl

/-- A call of an overloaded name on integers runs the same function for all of them. -/
theorem resolve_ints {name : String} (h : 2 ≤ (registry.find name).length) (a b : Word) :
    registry.resolve name [.int a, .int b] =
      match (Typing.choose name (registry.signatures name) [.int, .int] ⟨0⟩).1 with
      | .error e => .error (.resolution e)
      | .ok r =>
        match registry.get? name r.index with
        | some f => .ok f
        | none => .error (.unknownFunction name) := by
  have hne : registry.signatures name ≠ [] := by
    intro hnil
    rw [List.map_eq_nil_iff.mp hnil] at h
    cases h
  rw [Registry.resolve_overloaded h, Typing.resolve_known hne]
  simp only [Typing.inferArgs, Typing.infer_value (e := .int _) rfl]
  rfl

/-- What the operations on integers make of two words. -/
structure Computes (a b : Word) (result : String → Result) : Prop where
  add : (result "+").Exactly "+" (a.toInt + b.toInt)
  sub : (result "-").Exactly "-" (a.toInt - b.toInt)
  mul : (result "*").Exactly "*" (a.toInt * b.toInt)
  zero : b.toInt = 0 →
    result "/" = .error .divisionByZero ∧ result "%" = .error .divisionByZero
  overflow : a.toInt = -2 ^ 63 → b.toInt = -1 →
    result "/" = .error (.integerOverflow "/") ∧ result "%" = .error (.integerOverflow "%")
  division : b.toInt ≠ 0 → ¬(a.toInt = -2 ^ 63 ∧ b.toInt = -1) →
    ∃ q r : Word, result "/" = .ok (.int q) ∧ result "%" = .ok (.int r) ∧
      Division a.toInt b.toInt q.toInt r.toInt
  lt : result "<" = .ok (.bool (a.toInt < b.toInt))
  le : result "<=" = .ok (.bool (a.toInt ≤ b.toInt))
  gt : result ">" = .ok (.bool (a.toInt > b.toInt))
  ge : result ">=" = .ok (.bool (a.toInt ≥ b.toInt))
  eq : result "==" = .ok (.bool (a.toInt = b.toInt))

/-- The operations on integers are exact. -/
theorem eval_integers (a b : Word) :
    Computes a b fun name => registry.eval (.call name [.int a, .int b]) where
  add := by
    rw [eval_ints "+" (resolve_ints (by decide) a b)]
    exact exact_exactly ..
  sub := by
    rw [eval_ints "-" rfl]
    exact exact_exactly ..
  mul := by
    rw [eval_ints "*" rfl]
    exact exact_exactly ..
  zero hb := by
    rw [eval_ints "/" rfl, eval_ints "%" rfl]
    exact div_rem_zero a hb
  overflow ha hb := by
    rw [eval_ints "/" rfl, eval_ints "%" rfl]
    exact div_rem_overflow ha hb
  division hb h := by
    rw [eval_ints "/" rfl, eval_ints "%" rfl]
    exact div_rem_division hb h
  lt := eval_ints "<" rfl
  le := eval_ints "<=" rfl
  gt := eval_ints ">" rfl
  ge := eval_ints ">=" rfl
  eq := eval_ints "==" (resolve_ints (by decide) a b)

end Standard

end Curried
