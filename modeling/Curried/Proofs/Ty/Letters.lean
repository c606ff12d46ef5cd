import Mathlib.Data.Nat.Digits.Defs
import Mathlib.Tactic.Ring
import Curried.Ty.Letters

/-!
Names of type variables as numerals in base 26. `Spells cs v` says that the letters write the
number, of any size and with any leading zeros. A name is read as the number below the limit that it
spells (`ofLetters?_eq_some_iff`), and what a variable is written as spells it (`spells_letters`).
The letter `a` is the digit zero, so names spell one number exactly if they are the same but for any
`a` in front (`eq_iff_of_spells`). No variable but zero is written with an `a` in front
(`significant_letters`), and both directions are exact below the limit (`letters_exact`).
-/

namespace Curried.TyVar

/-- What a lowercase letter is as a digit. -/
def worth (c : Char) : Nat := c.toNat - 'a'.toNat

/-- `Spells cs v`: the number with these lowercase letters in base 26 is `v`. -/
structure Spells (cs : List Char) (v : Nat) : Prop where
  ne_nil : cs ≠ []
  isLower : ∀ c ∈ cs, c.isLower
  value : Nat.ofDigits 26 (cs.reverse.map worth) = v

variable {c : Char} {cs : List Char} {name : String} {d v w : Nat}

theorem isLower_iff : c.isLower ↔ 'a' ≤ c ∧ c ≤ 'z' := by
  show (decide ('a' ≤ c) && decide (c ≤ 'z')) = true ↔ _
  rw [Bool.and_eq_true, decide_eq_true_iff, decide_eq_true_iff]

theorem digit?_eq_some_iff : digit? c = some d ↔ c.isLower ∧ worth c = d := by
  rw [isLower_iff, digit?, Option.ite_none_right_eq_some, Option.some.injEq, worth]

/-! ## Reading a name -/

theorem appendLetter_eq_some_iff :
    appendLetter v c = some w ↔ c.isLower ∧ v * 26 + worth c = w ∧ w < limit := by
  simp only [appendLetter, Option.bind_eq_bind, Option.bind_eq_some_iff, digit?_eq_some_iff,
    Option.ite_none_right_eq_some, Option.some.injEq]
  constructor
  · rintro ⟨_, ⟨hc, rfl⟩, hlt, rfl⟩
    exact ⟨hc, rfl, hlt⟩
  · rintro ⟨hc, rfl, hlt⟩
    exact ⟨_, ⟨hc, rfl⟩, hlt, rfl⟩

theorem ofDigits_reverse_cons (v : Nat) (c : Char) (cs : List Char) :
    v * 26 ^ (c :: cs).length + Nat.ofDigits 26 ((c :: cs).reverse.map worth) =
      (v * 26 + worth c) * 26 ^ cs.length + Nat.ofDigits 26 (cs.reverse.map worth) := by
  rw [List.length_cons, List.reverse_cons, List.map_append, Nat.ofDigits_append, List.length_map,
    List.length_reverse, List.map_singleton, Nat.ofDigits_singleton]
  ring

/-- The limit is checked after each letter, but only the last value counts: no letter makes a number
smaller. -/
theorem foldlM_appendLetter (hv : v < limit) : cs.foldlM appendLetter v = some w ↔
    (∀ c ∈ cs, c.isLower) ∧ v * 26 ^ cs.length + Nat.ofDigits 26 (cs.reverse.map worth) = w ∧
      w < limit := by
  induction cs generalizing v with
  | nil =>
    simp only [List.foldlM_nil, Option.pure_def, Option.some.injEq, List.length_nil, Nat.pow_zero,
      Nat.mul_one, List.reverse_nil, List.map_nil, Nat.ofDigits_nil, Nat.add_zero]
    constructor
    · rintro rfl
      exact ⟨List.forall_mem_nil _, rfl, hv⟩
    · exact fun h => h.2.1
  | cons c cs ih =>
    rw [List.foldlM_cons, Option.bind_eq_bind, Option.bind_eq_some_iff, ofDigits_reverse_cons,
      List.forall_mem_cons]
    simp only [appendLetter_eq_some_iff]
    constructor
    · rintro ⟨_, ⟨hc, rfl, hlt⟩, h⟩
      obtain ⟨hcs, hw, hwlt⟩ := (ih hlt).mp h
      exact ⟨⟨hc, hcs⟩, hw, hwlt⟩
    · rintro ⟨⟨hc, hcs⟩, hw, hwlt⟩
      have hle : v * 26 + worth c ≤ (v * 26 + worth c) * 26 ^ cs.length :=
        Nat.le_mul_of_pos_right _ (Nat.pow_pos (by decide))
      have hlt : v * 26 + worth c < limit := by omega
      exact ⟨_, ⟨hc, rfl, hlt⟩, (ih hlt).mpr ⟨hcs, hw, hwlt⟩⟩

theorem ofLetters?_eq_some_iff : ofLetters? name = some v ↔ Spells name.toList v ∧ v < limit := by
  unfold ofLetters?
  split
  · next hnil => exact ⟨nofun, fun h => absurd hnil h.1.ne_nil⟩
  · next c cs hcons =>
    rw [foldlM_appendLetter (by decide), Nat.zero_mul, Nat.zero_add, hcons]
    exact ⟨fun ⟨hlower, hvalue, hlt⟩ => ⟨⟨nofun, hlower, hvalue⟩, hlt⟩,
      fun ⟨h, hlt⟩ => ⟨h.isLower, h.value, hlt⟩⟩

/-! ## Writing a variable -/

theorem toNat_letter (hd : d < 26) : (letter d).toNat = 'a'.toNat + d := by
  have hvalid : ('a'.toNat + d).isValidChar := .inl (by simp; omega)
  rw [letter, Char.ofNat, dif_pos hvalid]
  rfl

theorem worth_letter (hd : d < 26) : worth (letter d) = d := by
  rw [worth, toNat_letter hd, Nat.add_sub_cancel_left]

theorem isLower_letter (hd : d < 26) : (letter d).isLower := by
  have h := toNat_letter hd
  rw [isLower_iff, Char.le_def, Char.le_def, UInt32.le_iff_toNat_le, UInt32.le_iff_toNat_le]
  simp at *
  omega

theorem letters_zero : letters 0 = "a" := by
  rw [letters, lettersReversed]
  rfl

theorem lettersReversed_eq (hv : 0 < v) : lettersReversed v = (Nat.digits 26 v).map letter := by
  induction v using Nat.strongRecOn with
  | ind v ih =>
    rw [lettersReversed, Nat.digits_def' (by decide) hv, List.map_cons]
    split
    · next hlt => rw [Nat.mod_eq_of_lt hlt, Nat.div_eq_of_lt hlt, Nat.digits_zero, List.map_nil]
    · next hge =>
      have hdiv : 0 < v / 26 := Nat.div_pos (Nat.le_of_not_lt hge) (by decide)
      rw [ih (v / 26) (Nat.div_lt_self hv (by decide)) hdiv]

/-- A number other than zero is written with its digits and no more. -/
theorem toList_letters (hv : 0 < v) :
    (letters v).toList = ((Nat.digits 26 v).map letter).reverse := by
  rw [letters, String.toList_ofList, lettersReversed_eq hv]

theorem spells_letters (v : TyVar) : Spells v.letters.toList v := by
  rcases Nat.eq_zero_or_pos v with rfl | hpos
  · rw [letters_zero]
    exact ⟨nofun, by simp, rfl⟩
  · have hdigit : ∀ d ∈ Nat.digits 26 v, d < 26 := fun d hd => Nat.digits_lt_base (by decide) hd
    have hworth : (Nat.digits 26 v).map (worth ∘ letter) = (Nat.digits 26 v).map id :=
      List.map_congr_left fun d hd => worth_letter (hdigit d hd)
    rw [toList_letters hpos]
    refine ⟨?_, ?_, ?_⟩
    · simpa [Nat.digits_eq_nil_iff_eq_zero] using Nat.ne_of_gt hpos
    · intro c hc
      obtain ⟨d, hd, rfl⟩ := List.mem_map.mp (List.mem_reverse.mp hc)
      exact isLower_letter (hdigit d hd)
    · rw [List.reverse_reverse, List.map_map, hworth, List.map_id, Nat.ofDigits_digits]

/-! ## Spellings of one number -/

/-- The letters of a name behind any `a` in front. -/
def significant (cs : List Char) : List Char := cs.dropWhile (· == 'a')

theorem head?_significant_ne (cs : List Char) : (significant cs).head? ≠ some 'a' := by
  intro ha
  have hnot := List.head?_dropWhile_not (· == 'a') cs
  rw [← significant, ha] at hnot
  exact absurd hnot (by decide)

theorem Spells.isLower_significant (h : Spells cs v) : ∀ c ∈ significant cs, c.isLower :=
  fun c hc => h.isLower c ((List.dropWhile_sublist _).subset hc)

theorem worth_lt (hc : c.isLower) : worth c < 26 := by
  have hle : c.toNat ≤ 'z'.toNat := (isLower_iff.mp hc).2
  rw [worth]
  simp at hle ⊢
  omega

theorem letter_worth (hc : c.isLower) : letter (worth c) = c := by
  have hle : 'a'.toNat ≤ c.toNat := (isLower_iff.mp hc).1
  rw [letter, worth, Nat.add_sub_cancel' hle, Char.ofNat_toNat]

theorem ofDigits_significant (cs : List Char) :
    Nat.ofDigits 26 ((significant cs).reverse.map worth) =
      Nat.ofDigits 26 (cs.reverse.map worth) := by
  induction cs with
  | nil => rfl
  | cons c cs ih =>
    rw [significant, List.dropWhile_cons]
    split
    · next hc =>
      obtain rfl := beq_iff_eq.mp hc
      rw [← significant, ih, List.reverse_cons, List.map_append, Nat.ofDigits_append]
      simp [worth]
    · rfl

/-- Behind any `a` in front, the letters are the digits of the number. -/
theorem digits_of_spells (h : Spells cs v) :
    Nat.digits 26 v = (significant cs).reverse.map worth := by
  rw [← h.value, ← ofDigits_significant]
  refine Nat.digits_ofDigits 26 (by decide) _ (fun d hd => ?_) (fun hne => ?_)
  · obtain ⟨c, hc, rfl⟩ := List.mem_map.mp hd
    exact worth_lt (h.isLower_significant c (List.mem_reverse.mp hc))
  · -- The most significant digit is that of a letter other than `a`.
    have hne : significant cs ≠ [] := by simpa using hne
    rw [List.getLast_map, List.getLast_reverse]
    intro hzero
    have ha : (significant cs).head hne = 'a' := by
      rw [← letter_worth (h.isLower_significant _ (List.head_mem hne)), hzero]
      rfl
    rw [List.head_eq_iff_head?_eq_some] at ha
    exact head?_significant_ne cs ha

/-- A number determines the letters that spell it, up to any `a` in front. -/
theorem significant_of_spells (h : Spells cs v) :
    significant cs = ((Nat.digits 26 v).map letter).reverse := by
  have hletters : (significant cs).map (letter ∘ worth) = (significant cs).map id :=
    List.map_congr_left fun c hc => letter_worth (h.isLower_significant c hc)
  rw [digits_of_spells h, List.map_reverse, List.map_reverse, List.reverse_reverse, List.map_map,
    hletters, List.map_id]

theorem eq_iff_of_spells {cs' : List Char} (h : Spells cs v) (h' : Spells cs' w) :
    v = w ↔ significant cs = significant cs' := by
  constructor
  · rintro rfl
    rw [significant_of_spells h, significant_of_spells h']
  · intro heq
    rw [← h.value, ← h'.value, ← ofDigits_significant, heq, ofDigits_significant]

/-! ## Written without an `a` in front -/

theorem significant_letters (hv : 0 < v) : significant (letters v).toList = (letters v).toList := by
  rw [significant_of_spells (spells_letters v), toList_letters hv]

/-- Only zero is written with an `a` in front, which is all that it is written with. -/
theorem letters_eq_of_head? (h : (letters v).toList.head? = some 'a') : letters v = "a" := by
  rcases Nat.eq_zero_or_pos v with rfl | hpos
  · exact letters_zero
  · rw [← significant_letters hpos] at h
    exact absurd h (head?_significant_ne _)

/-- Below the limit, writing a variable and reading it gives the variable. It is written in letters
from `a` to `z`, and none but `a` itself starts with `a`. A text is read as a variable exactly if it
spells a number below the limit. -/
theorem letters_exact :
    (∀ v : TyVar, v < 2 ^ 32 → ofLetters? v.letters = some v ∧
      (∀ c ∈ v.letters.toList, 'a' ≤ c ∧ c ≤ 'z') ∧
      (v.letters.toList.head? = some 'a' → v.letters = "a")) ∧
    ∀ (name : String) (v : TyVar),
      ofLetters? name = some v ↔ Spells name.toList v ∧ v < 2 ^ 32 := by
  refine ⟨fun v hv => ⟨?_, ?_, letters_eq_of_head?⟩, fun name v => ofLetters?_eq_some_iff⟩
  · exact ofLetters?_eq_some_iff.mpr ⟨spells_letters v, hv⟩
  · exact fun c hc => isLower_iff.mp ((spells_letters v).isLower c hc)

/-- The last variable is read from its name with any `a` in front, the name behind it not at all. -/
theorem letters_exact_last :
    let v : TyVar := 2 ^ 32 - 1
    v < 2 ^ 32 ∧ v.letters = "nxmrlxv" ∧ ofLetters? v.letters = some v ∧
      ofLetters? "aaaaaaaanxmrlxv" = some v ∧ ofLetters? "nxmrlxw" = none := by
  intro v
  have hv : v < 2 ^ 32 := by decide
  have hname : v.letters = "nxmrlxv" := by decide +kernel
  obtain ⟨hletters, hread⟩ := letters_exact
  have hzeros : Spells "aaaaaaaanxmrlxv".toList v := ⟨nofun, by simp, rfl⟩
  have hbehind : letters (2 ^ 32) = "nxmrlxw" := by decide +kernel
  refine ⟨hv, hname, (hletters v hv).1, (hread _ _).mpr ⟨hzeros, hv⟩, ?_⟩
  rw [← hbehind, Option.eq_none_iff_forall_ne_some]
  intro w hw
  obtain ⟨hspells, hlt⟩ := (hread _ _).mp hw
  rw [← hspells.value, (spells_letters _).value] at hlt
  exact Nat.lt_irrefl _ hlt

end Curried.TyVar
