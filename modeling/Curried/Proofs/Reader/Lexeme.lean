import Mathlib.Data.List.Basic
import Curried.Reader.Lexeme

/-!
What signatures are made of. `Lexes` says which symbols a text holds, where a name goes on as long
as it can, and `lexes_iff` that scanning finds exactly these. As with the tokens of expressions, a
scan that is under way asks something of the text in front of it (`Scan.Yields`), which no step
changes.
-/

namespace Curried.Lexeme

/-- A lexeme without its place in the source. -/
inductive Symbol where
  | arrow
  | openParen
  | closeParen
  | name (text : String)

def symbol (l : Lexeme) : Symbol :=
  match l.kind with
  | .arrow => .arrow
  | .openParen => .openParen
  | .closeParen => .closeParen
  | .name => .name l.text

theorem symbol_eq_arrow_iff {l : Lexeme} : l.symbol = .arrow ↔ l.kind = .arrow := by
  cases h : l.kind <;> simp [symbol, h]

theorem symbol_eq_openParen_iff {l : Lexeme} : l.symbol = .openParen ↔ l.kind = .openParen := by
  cases h : l.kind <;> simp [symbol, h]

theorem symbol_eq_closeParen_iff {l : Lexeme} : l.symbol = .closeParen ↔ l.kind = .closeParen := by
  cases h : l.kind <;> simp [symbol, h]

theorem symbol_eq_name_iff {l : Lexeme} {text : String} :
    l.symbol = .name text ↔ l.kind = .name ∧ l.text = text := by
  cases h : l.kind <;> simp [symbol, h]

/-- `Lexes cs ks`: the text `cs` consists of the symbols `ks` and of blanks. A name starts with a
letter and ends only where no more letter, digit or underscore follows. -/
inductive Lexes : List Char → List Symbol → Prop where
  | nil : Lexes [] []
  | blank : Token.isBlank c → Lexes cs ks → Lexes (c :: cs) ks
  | arrow : Lexes cs ks → Lexes ('-' :: '>' :: cs) (.arrow :: ks)
  | openParen : Lexes cs ks → Lexes ('(' :: cs) (.openParen :: ks)
  | closeParen : Lexes cs ks → Lexes (')' :: cs) (.closeParen :: ks)
  | name : c.isAlpha → (∀ d ∈ word, isNameChar d) → (∀ d ∈ rest.head?, ¬isNameChar d) →
      Lexes rest ks → Lexes (c :: (word ++ rest)) (.name (String.ofList (c :: word)) :: ks)

/-! ## What the first character decides -/

section

variable {c : Char} {cs word rest : List Char} {ks : List Symbol}

theorem lexes_nil_iff : Lexes [] ks ↔ ks = [] := by
  refine ⟨fun h => ?_, fun h => h ▸ .nil⟩
  cases h
  rfl

theorem not_isAlpha_of_isBlank (hc : Token.isBlank c) : ¬c.isAlpha := by
  simp only [Token.isBlank, Bool.or_eq_true, beq_iff_eq] at hc
  obtain ((rfl | rfl) | rfl) | rfl := hc <;> decide

theorem lexes_blank_iff (hc : Token.isBlank c) : Lexes (c :: cs) ks ↔ Lexes cs ks := by
  refine ⟨fun h => ?_, .blank hc⟩
  cases h with
  | blank _ h => exact h
  | arrow | openParen | closeParen => simp [Token.isBlank] at hc
  | name hletter => exact absurd hletter (not_isAlpha_of_isBlank hc)

theorem lexes_openParen_iff :
    Lexes ('(' :: cs) ks ↔ ∃ ks', Lexes cs ks' ∧ ks = .openParen :: ks' := by
  refine ⟨fun h => ?_, fun ⟨ks', h, hks⟩ => hks ▸ .openParen h⟩
  cases h with
  | blank hc => simp [Token.isBlank] at hc
  | openParen h => exact ⟨_, h, rfl⟩
  | name hletter => exact absurd hletter (by decide)

theorem lexes_closeParen_iff :
    Lexes (')' :: cs) ks ↔ ∃ ks', Lexes cs ks' ∧ ks = .closeParen :: ks' := by
  refine ⟨fun h => ?_, fun ⟨ks', h, hks⟩ => hks ▸ .closeParen h⟩
  cases h with
  | blank hc => simp [Token.isBlank] at hc
  | closeParen h => exact ⟨_, h, rfl⟩
  | name hletter => exact absurd hletter (by decide)

theorem lexes_minus_iff :
    Lexes ('-' :: cs) ks ↔ ∃ rest ks', cs = '>' :: rest ∧ Lexes rest ks' ∧ ks = .arrow :: ks' := by
  constructor
  · intro h
    cases h with
    | blank hc => simp [Token.isBlank] at hc
    | arrow h => exact ⟨_, _, rfl, h, rfl⟩
    | name hletter => exact absurd hletter (by decide)
  · rintro ⟨rest, ks', rfl, h, rfl⟩
    exact .arrow h

theorem takeWhile_append_of_head (hword : ∀ d ∈ word, isNameChar d)
    (hrest : ∀ d ∈ rest.head?, ¬isNameChar d) :
    (word ++ rest).takeWhile isNameChar = word ∧ (word ++ rest).dropWhile isNameChar = rest := by
  rw [List.takeWhile_append_of_pos hword, List.dropWhile_append_of_pos hword]
  cases rest with
  | nil => simp
  | cons c rest => simp [hrest c rfl]

theorem lexes_name_iff (hc : c.isAlpha) : Lexes (c :: cs) ks ↔
    ∃ ks', Lexes (cs.dropWhile isNameChar) ks' ∧
      ks = .name (String.ofList (c :: cs.takeWhile isNameChar)) :: ks' := by
  constructor
  · intro h
    cases h with
    | blank h => exact absurd hc (not_isAlpha_of_isBlank h)
    | arrow | openParen | closeParen => exact absurd hc (by decide)
    | name _ hword hrest h =>
      obtain ⟨htake, hdrop⟩ := takeWhile_append_of_head hword hrest
      exact ⟨_, hdrop.symm ▸ h, by rw [htake]⟩
  · rintro ⟨ks', h, rfl⟩
    have hword : ∀ d ∈ cs.takeWhile isNameChar, isNameChar d :=
      List.all_eq_true.mp List.all_takeWhile
    have hrest : ∀ d ∈ (cs.dropWhile isNameChar).head?, ¬isNameChar d := by
      intro d hd
      have h := List.head?_dropWhile_not isNameChar cs
      rw [hd] at h
      simpa using h
    have hname := Lexes.name hc hword hrest h
    rwa [List.takeWhile_append_dropWhile] at hname

/-- No lexeme starts with another character. -/
theorem not_lexes_cons (hblank : ¬Token.isBlank c) (hopen : c ≠ '(') (hclose : c ≠ ')')
    (hminus : c ≠ '-') (hletter : ¬c.isAlpha) : ¬Lexes (c :: cs) ks := by
  intro h
  cases h with
  | blank h => exact hblank h
  | arrow => exact hminus rfl
  | openParen => exact hopen rfl
  | closeParen => exact hclose rfl
  | name h => exact hletter h

end

/-! ## What a scan finds -/

namespace Scan

/-- What is left of a text gives the symbols `ks`, to a scan in this mode. -/
def Mode.Yields : Mode → List Char → List Symbol → Prop
  | .between, cs, ks => Lexes cs ks
  | .name _ text, cs, ks => ∃ ks', Lexes (cs.dropWhile isNameChar) ks' ∧
      ks = .name (String.ofList (text.reverse ++ cs.takeWhile isNameChar)) :: ks'
  | .minus _, cs, ks => ∃ rest ks', cs = '>' :: rest ∧ Lexes rest ks' ∧ ks = .arrow :: ks'
  | .failed _, _, _ => False

/-- All symbols of a text, of which `cs` is what is left, are `ks`. -/
def Yields (s : Scan) (cs : List Char) (ks : List Symbol) : Prop :=
  ∃ ks', s.mode.Yields cs ks' ∧ ks = s.lexemes.reverse.map symbol ++ ks'

variable {c : Char} {cs : List Char} {ks : List Symbol} {s : Scan} {lexemes : List Lexeme}
  {offset : Nat}

theorem finish_yields_iff : s.Yields [] ks ↔
    ∃ lexemes, s.finish = .ok lexemes ∧ lexemes.map symbol = ks := by
  obtain ⟨mode, lexemes, offset⟩ := s
  cases mode with
  | between => simp [Yields, Mode.Yields, finish, lexes_nil_iff, @eq_comm _ ks]
  | name start text =>
    simp [Yields, Mode.Yields, finish, lexes_nil_iff, nameLexeme, symbol, @eq_comm _ ks]
  | minus start => simp [Yields, Mode.Yields, finish]
  | failed e => simp [Yields, Mode.Yields, finish]

theorem stepBetween_yields_iff : (stepBetween lexemes offset c).Yields cs ks ↔
    Yields ⟨.between, lexemes, offset⟩ (c :: cs) ks := by
  unfold stepBetween
  split_ifs with hblank hopen hclose hminus hletter
  · simp [Yields, Mode.Yields, lexes_blank_iff hblank]
  · simp [Yields, Mode.Yields, hopen, lexes_openParen_iff, symbol]
  · simp [Yields, Mode.Yields, hclose, lexes_closeParen_iff, symbol]
  · simp [Yields, Mode.Yields, hminus, lexes_minus_iff]
  · simp [Yields, Mode.Yields, lexes_name_iff hletter]
  · simp [Yields, Mode.Yields, not_lexes_cons hblank hopen hclose hminus hletter]

/-- A step leaves the symbols of the whole text as they are. -/
theorem step_yields_iff : (step s c).Yields cs ks ↔ s.Yields (c :: cs) ks := by
  obtain ⟨mode, lexemes, offset⟩ := s
  cases mode with
  | between => exact stepBetween_yields_iff
  | name start text =>
    simp only [step]
    split_ifs with hc
    · simp [Yields, Mode.Yields, hc]
    · rw [stepBetween_yields_iff]
      simp [Yields, Mode.Yields, hc, nameLexeme, symbol]
  | minus start =>
    simp only [step]
    split_ifs with hc
    · simp [Yields, Mode.Yields, hc, symbol]
    · simp [Yields, Mode.Yields, hc]
  | failed e => exact Iff.rfl

theorem run_yields_iff : s.Yields cs ks ↔
    ∃ lexemes, (cs.foldl step s).finish = .ok lexemes ∧ lexemes.map symbol = ks := by
  induction cs generalizing s with
  | nil => exact finish_yields_iff
  | cons c cs ih => rw [← step_yields_iff, ih, List.foldl_cons]

end Scan

/-- A source has the symbols that a scan finds, and no others; it has none if the scan fails. -/
theorem lexes_iff {source : String} {ks : List Symbol} : Lexes source.toList ks ↔
    ∃ lexemes, scan source = .ok lexemes ∧ lexemes.map symbol = ks := by
  rw [scan, ← Scan.run_yields_iff]
  simp [Scan.Yields, Scan.Mode.Yields, Scan.start]

theorem Lexes.unique {cs : List Char} {ks ks' : List Symbol} (h : Lexes cs ks)
    (h' : Lexes cs ks') : ks = ks' := by
  rw [← String.toList_ofList (l := cs)] at h h'
  obtain ⟨lexemes, hscan, rfl⟩ := lexes_iff.mp h
  obtain ⟨lexemes', hscan', rfl⟩ := lexes_iff.mp h'
  cases hscan.symm.trans hscan'
  rfl

/-! ## Names -/

/-- The text is a name: a letter, and behind it letters, digits and underscores. -/
inductive IsName : List Char → Prop where
  | intro : c.isAlpha → (∀ d ∈ word, isNameChar d) → IsName (c :: word)

variable {c : Char} {cs word rest : List Char} {ks : List Symbol} {name : String}

theorem isNameChar_of_isAlpha (hc : c.isAlpha) : isNameChar c := by
  simp [isNameChar, Char.isAlphanum, hc]

theorem lexes_name (hword : IsName word) (hrest : ∀ d ∈ rest.head?, ¬isNameChar d)
    (h : Lexes rest ks) : Lexes (word ++ rest) (.name (String.ofList word) :: ks) := by
  cases hword with
  | intro hc hword => exact .name hc hword hrest h

theorem isName_of_lexes (h : Lexes cs ks) (hname : .name name ∈ ks) : IsName name.toList := by
  induction h with
  | nil => cases hname
  | blank _ _ ih => exact ih hname
  | arrow _ ih | openParen _ ih | closeParen _ ih =>
    exact ih ((List.mem_cons.mp hname).resolve_left nofun)
  | name hc hword _ _ ih =>
    rcases List.mem_cons.mp hname with hname | hname
    · cases hname
      rw [String.toList_ofList]
      exact .intro hc hword
    · exact ih hname

end Curried.Lexeme
