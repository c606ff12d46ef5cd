import Mathlib.Data.List.Basic
import Curried.Reader.Token

/-!
What the texts of expressions are made of. `Lexes` says which tokens a text holds, where an atom
goes on as long as it can, and `scan_iff` that scanning finds exactly these. It rests on what a scan
that is under way still asks of the text in front of it (`Scan.Yields`), which no step changes.
-/

namespace Curried.Token

/-- `Unescapes body text`: between quotes, `body` stands for `text`. A backslash in front of any
other character than the four that it escapes stands for itself; a line does not end behind it. -/
inductive Unescapes : List Char → List Char → Prop where
  | nil : Unescapes [] []
  | plain : c ≠ '"' → c ≠ '\\' → Unescapes body text → Unescapes (c :: body) (c :: text)
  | quote : Unescapes body text → Unescapes ('\\' :: '"' :: body) ('"' :: text)
  | backslash : Unescapes body text → Unescapes ('\\' :: '\\' :: body) ('\\' :: text)
  | newline : Unescapes body text → Unescapes ('\\' :: 'n' :: body) ('\n' :: text)
  | tab : Unescapes body text → Unescapes ('\\' :: 't' :: body) ('\t' :: text)
  | other : c ∉ ['"', '\\', 'n', 't', '\n'] → Unescapes body text →
      Unescapes ('\\' :: c :: body) ('\\' :: c :: text)

/-- `Lexes cs ks`: the text `cs` consists of the tokens `ks` and of blanks. An atom ends only where
a character that delimits it follows, or nothing. -/
inductive Lexes : List Char → List Kind → Prop where
  | nil : Lexes [] []
  | blank : isBlank c → Lexes cs ks → Lexes (c :: cs) ks
  | openParen : Lexes cs ks → Lexes ('(' :: cs) (.openParen :: ks)
  | closeParen : Lexes cs ks → Lexes (')' :: cs) (.closeParen :: ks)
  | str : Unescapes body text → Lexes rest ks →
      Lexes ('"' :: (body ++ '"' :: rest)) (.str (String.ofList text) :: ks)
  | atom : (∀ d ∈ c :: word, ¬isDelimiter d) → (∀ d ∈ rest.head?, isDelimiter d) → Lexes rest ks →
      Lexes (c :: (word ++ rest)) (.atom (String.ofList (c :: word)) :: ks)

/-! ## What the first character decides -/

section

variable {c : Char} {cs body text : List Char} {ks : List Kind}

theorem lexes_nil_iff : Lexes [] ks ↔ ks = [] := by
  refine ⟨fun h => ?_, fun h => h ▸ .nil⟩
  cases h
  rfl

theorem lexes_blank_iff (hc : isBlank c) : Lexes (c :: cs) ks ↔ Lexes cs ks := by
  refine ⟨fun h => ?_, .blank hc⟩
  cases h with
  | blank _ h => exact h
  | openParen | closeParen | str => simp [isBlank] at hc
  | atom hword => exact absurd (hword c List.mem_cons_self) (by simp [isDelimiter, hc])

theorem lexes_openParen_iff :
    Lexes ('(' :: cs) ks ↔ ∃ ks', Lexes cs ks' ∧ ks = .openParen :: ks' := by
  refine ⟨fun h => ?_, fun ⟨ks', h, hks⟩ => hks ▸ .openParen h⟩
  cases h with
  | blank hc => simp [isBlank] at hc
  | openParen h => exact ⟨_, h, rfl⟩
  | atom hword => exact absurd (hword '(' List.mem_cons_self) (by simp [isDelimiter])

theorem lexes_closeParen_iff :
    Lexes (')' :: cs) ks ↔ ∃ ks', Lexes cs ks' ∧ ks = .closeParen :: ks' := by
  refine ⟨fun h => ?_, fun ⟨ks', h, hks⟩ => hks ▸ .closeParen h⟩
  cases h with
  | blank hc => simp [isBlank] at hc
  | closeParen h => exact ⟨_, h, rfl⟩
  | atom hword => exact absurd (hword ')' List.mem_cons_self) (by simp [isDelimiter])

theorem lexes_quote_iff : Lexes ('"' :: cs) ks ↔ ∃ body rest text ks',
    cs = body ++ '"' :: rest ∧ Unescapes body text ∧ Lexes rest ks' ∧
      ks = .str (String.ofList text) :: ks' := by
  constructor
  · intro h
    cases h with
    | blank hc => simp [isBlank] at hc
    | str hbody h => exact ⟨_, _, _, _, rfl, hbody, h, rfl⟩
    | atom hword => exact absurd (hword '"' List.mem_cons_self) (by simp [isDelimiter])
  · rintro ⟨body, rest, text, ks', rfl, hbody, h, rfl⟩
    exact .str hbody h

theorem lexes_atom_iff (hc : ¬isDelimiter c) : Lexes (c :: cs) ks ↔ ∃ word rest ks',
    cs = word ++ rest ∧ (∀ c ∈ word, ¬isDelimiter c) ∧ (∀ c ∈ rest.head?, isDelimiter c) ∧
      Lexes rest ks' ∧ ks = .atom (String.ofList (c :: word)) :: ks' := by
  constructor
  · intro h
    cases h with
    | blank h => exact absurd h fun h => hc (by simp [isDelimiter, h])
    | openParen | closeParen | str => simp [isDelimiter] at hc
    | atom hword hrest h =>
      exact ⟨_, _, _, rfl, fun c hmem => hword c (List.mem_cons_of_mem _ hmem), hrest, h, rfl⟩
  · rintro ⟨word, rest, ks', rfl, hword, hrest, h, rfl⟩
    exact .atom (by simpa using And.intro hc hword) hrest h

theorem Unescapes.head_ne (h : Unescapes (c :: body) text) : c ≠ '"' := by
  cases h with
  | plain hquote => exact hquote
  | quote | backslash | newline | tab | other => decide

theorem unescapes_plain_iff (hquote : c ≠ '"') (hslash : c ≠ '\\') :
    Unescapes (c :: body) text ↔ ∃ more, Unescapes body more ∧ text = c :: more := by
  refine ⟨fun h => ?_, fun ⟨more, h, htext⟩ => htext ▸ .plain hquote hslash h⟩
  cases h with
  | plain _ _ h => exact ⟨_, h, rfl⟩
  | quote | backslash | newline | tab | other => exact absurd rfl hslash

theorem unescapes_escape_iff : Unescapes ('\\' :: c :: body) text ↔
    c ≠ '\n' ∧ ∃ more, Unescapes body more ∧
      text = (Scan.resolveEscape c).reverse ++ more := by
  constructor
  · intro h
    cases h with
    | plain _ hslash => exact absurd rfl hslash
    | quote h | backslash h | newline h | tab h => exact ⟨by decide, _, h, rfl⟩
    | other hc h =>
      simp only [List.mem_cons, List.not_mem_nil, or_false, not_or] at hc
      exact ⟨hc.2.2.2.2, _, h, by simp [Scan.resolveEscape, hc]⟩
  · rintro ⟨hline, more, h, rfl⟩
    unfold Scan.resolveEscape
    split_ifs with hquote hslash hn ht
    · exact hquote ▸ .quote h
    · exact hslash ▸ .backslash h
    · exact hn ▸ .newline h
    · exact ht ▸ .tab h
    · exact .other (by simp [*]) h

end

/-! ## What a scan finds -/

namespace Scan

/-- What is left of a text gives the tokens `ks`, to a scan in this mode. -/
def Mode.Yields : Mode → List Char → List Kind → Prop
  | .between, cs, ks => Lexes cs ks
  | .atom _ text, cs, ks => ∃ word rest ks', cs = word ++ rest ∧ (∀ c ∈ word, ¬isDelimiter c) ∧
      (∀ c ∈ rest.head?, isDelimiter c) ∧ Lexes rest ks' ∧
      ks = .atom (String.ofList (text.reverse ++ word)) :: ks'
  | .quoted _ text, cs, ks => ∃ body rest more ks', cs = body ++ '"' :: rest ∧
      Unescapes body more ∧ Lexes rest ks' ∧ ks = .str (String.ofList (text.reverse ++ more)) :: ks'
  | .escaped _ text, cs, ks => ∃ body rest more ks', cs = body ++ '"' :: rest ∧
      Unescapes ('\\' :: body) more ∧ Lexes rest ks' ∧
      ks = .str (String.ofList (text.reverse ++ more)) :: ks'
  | .broken _, _, _ => False

/-- All tokens of a text, of which `cs` is what is left, are `ks`. -/
def Yields (s : Scan) (cs : List Char) (ks : List Kind) : Prop :=
  ∃ ks', s.mode.Yields cs ks' ∧ ks = s.tokens.reverse.map Token.kind ++ ks'

variable {c : Char} {cs text : List Char} {ks : List Kind} {s : Scan} {tokens : List Token}
  {start offset : Nat}

@[simp] theorem Mode.between_yields_iff : Mode.between.Yields cs ks ↔ Lexes cs ks := Iff.rfl

@[simp] theorem Mode.not_broken_yields : ¬(Mode.broken start).Yields cs ks := False.elim

/-- Where an atom cannot go on, it ends. -/
theorem Mode.atom_yields_iff_of_delimiter (hc : ∀ c ∈ cs.head?, isDelimiter c) :
    (Mode.atom start text).Yields cs ks ↔
      ∃ ks', Lexes cs ks' ∧ ks = .atom (String.ofList text.reverse) :: ks' := by
  constructor
  · rintro ⟨word, rest, ks', rfl, hword, -, h, rfl⟩
    cases word with
    | nil => exact ⟨ks', h, by simp⟩
    | cons c word => exact absurd (hc c rfl) (hword c List.mem_cons_self)
  · rintro ⟨ks', h, rfl⟩
    exact ⟨[], cs, ks', rfl, by simp, hc, h, by simp⟩

theorem Mode.atom_yields_cons_iff (hc : ¬isDelimiter c) :
    (Mode.atom start text).Yields (c :: cs) ks ↔ (Mode.atom start (c :: text)).Yields cs ks := by
  constructor
  · rintro ⟨word, rest, ks', hcs, hword, hrest, h, rfl⟩
    cases word with
    | nil => exact absurd (hrest c (congrArg List.head? hcs).symm) hc
    | cons c' word =>
      obtain ⟨rfl, rfl⟩ := List.cons.inj hcs
      exact ⟨word, rest, ks', rfl, fun c h => hword c (List.mem_cons_of_mem _ h), hrest, h,
        by simp⟩
  · rintro ⟨word, rest, ks', rfl, hword, hrest, h, rfl⟩
    exact ⟨c :: word, rest, ks', rfl, by simpa using And.intro hc hword, hrest, h, by simp⟩

theorem Mode.quoted_yields_quote_iff : (Mode.quoted start text).Yields ('"' :: cs) ks ↔
    ∃ ks', Lexes cs ks' ∧ ks = .str (String.ofList text.reverse) :: ks' := by
  constructor
  · rintro ⟨body, rest, more, ks', hcs, hbody, h, rfl⟩
    cases body with
    | nil =>
      cases hbody
      exact ⟨ks', (List.cons.inj hcs).2 ▸ h, by simp⟩
    | cons c body => exact absurd (List.cons.inj hcs).1.symm hbody.head_ne
  · rintro ⟨ks', h, rfl⟩
    exact ⟨[], cs, [], ks', rfl, .nil, h, by simp⟩

theorem Mode.quoted_yields_backslash_iff :
    (Mode.quoted start text).Yields ('\\' :: cs) ks ↔ (Mode.escaped start text).Yields cs ks := by
  constructor
  · rintro ⟨body, rest, more, ks', hcs, hbody, h, rfl⟩
    cases body with
    | nil => exact absurd (List.cons.inj hcs).1 (by decide)
    | cons c body =>
      obtain ⟨rfl, rfl⟩ := List.cons.inj hcs
      exact ⟨body, rest, more, ks', rfl, hbody, h, rfl⟩
  · rintro ⟨body, rest, more, ks', rfl, hbody, h, rfl⟩
    exact ⟨'\\' :: body, rest, more, ks', rfl, hbody, h, rfl⟩

theorem Mode.quoted_yields_cons_iff (hquote : c ≠ '"') (hslash : c ≠ '\\') :
    (Mode.quoted start text).Yields (c :: cs) ks ↔
      (Mode.quoted start (c :: text)).Yields cs ks := by
  constructor
  · rintro ⟨body, rest, more, ks', hcs, hbody, h, rfl⟩
    cases body with
    | nil => exact absurd (List.cons.inj hcs).1 hquote
    | cons c body =>
      obtain ⟨rfl, rfl⟩ := List.cons.inj hcs
      obtain ⟨more, hmore, rfl⟩ := (unescapes_plain_iff hquote hslash).mp hbody
      exact ⟨body, rest, more, ks', rfl, hmore, h, by simp⟩
  · rintro ⟨body, rest, more, ks', rfl, hbody, h, rfl⟩
    exact ⟨c :: body, rest, c :: more, ks', rfl, .plain hquote hslash hbody, h, by simp⟩

theorem Mode.escaped_yields_cons_iff : (Mode.escaped start text).Yields (c :: cs) ks ↔
    c ≠ '\n' ∧ (Mode.quoted start (resolveEscape c ++ text)).Yields cs ks := by
  constructor
  · rintro ⟨body, rest, more, ks', hcs, hbody, h, rfl⟩
    cases body with
    | nil => cases hbody with | plain _ hslash => exact absurd rfl hslash
    | cons c body =>
      obtain ⟨rfl, rfl⟩ := List.cons.inj hcs
      obtain ⟨hline, more, hmore, rfl⟩ := unescapes_escape_iff.mp hbody
      exact ⟨hline, body, rest, more, ks', rfl, hmore, h, by simp⟩
  · rintro ⟨hline, body, rest, more, ks', rfl, hbody, h, rfl⟩
    exact ⟨c :: body, rest, _, ks', rfl, unescapes_escape_iff.mpr ⟨hline, more, hbody, rfl⟩, h,
      by simp⟩

theorem Mode.not_quoted_yields_nil : ¬(Mode.quoted start text).Yields [] ks := by
  rintro ⟨body, rest, more, ks', hcs, -⟩
  simp at hcs

theorem Mode.not_escaped_yields_nil : ¬(Mode.escaped start text).Yields [] ks := by
  rintro ⟨body, rest, more, ks', hcs, -⟩
  simp at hcs

theorem finish_yields_iff : s.Yields [] ks ↔
    ∃ tokens, s.finish = .ok tokens ∧ tokens.map Token.kind = ks := by
  obtain ⟨mode, tokens, offset⟩ := s
  cases mode with
  | between => simp [Yields, finish, lexes_nil_iff, @eq_comm _ ks]
  | atom start text =>
    have hend : ∀ c ∈ ([] : List Char).head?, isDelimiter c := by simp
    simp [Yields, Mode.atom_yields_iff_of_delimiter hend, finish, lexes_nil_iff, atomToken,
      @eq_comm _ ks]
  | quoted start text => simp [Yields, finish, Mode.not_quoted_yields_nil]
  | escaped start text => simp [Yields, finish, Mode.not_escaped_yields_nil]
  | broken start => simp [Yields, finish]

theorem stepBetween_yields_iff :
    (stepBetween tokens offset c).Yields cs ks ↔
      Yields ⟨.between, tokens, offset⟩ (c :: cs) ks := by
  unfold stepBetween
  split_ifs with hblank hopen hclose hquote
  · simp [Yields, lexes_blank_iff hblank]
  · simp [Yields, hopen, lexes_openParen_iff]
  · simp [Yields, hclose, lexes_closeParen_iff]
  · simp [Yields, Mode.Yields, hquote, lexes_quote_iff]
  · have hc : ¬isDelimiter c := by simp [isDelimiter, hblank, hopen, hclose, hquote]
    simp [Yields, Mode.Yields, lexes_atom_iff hc]

/-- A step leaves the tokens of the whole text as they are. -/
theorem step_yields_iff : (step s c).Yields cs ks ↔ s.Yields (c :: cs) ks := by
  obtain ⟨mode, tokens, offset⟩ := s
  cases mode with
  | between => exact stepBetween_yields_iff
  | atom start text =>
    simp only [step]
    split_ifs with hc
    · have hend : ∀ c' ∈ (c :: cs).head?, isDelimiter c' := by simpa using hc
      rw [stepBetween_yields_iff]
      simp [Yields, Mode.atom_yields_iff_of_delimiter hend, atomToken]
    · simp [Yields, Mode.atom_yields_cons_iff hc]
  | quoted start text =>
    simp only [step]
    split_ifs with hquote hslash
    · simp [Yields, hquote, Mode.quoted_yields_quote_iff]
    · simp [Yields, hslash, Mode.quoted_yields_backslash_iff]
    · simp [Yields, Mode.quoted_yields_cons_iff hquote hslash]
  | escaped start text =>
    simp only [step]
    split_ifs with hline
    · simp [Yields, Mode.escaped_yields_cons_iff, hline]
    · simp [Yields, Mode.escaped_yields_cons_iff, hline]
  | broken start => exact Iff.rfl

theorem run_yields_iff : s.Yields cs ks ↔
    ∃ tokens, (cs.foldl step s).finish = .ok tokens ∧ tokens.map Token.kind = ks := by
  induction cs generalizing s with
  | nil => exact finish_yields_iff
  | cons c cs ih => rw [← step_yields_iff, ih, List.foldl_cons]

end Scan

theorem lexes_iff_finish {cs : List Char} {ks : List Kind} : Lexes cs ks ↔
    ∃ tokens, (cs.foldl Scan.step .start).finish = .ok tokens ∧ tokens.map Token.kind = ks := by
  rw [← Scan.run_yields_iff]
  simp [Scan.Yields, Scan.start]

/-- A source has the tokens that a scan finds, and no others; it has none if the scan fails. -/
theorem lexes_iff {source : String} {ks : List Kind} : Lexes source.toList ks ↔
    ∃ tokens, scan source = .ok tokens ∧ tokens.map Token.kind = ks :=
  lexes_iff_finish

theorem Lexes.unique {cs : List Char} {ks ks' : List Kind} (h : Lexes cs ks) (h' : Lexes cs ks') :
    ks = ks' := by
  obtain ⟨tokens, hfinish, rfl⟩ := lexes_iff_finish.mp h
  obtain ⟨tokens', hfinish', rfl⟩ := lexes_iff_finish.mp h'
  cases hfinish.symm.trans hfinish'
  rfl

end Curried.Token
