import Mathlib.Data.List.Forall2
import Curried.Expr.Events
import Curried.Proofs.Reader.Descent

/-!
The integers of a source. A reader takes an atom for an integer exactly if it is a numeral, whatever
lists are open around it, and a numeral out of range is an error (`step_numeral`, `step_outOfRange`,
`step_not_numeral`). Tokens and the walk through the expressions that they are go side by side
(`Visits`), so the integers of what is read are the numerals of the source (`Expr.integers_exact`).
-/

namespace Curried.Reader

/-- `Visits k event`: with a token of this kind, a walk through what is read meets the event. -/
inductive Visits : Token.Kind → Event → Prop where
  | openParen : Visits .openParen .enter
  | closeParen : Visits .closeParen .leave
  | str (text : String) : Visits (.str text) (.leaf (.str text))
  | atom : Denotes text l → Visits (.atom text) (.leaf l)

/-- The text writes an integer that is out of the range of the words. -/
def Exceeds (text : String) : Prop :=
  ∃ n, Numeral text.toList n ∧ (n < -2 ^ 63 ∨ 2 ^ 63 - 1 < n)

/-- A walk meets an integer exactly where the token is a numeral of it, and no numeral among the
tokens is out of range. -/
structure SameIntegers (tokens : List Token) (events : List Event) : Prop where
  int_iff : List.Forall₂ (fun t event => ∀ w : Word, event = .leaf (.int w) ↔
    ∃ text, t.kind = .atom text ∧ Numeral text.toList w.toInt) tokens events
  inRange : ∀ t ∈ tokens, ∀ text, t.kind = .atom text → ¬Exceeds text

variable {cs : List Char} {n : Int} {w : Word} {text : String} {l : Literal} {span : Span}
  {k : Token.Kind} {event : Event} {events : List Event} {tokens : List Token}
  {stack : List OpenList} {length : Nat}

/-! ## Numerals -/

/-- Numerals are the digits, of which there is one at least, with or without a minus sign. -/
theorem exists_numeral_iff : (∃ n, Numeral cs n) ↔
    ∃ digits, digits ≠ [] ∧ (∀ c ∈ digits, c.isDigit) ∧ (cs = digits ∨ cs = '-' :: digits) := by
  constructor
  · rintro ⟨n, h⟩
    cases h with
    | nonneg h => exact ⟨_, h.ne_nil, h.isDigit, .inl rfl⟩
    | neg h => exact ⟨_, h.ne_nil, h.isDigit, .inr rfl⟩
  · rintro ⟨digits, hne, hdigit, rfl | rfl⟩
    · exact ⟨_, .nonneg ⟨hne, hdigit, rfl⟩⟩
    · exact ⟨_, .neg ⟨hne, hdigit, rfl⟩⟩

/-- What an atom denotes is an integer exactly if the atom is a numeral. -/
theorem Denotes.int_iff (h : Denotes text l) : l = .int w ↔ Numeral text.toList w.toInt := by
  constructor
  · rintro rfl
    cases h with
    | int h => exact h
  · intro hnumeral
    obtain ⟨w', hw', rfl⟩ := (denotes_iff_of_numeral hnumeral).mp h
    rw [Int64.toInt_inj.mp (Word.ofInt?_eq_some_iff.mp hw')]

/-! ## One atom -/

theorem step_numeral (h : Numeral text.toList n) (hle : -2 ^ 63 ≤ n) (hlt : n ≤ 2 ^ 63 - 1) :
    ∃ w : Word, w.toInt = n ∧ step stack ⟨.atom text, span⟩ = .ok (addTo stack (.int w)) := by
  obtain ⟨w, rfl⟩ := Word.exists_toInt_eq hle (Int.lt_of_le_sub_one hlt)
  exact ⟨w, rfl, step_atom rfl (.int h)⟩

theorem step_outOfRange (h : Numeral text.toList n) (hrange : n < -2 ^ 63 ∨ 2 ^ 63 - 1 < n) :
    step stack ⟨.atom text, span⟩ = .error ⟨.integerOutOfRange text, span⟩ := by
  have hnone := Word.forall_toInt_ne_iff.mpr hrange
  simp only [step, literal_eq_error_iff.mpr ⟨⟨n, h, hnone⟩, rfl⟩]

/-- An atom that is no numeral denotes something, and that is no integer. -/
theorem step_not_numeral (h : ∀ n, ¬Numeral text.toList n) :
    ∃ l, step stack ⟨.atom text, span⟩ = .ok (addTo stack (.leaf l)) ∧ ∀ w, l ≠ .int w := by
  cases hl : literal text span with
  | error err =>
    obtain ⟨⟨n, hn, -⟩, -⟩ := literal_eq_error_iff.mp hl
    exact absurd hn (h n)
  | ok l =>
    have hdenotes := literal_eq_ok_iff.mp hl
    exact ⟨l, step_atom rfl hdenotes, fun w hw => h _ (hdenotes.int_iff.mp hw)⟩

/-! ## Whole sources -/

/-- A walk meets an integer exactly at a token that is a numeral of it. -/
theorem Visits.int_iff (h : Visits k event) :
    event = .leaf (.int w) ↔ ∃ text, k = .atom text ∧ Numeral text.toList w.toInt := by
  cases h with
  | openParen | closeParen | str => simp
  | atom hl => simpa using hl.int_iff

theorem Visits.not_exceeds (h : Visits (.atom text) event) : ¬Exceeds text := by
  rintro ⟨n, hn, hrange⟩
  cases h with
  | atom hl =>
    obtain ⟨w, hw, -⟩ := (denotes_iff_of_numeral hn).mp hl
    exact Word.forall_toInt_ne_iff.mpr hrange w (Word.ofInt?_eq_some_iff.mp hw)

theorem sameIntegers_of_visits (h : List.Forall₂ Visits (tokens.map Token.kind) events) :
    SameIntegers tokens events := by
  have hboth : List.Forall₂ (fun t event => (∀ text, t.kind = .atom text → ¬Exceeds text) ∧
      ∀ w : Word, event = .leaf (.int w) ↔
        ∃ text, t.kind = .atom text ∧ Numeral text.toList w.toInt) tokens events :=
    (List.forall₂_map_left_iff.mp h).imp fun t event ht =>
      ⟨fun text hkind => (hkind ▸ ht).not_exceeds, fun w => ht.int_iff⟩
  obtain ⟨hrange, hint⟩ := (List.forall₂_and_left tokens events).mp hboth
  exact ⟨hint, hrange⟩

mutual

/-- The tokens of an expression lead to the events of the walk through it, one by one. -/
theorem Derives.visits {ks : List Token.Kind} {e : Expr} (h : Derives ks e) :
    List.Forall₂ Visits ks e.events := by
  cases h with
  | str text => simpa [Expr.str] using Visits.str text
  | atom hl => simpa using Visits.atom hl
  | list hes =>
    rw [Expr.events_list, List.cons_append]
    exact .cons .openParen (List.rel_append hes.visits (.cons .closeParen .nil))

theorem DerivesAll.visits {ks : List Token.Kind} {es : List Expr} (h : DerivesAll ks es) :
    List.Forall₂ Visits ks (es.flatMap Expr.events) := by
  cases h with
  | nil => exact .nil
  | cons he hes =>
    rw [List.flatMap_cons]
    exact List.rel_append he.visits hes.visits

end

/-- An integer that is out of range is an error about a token that is a numeral of one. -/
theorem Refused.outOfRange_mem (h : Refused tokens ⟨.integerOutOfRange text, span⟩) :
    ⟨.atom text, span⟩ ∈ tokens ∧ Exceeds text := by
  generalize herr : ParseError.mk _ _ = err at h
  cases h with
  | closeParen | unclosed => cases herr
  | outOfRange _ hkind hnumeral hrange =>
    cases herr
    refine ⟨?_, _, hnumeral, Word.forall_toInt_ne_iff.mp hrange⟩
    rw [← hkind]
    exact List.mem_append_right _ List.mem_cons_self

theorem NotOne.outOfRange_mem (h : NotOne length tokens ⟨.integerOutOfRange text, span⟩) :
    ⟨.atom text, span⟩ ∈ tokens ∧ Exceeds text := by
  cases h with
  | refused h => exact h.outOfRange_mem

theorem NotAll.outOfRange_mem (h : NotAll tokens ⟨.integerOutOfRange text, span⟩) :
    ⟨.atom text, span⟩ ∈ tokens ∧ Exceeds text := by
  generalize herr : ParseError.mk _ _ = err at h
  induction h with
  | refused h => exact (herr ▸ h).outOfRange_mem
  | later _ _ ih =>
    obtain ⟨hmem, hrange⟩ := ih herr
    exact ⟨List.mem_append_right _ hmem, hrange⟩

end Curried.Reader

namespace Curried

open Reader (Numeral Exceeds SameIntegers)

/-- Integers are read exactly. The digits, with or without a minus sign, are the numerals. Whatever
lists are open, a numeral in the range of the words is the integer that it writes, one out of range
is an error with its text and its place, and any other atom is neither. So in what is read, integers
are exactly where the source has numerals, and no other token is out of range. -/
theorem Expr.integers_exact :
    (∀ cs, (∃ n, Numeral cs n) ↔ ∃ digits, digits ≠ [] ∧ (∀ c ∈ digits, c.isDigit) ∧
      (cs = digits ∨ cs = '-' :: digits)) ∧
    (∀ stack text span n, Numeral text.toList n →
      (-2 ^ 63 ≤ n → n ≤ 2 ^ 63 - 1 → ∃ w : Word, w.toInt = n ∧
        Reader.step stack ⟨.atom text, span⟩ = .ok (Reader.addTo stack (.int w))) ∧
      (n < -2 ^ 63 ∨ 2 ^ 63 - 1 < n →
        Reader.step stack ⟨.atom text, span⟩ = .error ⟨.integerOutOfRange text, span⟩)) ∧
    (∀ stack text span, (∀ n, ¬Numeral text.toList n) →
      ∃ l, Reader.step stack ⟨.atom text, span⟩ = .ok (Reader.addTo stack (.leaf l)) ∧
        ∀ w, l ≠ .int w) ∧
    ∀ source tokens, Token.scan source = .ok tokens →
      (∀ e, parse source = .ok e → SameIntegers tokens e.events) ∧
      (∀ es, parseAll source = .ok es → SameIntegers tokens (es.flatMap events)) ∧
      ∀ text span, parse source = .error ⟨.integerOutOfRange text, span⟩ ∨
        parseAll source = .error ⟨.integerOutOfRange text, span⟩ →
          ⟨.atom text, span⟩ ∈ tokens ∧ Exceeds text := by
  refine ⟨fun cs => Reader.exists_numeral_iff, fun stack text span n hn => ⟨fun hle hlt =>
    Reader.step_numeral hn hle hlt, Reader.step_outOfRange hn⟩, fun stack text span =>
    Reader.step_not_numeral, fun source tokens hscan => ?_⟩
  obtain ⟨-, hparse, hparseAll, -⟩ := parse_iff_derives hscan
  refine ⟨fun e he => Reader.sameIntegers_of_visits ((hparse e).mp he).visits, fun es hes =>
    Reader.sameIntegers_of_visits ((hparseAll es).mp hes).visits, fun text span herr => ?_⟩
  rw [parse, parseAll, hscan] at herr
  rcases herr with herr | herr
  · exact (Reader.readOne_eq_error_iff.mp herr).outOfRange_mem
  · exact (Reader.readAll_eq_error_iff.mp herr).outOfRange_mem

/-- Zeros in front and a minus sign in front of a zero change nothing, and the integer behind the
greatest word is out of range. A plus sign or a second minus sign makes no numeral. -/
theorem Expr.integers_exact_zeros :
    (∃ w : Word, w.toInt = -2 ^ 63 ∧ Reader.step [] ⟨.atom "-0009223372036854775808", ⟨0, 23⟩⟩ =
      .ok (.complete (.int w))) ∧
    Reader.step [] ⟨.atom "9223372036854775808", ⟨0, 19⟩⟩ =
      .error ⟨.integerOutOfRange "9223372036854775808", ⟨0, 19⟩⟩ ∧
    (∃ l, Reader.step [] ⟨.atom "--5", ⟨0, 3⟩⟩ = .ok (.complete (.leaf l)) ∧ ∀ w, l ≠ .int w) ∧
    (parse "(+5 -0)" = .ok (.call "+5" [.int 0]) ∧
      SameIntegers [⟨.openParen, ⟨0, 1⟩⟩, ⟨.atom "+5", ⟨1, 3⟩⟩, ⟨.atom "-0", ⟨4, 6⟩⟩,
        ⟨.closeParen, ⟨6, 7⟩⟩] (Expr.call "+5" [.int 0]).events) ∧
    parse "-9223372036854775809" = .error ⟨.integerOutOfRange "-9223372036854775809", ⟨0, 20⟩⟩ ∧
    Exceeds "-9223372036854775809" := by
  obtain ⟨-, hnumeral, hother, hsource⟩ := integers_exact
  have hmin : Numeral "-0009223372036854775808".toList (-2 ^ 63) :=
    Reader.integer?_eq_some_iff.mp (by decide)
  have hmax : Numeral "9223372036854775808".toList (2 ^ 63) :=
    Reader.integer?_eq_some_iff.mp (by decide)
  have hminus : ∀ n, ¬Numeral "--5".toList n := Reader.integer?_eq_none_iff.mp (by decide)
  have hparse : parse "(+5 -0)" = .ok (.call "+5" [.int 0]) := by rfl
  have herr : parse "-9223372036854775809" =
    .error ⟨.integerOutOfRange "-9223372036854775809", ⟨0, 20⟩⟩ := by rfl
  exact ⟨(hnumeral _ _ _ _ hmin).1 (by decide) (by decide),
    (hnumeral _ _ _ _ hmax).2 (.inr (by decide)), hother _ _ _ hminus,
    ⟨hparse, (hsource _ _ rfl).1 _ hparse⟩, herr, ((hsource _ _ rfl).2.2 _ _ (.inl herr)).2⟩

end Curried
