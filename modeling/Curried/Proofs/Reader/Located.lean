import Curried.Proofs.Reader.Descent
import Curried.Proofs.Reader.Tiling
import Curried.Reader.Signature

/-!
Where reading errors point. The part of the source that the span of an error takes out is what the
error talks about, whichever reader found it (`parse_error_located`). An error behind the scan is at
the end or blames one of the tokens or lexemes (`Reader.Blames`), and these are where their spans
say: tokens because they tile the source, lexemes because a scan keeps them there
(`Lexeme.Scan.Placed`).
-/

namespace Curried

open Text (bytes)

namespace ParseError

/-- Errors that reach up to the end of the source. -/
def Cause.AtEnd : Cause → Prop
  | .emptyInput | .unexpectedEnd _ | .unterminatedString => True
  | _ => False

/-- The slice of the source is what an error with this cause talks about. -/
def Cause.About (slice : String) : Cause → Prop
  | .emptyInput | .unexpectedEnd _ => slice = ""
  | .unclosedList => slice = "("
  | .unexpectedCloseParen => slice = ")"
  | .unterminatedString => slice.toList.head? = some '"'
  | .integerOutOfRange text | .trailingInput text | .unexpectedChar text
  | .unexpectedToken _ text | .invalidTypeVariable text => slice = text

/-- The error points at what it talks about. -/
structure Located (source : String) (e : ParseError) : Prop where
  slice : ∃ slice, e.span.Slices source slice ∧ e.cause.About slice
  stop : e.cause.AtEnd → e.span.stop = source.utf8ByteSize

/-- The error points at a string that follows an expression, and shows its text quoted. -/
def TrailingString (source : String) (e : ParseError) : Prop :=
  ∃ text slice, e.cause = .trailingInput (Text.quoted text) ∧ e.span.Slices source slice ∧
    Token.Spells slice.toList (.str text)

theorem Located.of_cuts {source : String} {e : ParseError} {part : List Char}
    (h : e.span.Cuts source.toList part) (hcause : e.cause.About (String.ofList part))
    (hend : ¬e.cause.AtEnd) : Located source e :=
  ⟨⟨_, h.slices, hcause⟩, fun h => absurd h hend⟩

theorem Located.of_point {source : String} {e : ParseError}
    (hspan : e.span = .point source.utf8ByteSize) (hcause : e.cause.About "") :
    Located source e := by
  refine ⟨⟨"", ?_, hcause⟩, fun _ => by rw [hspan]; rfl⟩
  have hcuts := Span.Cuts.last source.toList []
  rw [List.append_nil, Text.bytes_toList] at hcuts
  exact hspan ▸ hcuts.slices

end ParseError

/-! ## Expressions -/

namespace Reader

open Token (Spells)

/-- The error is about one of the tokens, and at its place. -/
def Blames (tokens : List Token) (err : ParseError) : Prop :=
  ∃ t ∈ tokens, err.span = t.span ∧ ¬err.cause.AtEnd ∧
    ∀ part, Spells part t.kind → err.cause.About (String.ofList part)

variable {tokens before : List Token} {token : Token} {err : ParseError} {part : List Char}

theorem Pending.mem {parens : List Token} (h : Pending tokens parens) :
    ∀ paren ∈ parens, paren ∈ tokens ∧ paren.kind = .openParen := by
  induction h with
  | nil => exact nofun
  | cons _ hparen _ ih =>
    refine List.forall_mem_cons.mpr ⟨⟨by simp, hparen⟩, fun p hp => ?_⟩
    obtain ⟨hmem, hkind⟩ := ih p hp
    exact ⟨List.mem_append_left _ hmem, hkind⟩

theorem Blames.of_mem {cause : ParseError.Cause} {k : Token.Kind} (h : token ∈ tokens)
    (hkind : token.kind = k) (hend : ¬cause.AtEnd)
    (habout : ∀ part, Spells part k → cause.About (String.ofList part)) :
    Blames tokens ⟨cause, token.span⟩ :=
  ⟨token, h, rfl, hend, hkind ▸ habout⟩

theorem Refused.blames (h : Refused tokens err) : Blames tokens err := by
  cases h with
  | closeParen hkind =>
    refine .of_mem List.mem_cons_self hkind not_false fun part hpart => ?_
    cases hpart
    rfl
  | outOfRange _ hkind =>
    refine .of_mem (List.mem_append_right _ List.mem_cons_self) hkind not_false ?_
    intro part hpart
    cases hpart
    rfl
  | unclosed h =>
    obtain ⟨hmem, hkind⟩ := h.mem _ List.mem_cons_self
    refine .of_mem hmem hkind not_false fun part hpart => ?_
    cases hpart
    rfl

theorem NotAll.blames (h : NotAll tokens err) : Blames tokens err := by
  induction h with
  | refused h => exact h.blames
  | later _ _ ih =>
    obtain ⟨t, ht, h⟩ := ih
    exact ⟨t, List.mem_append_right _ ht, h⟩

theorem Blames.located {source : String} (h : Blames tokens err)
    (hscan : Token.Tiling source.toList tokens) : err.Located source := by
  obtain ⟨t, ht, hspan, hend, habout⟩ := h
  obtain ⟨part, hcuts, hspells⟩ := (hscan.stands t ht).cuts
  exact .of_cuts (hspan ▸ hcuts) (habout part hspells) hend

theorem NotOne.located {source : String} (h : NotOne source.utf8ByteSize tokens err)
    (hscan : Token.Tiling source.toList tokens) :
    err.Located source ∨ err.TrailingString source := by
  cases h with
  | empty => exact .inl (.of_point rfl rfl)
  | refused h => exact .inl (h.blames.located hscan)
  | @trailing _ _ extra _ =>
    obtain ⟨part, hcuts, hspells⟩ :=
      (hscan.stands extra (List.mem_append_right _ List.mem_cons_self)).cuts
    generalize extra.kind = k at hspells ⊢
    cases hspells with
    | openParen | closeParen | atom => exact .inl (.of_cuts hcuts rfl not_false)
    | str hbody =>
      refine .inr ⟨_, _, rfl, hcuts.slices, ?_⟩
      rw [String.toList_ofList]
      exact .str hbody

end Reader

theorem Token.located_of_scan {source : String} {e : ParseError} (h : scan source = .error e) :
    e.Located source := by
  obtain ⟨before, rfl, hbefore⟩ := unterminated_of_scan h
  obtain ⟨after, hcs⟩ := hbefore.quote
  refine ⟨⟨String.ofList ('"' :: after), ?_, by simp [ParseError.Cause.About]⟩, fun _ => rfl⟩
  have hcuts := Span.Cuts.last before ('"' :: after)
  rw [← Text.bytes_append, List.append_cons, hcs, Text.bytes_toList] at hcuts
  exact hcuts.slices

theorem Expr.located_of_parse {source : String} {e : ParseError} (h : parse source = .error e) :
    e.Located source ∨ e.TrailingString source := by
  unfold parse at h
  split at h
  · next tokens hscan =>
    exact (Reader.readOne_eq_error_iff.mp h).located (Token.tiling_of_scan hscan)
  · next hscan =>
    cases h
    exact .inl (Token.located_of_scan hscan)

theorem Expr.located_of_parseAll {source : String} {e : ParseError}
    (h : parseAll source = .error e) : e.Located source := by
  unfold parseAll at h
  split at h
  · next tokens hscan =>
    exact (Reader.readAll_eq_error_iff.mp h).blames.located (Token.tiling_of_scan hscan)
  · next hscan =>
    cases h
    exact Token.located_of_scan hscan

/-! ## Signatures -/

namespace Lexeme

/-- The lexeme is the part of the text that its span takes out. -/
def Stands (l : Lexeme) (cs : List Char) : Prop := l.span.Cuts cs l.text.toList

namespace Scan

/-- `Placed cs s`: when the text `cs` is behind a scan, the lexemes that it has found are where
their spans say, and so is the one under way, or else the character that ended the scan. -/
inductive Mode.Placed : List Char → Mode → Prop where
  | between : Placed cs .between
  | name (cs word : List Char) : Placed (cs ++ word) (.name (bytes cs) word.reverse)
  | minus : Placed (cs ++ ['-']) (.minus (bytes cs))
  | failed : Placed (cs ++ c :: more) (.failed (unexpected c (bytes cs)))

structure Placed (cs : List Char) (s : Scan) : Prop where
  offset : s.offset = bytes cs
  lexemes : ∀ l ∈ s.lexemes, l.Stands cs
  mode : s.mode.Placed cs

end Scan

variable {cs word : List Char} {c : Char} {l : Lexeme} {lexemes : List Lexeme} {s : Scan}

theorem Stands.append (h : l.Stands cs) (more : List Char) : l.Stands (cs ++ more) :=
  Span.Cuts.append h more

/-- The lexeme at the end of a text. -/
theorem stands_last (kind : Kind) (cs word : List Char) :
    Stands ⟨kind, String.ofList word, ⟨bytes cs, bytes (cs ++ word)⟩⟩ (cs ++ word) := by
  rw [Stands, String.toList_ofList, Text.bytes_append]
  exact Span.Cuts.last cs word

namespace Scan

theorem stepBetween_placed (h : ∀ l ∈ lexemes, l.Stands cs) :
    Placed (cs ++ [c]) (stepBetween lexemes (bytes cs) c) := by
  have hnext : bytes cs + c.utf8Size = bytes (cs ++ [c]) := by simp
  have hmore : ∀ l ∈ lexemes, l.Stands (cs ++ [c]) := fun l hl => (h l hl).append [c]
  unfold stepBetween
  rw [hnext]
  split_ifs with hblank hopen hclose hminus hletter
  · exact ⟨rfl, hmore, .between⟩
  · subst hopen
    exact ⟨rfl, List.forall_mem_cons.mpr ⟨stands_last .openParen cs ['('], hmore⟩, .between⟩
  · subst hclose
    exact ⟨rfl, List.forall_mem_cons.mpr ⟨stands_last .closeParen cs [')'], hmore⟩, .between⟩
  · subst hminus
    exact ⟨rfl, hmore, .minus⟩
  · exact ⟨rfl, hmore, .name cs [c]⟩
  · exact ⟨rfl, hmore, .failed⟩

/-- One more character. -/
theorem step_placed (h : Placed cs s) : Placed (cs ++ [c]) (step s c) := by
  obtain ⟨mode, lexemes, offset⟩ := s
  obtain ⟨rfl, hlexemes, hmode⟩ := h
  have hnext : bytes cs + c.utf8Size = bytes (cs ++ [c]) := by simp
  have hmore : ∀ l ∈ lexemes, l.Stands (cs ++ [c]) := fun l hl => (hlexemes l hl).append [c]
  cases hmode with
  | between => exact stepBetween_placed hlexemes
  | name cs word =>
    simp only [step]
    split_ifs with hc
    · refine ⟨hnext, hmore, ?_⟩
      simpa using Mode.Placed.name cs (word ++ [c])
    · have hname := stands_last .name cs word
      refine stepBetween_placed (List.forall_mem_cons.mpr ⟨?_, hlexemes⟩)
      rwa [nameLexeme, List.reverse_reverse]
  | @minus cs =>
    simp only [step, hnext]
    split_ifs with hc
    · subst hc
      have harrow := stands_last .arrow cs ['-', '>']
      rw [List.append_cons] at harrow
      exact ⟨rfl, List.forall_mem_cons.mpr ⟨harrow, hmore⟩, .between⟩
    · refine ⟨rfl, hmore, ?_⟩
      rw [List.append_assoc]
      exact .failed
  | failed =>
    refine ⟨hnext, hmore, ?_⟩
    rw [List.append_assoc]
    exact .failed

theorem run_placed (cs : List Char) : Placed cs (cs.foldl step start) := by
  induction cs using List.reverseRecOn with
  | nil => exact ⟨rfl, nofun, .between⟩
  | append_singleton cs c ih =>
    rw [List.foldl_append]
    exact step_placed ih

end Scan

theorem stands_of_scan {source : String} (h : scan source = .ok lexemes) :
    ∀ l ∈ lexemes, l.Stands source.toList := by
  have hplaced := Scan.run_placed source.toList
  rw [scan] at h
  generalize source.toList.foldl Scan.step .start = s at hplaced h
  generalize source.toList = cs at hplaced ⊢
  obtain ⟨mode, found, offset⟩ := s
  obtain ⟨rfl, hfound, hmode⟩ := hplaced
  cases hmode with
  | between =>
    cases h
    exact fun l hl => hfound l (List.mem_reverse.mp hl)
  | name cs word =>
    cases h
    have hname := stands_last .name cs word
    have hall : ∀ l ∈ Scan.nameLexeme (bytes cs) (bytes (cs ++ word)) word.reverse :: found,
        l.Stands (cs ++ word) := by
      rw [Scan.nameLexeme, List.reverse_reverse]
      exact List.forall_mem_cons.mpr ⟨hname, hfound⟩
    exact fun l hl => hall l (List.mem_reverse.mp hl)
  | minus | failed => cases h

theorem located_unexpected {source : String} {before more : List Char}
    (h : source.toList = before ++ c :: more) :
    (Scan.unexpected c (bytes before)).Located source := by
  have hcuts : (Scan.unexpected c (bytes before)).span.Cuts source.toList [c] :=
    ⟨before, more, h, by rw [Text.bytes_cons, Text.bytes_nil]; rfl⟩
  exact .of_cuts hcuts String.singleton_eq_ofList.symm not_false

theorem located_of_scan {source : String} {e : ParseError} (h : scan source = .error e) :
    e.Located source := by
  obtain ⟨-, -, hmode⟩ := Scan.run_placed source.toList
  rw [scan, Scan.finish] at h
  generalize hcs : source.toList = cs at hmode h
  generalize (cs.foldl Scan.step .start).mode = mode at hmode h
  cases hmode with
  | between | name => cases h
  | minus | failed =>
    cases h
    exact located_unexpected hcs

end Lexeme

namespace Reader

/-- The error is about the lexeme and at its place. -/
def BlamesLexeme (l : Lexeme) (err : ParseError) : Prop :=
  err.span = l.span ∧ ¬err.cause.AtEnd ∧ err.cause.About l.text

variable {lexemes : List Lexeme} {l : Lexeme} {s : Signature} {err : ParseError}

theorem blames_of_typeOfName (h : typeOfName l.text l.span = .error err) : BlamesLexeme l err := by
  unfold typeOfName at h
  split_ifs at h
  split at h
  · cases h
  · cases h
    exact ⟨rfl, not_false, rfl⟩

namespace Signature

theorem blames_of_step (h : step s l = .error err) : BlamesLexeme l err := by
  unfold step at h
  split at h
  · split at h
    · cases h
    · next hname =>
      cases h
      exact blames_of_typeOfName hname
  all_goals cases h
  · exact ⟨rfl, not_false, rfl⟩
  · exact ⟨rfl, not_false, rfl⟩
  · exact ⟨rfl, not_false, rfl⟩

theorem blames_of_foldlM_step (h : lexemes.foldlM step s = .error err) :
    ∃ l ∈ lexemes, BlamesLexeme l err := by
  induction lexemes generalizing s with
  | nil => cases h
  | cons l lexemes ih =>
    rw [List.foldlM_cons] at h
    rcases bind_eq_error.mp h with h | ⟨s', -, h⟩
    · exact ⟨l, List.mem_cons_self, blames_of_step h⟩
    · obtain ⟨l', hl', hblames⟩ := ih h
      exact ⟨l', List.mem_cons_of_mem l hl', hblames⟩

end Signature

theorem readType_error {length : Nat} (h : readType length lexemes = .error err) :
    err.span = .point length ∧ err.cause.About "" ∨ ∃ l ∈ lexemes, BlamesLexeme l err := by
  unfold readType at h
  split at h
  · cases h
    exact .inl ⟨rfl, rfl⟩
  · rcases bind_eq_error.mp h with h | ⟨s, -, h⟩
    · exact .inr (Signature.blames_of_foldlM_step h)
    · unfold Signature.finish at h
      split at h
      all_goals cases h
      all_goals exact .inl ⟨rfl, rfl⟩

end Reader

theorem Ty.located_of_parse {source : String} {e : ParseError} (h : parse source = .error e) :
    e.Located source := by
  rcases bind_eq_error.mp h with hscan | ⟨lexemes, hscan, h⟩
  · exact Lexeme.located_of_scan hscan
  · rcases Reader.readType_error h with ⟨hspan, hcause⟩ | ⟨l, hl, hspan, hend, hcause⟩
    · exact .of_point hspan hcause
    · have hcuts : l.span.Cuts source.toList l.text.toList := Lexeme.stands_of_scan hscan l hl
      refine .of_cuts (hspan ▸ hcuts) ?_ hend
      rwa [String.ofList_toList]

/-- Every error of a reader points into the source, at what it talks about. The only text that is
not the slice itself is that of a string behind an expression, which the error shows quoted. -/
theorem parse_error_located (source : String) :
    (∀ e, Expr.parse source = .error e → e.Located source ∨ e.TrailingString source) ∧
    (∀ e, Expr.parseAll source = .error e → e.Located source) ∧
    (∀ e, Ty.parse source = .error e → e.Located source) :=
  ⟨fun _ => Expr.located_of_parse, fun _ => Expr.located_of_parseAll, fun _ => Ty.located_of_parse⟩

/-- Offsets count bytes, of which each umlaut has two. -/
theorem parse_error_located_umlauts :
    (Expr.parse "ä )ö" = .error ⟨.trailingInput ")", ⟨3, 4⟩⟩ ∧
      (ParseError.Located "ä )ö" ⟨.trailingInput ")", ⟨3, 4⟩⟩ ∨
        ParseError.TrailingString "ä )ö" ⟨.trailingInput ")", ⟨3, 4⟩⟩)) ∧
    (Expr.parseAll "ä (ö" = .error ⟨.unclosedList, ⟨3, 4⟩⟩ ∧
      ParseError.Located "ä (ö" ⟨.unclosedList, ⟨3, 4⟩⟩) ∧
    (Ty.parse "a -> ä" = .error ⟨.unexpectedChar "ä", ⟨5, 7⟩⟩ ∧
      ParseError.Located "a -> ä" ⟨.unexpectedChar "ä", ⟨5, 7⟩⟩) := by
  have hone : Expr.parse "ä )ö" = .error ⟨.trailingInput ")", ⟨3, 4⟩⟩ := by rfl
  have hall : Expr.parseAll "ä (ö" = .error ⟨.unclosedList, ⟨3, 4⟩⟩ := by rfl
  have hty : Ty.parse "a -> ä" = .error ⟨.unexpectedChar "ä", ⟨5, 7⟩⟩ := by rfl
  exact ⟨⟨hone, (parse_error_located _).1 _ hone⟩, ⟨hall, (parse_error_located _).2.1 _ hall⟩,
    ⟨hty, (parse_error_located _).2.2 _ hty⟩⟩

end Curried
