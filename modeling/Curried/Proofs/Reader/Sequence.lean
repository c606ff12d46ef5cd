import Curried.Proofs.Reader.Places
import Curried.Proofs.Text.Span

/-!
Sources one behind the other. What stands in front of a blank and is scanned leaves nothing under
way (`Token.Scan.run_blanks`), and expressions that are complete leave no list open, so what follows
is read as if it stood alone: only the places that its tokens and its errors have are as many bytes
further on as the text in front of it is long (`Token.scan_append`, `Expr.parseAll_append`).
-/

namespace Curried

open Text (bytes)

/-- The error in a source that has `n` more bytes in front. -/
def ParseError.shift (n : Nat) (e : ParseError) : ParseError := { e with span := e.span.shift n }

namespace Token

def shift (n : Nat) (t : Token) : Token := { t with span := t.span.shift n }

namespace Scan

def Mode.shift (n : Nat) : Mode → Mode
  | .between => .between
  | .atom start text => .atom (start + n) text
  | .quoted start text => .quoted (start + n) text
  | .escaped start text => .escaped (start + n) text
  | .broken start => .broken (start + n)

/-- The scan `s`, but with `n` bytes in front of it and with the tokens `before` found in them, the
latest first. -/
def behind (n : Nat) (before : List Token) (s : Scan) : Scan :=
  ⟨s.mode.shift n, s.tokens.map (Token.shift n) ++ before, s.offset + n⟩

variable {n offset : Nat} {c : Char} {cs : List Char} {s : Scan} {tokens before : List Token}

/-! ## A scan behind another one -/

theorem stepBetween_behind :
    stepBetween (tokens.map (Token.shift n) ++ before) (offset + n) c =
      (stepBetween tokens offset c).behind n before := by
  have hnext : offset + n + c.utf8Size = offset + c.utf8Size + n := Nat.add_right_comm ..
  unfold stepBetween
  rw [hnext]
  split_ifs <;> rfl

theorem step_behind : step (s.behind n before) c = (step s c).behind n before := by
  obtain ⟨mode, tokens, offset⟩ := s
  have hnext : offset + n + c.utf8Size = offset + c.utf8Size + n := Nat.add_right_comm ..
  cases mode with
  | between => exact stepBetween_behind
  | atom start text =>
    simp only [behind, Mode.shift, step, hnext]
    split_ifs
    -- the atom is complete, so it is one of the tokens that move on
    · exact @stepBetween_behind n offset c (atomToken start offset text :: tokens) before
    · rfl
  | quoted | escaped =>
    simp only [behind, Mode.shift, step, hnext]
    split_ifs <;> rfl
  | broken => simp only [behind, Mode.shift, step, hnext]

theorem run_behind (cs : List Char) :
    cs.foldl step (s.behind n before) = (cs.foldl step s).behind n before :=
  List.foldl_hom (behind n before) fun _ _ => step_behind

theorem finish_behind : (s.behind n before).finish =
    (s.finish.map (before.reverse ++ ·.map (Token.shift n))).mapError (ParseError.shift n) := by
  obtain ⟨mode, tokens, offset⟩ := s
  cases mode with
  | between => simp [behind, Mode.shift, finish, Except.map, Except.mapError]
  | atom => simp [behind, Mode.shift, finish, Except.map, Except.mapError, atomToken, Token.shift,
      Span.shift]
  | quoted | escaped | broken => rfl

/-! ## Blanks -/

theorem step_offset : (step s c).offset = s.offset + c.utf8Size := by
  obtain ⟨mode, tokens, offset⟩ := s
  cases mode with
  | between | atom | quoted | escaped =>
    simp only [step, stepBetween]
    split_ifs <;> rfl
  | broken => rfl

theorem run_offset (cs : List Char) : (cs.foldl step s).offset = s.offset + bytes cs := by
  induction cs generalizing s with
  | nil => rfl
  | cons c cs ih => rw [List.foldl_cons, ih, step_offset, Text.bytes_cons, Nat.add_assoc]

/-- Where a scan can end, a blank ends the token under way, if there is one. -/
theorem step_blank (h : s.finish = .ok tokens) (hc : isBlank c) :
    step s c = ⟨.between, tokens.reverse, s.offset + c.utf8Size⟩ := by
  obtain ⟨mode, found, offset⟩ := s
  cases mode with
  | between =>
    cases h
    simp [step, stepBetween, hc]
  | atom =>
    cases h
    simp [step, stepBetween, isDelimiter, hc]
  | quoted | escaped | broken => cases h

/-- So behind blanks it goes on as at its start. -/
theorem run_blanks (h : s.finish = .ok tokens) (hne : cs ≠ []) (hblank : ∀ c ∈ cs, isBlank c) :
    cs.foldl step s = ⟨.between, tokens.reverse, s.offset + bytes cs⟩ := by
  induction cs generalizing s with
  | nil => exact absurd rfl hne
  | cons c cs ih =>
    obtain ⟨hc, hcs⟩ := List.forall_mem_cons.mp hblank
    rw [List.foldl_cons, step_blank h hc, Text.bytes_cons, ← Nat.add_assoc]
    cases cs with
    | nil => rfl
    | cons d cs => exact ih (by simp [finish]) (List.cons_ne_nil _ _) hcs

end Scan

variable {s₁ s₂ w : String} {tokens : List Token}

/-- Behind blanks, a source has the tokens and the error that it has alone. -/
theorem scan_append (h : scan s₁ = .ok tokens) (hne : w ≠ "") (hblank : ∀ c ∈ w.toList, isBlank c) :
    scan (s₁ ++ w ++ s₂) =
      ((scan s₂).map (tokens ++ ·.map (shift (s₁ ++ w).utf8ByteSize))).mapError
        (ParseError.shift (s₁ ++ w).utf8ByteSize) := by
  have hne : w.toList ≠ [] := by simpa using hne
  have hoffset : (s₁.toList.foldl Scan.step .start).offset + bytes w.toList =
      (s₁ ++ w).utf8ByteSize := by
    rw [Scan.run_offset, Text.bytes_toList, Text.bytes_toList, String.utf8ByteSize_append,
      Scan.start, Nat.zero_add]
  have hseam : (s₁ ++ w).toList.foldl Scan.step .start =
      Scan.start.behind (s₁ ++ w).utf8ByteSize tokens.reverse := by
    rw [String.toList_append, List.foldl_append, Scan.run_blanks h hne hblank, hoffset]
    simp [Scan.behind, Scan.start, Scan.Mode.shift]
  rw [scan, String.toList_append, List.foldl_append, hseam, Scan.run_behind, Scan.finish_behind,
    List.reverse_reverse]
  rfl

end Token

namespace Reader

variable {n : Nat} {tokens before : List Token} {stack : List OpenList}
  {xs seen earlier : List Expr}

/-! ## Expressions behind other ones -/

/-- Expressions that were read before come before those that are read. -/
theorem readAll_seen : readAll tokens stack (seen ++ earlier) =
    (readAll tokens stack seen).map (earlier.reverse ++ ·) := by
  induction tokens generalizing stack seen with
  | nil =>
    cases stack with
    | nil => exact congrArg Except.ok List.reverse_append
    | cons => rfl
  | cons token rest ih =>
    rw [readAll, readAll]
    cases step stack token with
    | error => rfl
    | ok progress =>
      cases progress with
      | within stack => exact ih
      | complete e => exact @ih [] (e :: seen)

theorem readAll_append (h : readAll before [] [] = .ok xs) :
    readAll (before ++ tokens.map (Token.shift n)) [] [] =
      ((readAll tokens [] []).map (xs ++ ·)).mapError (ParseError.shift n) := by
  have hseen : readAll tokens [] ([] ++ xs.reverse) = (readAll tokens [] []).map (xs ++ ·) := by
    rw [readAll_seen, List.reverse_reverse]
  calc readAll (before ++ tokens.map (Token.shift n)) [] []
    _ = readAll (tokens.map (Token.shift n)) [] (xs.reverse ++ []) :=
      (readAll_eq_ok_iff.mp h).readAll rfl
    _ = (readAll tokens [] ([] ++ xs.reverse)).mapError (ParseError.shift n) := by
      rw [List.append_nil, List.nil_append]
      exact @readAll_mapSpan (Span.shift n) tokens [] xs.reverse
    _ = ((readAll tokens [] []).map (xs ++ ·)).mapError (ParseError.shift n) := by rw [hseen]

end Reader

namespace Expr

variable {s₁ s₂ w : String} {xs : List Expr}

theorem parseAll_behind (hne : w ≠ "") (hblank : ∀ c ∈ w.toList, Token.isBlank c)
    (h : parseAll s₁ = .ok xs) : parseAll (s₁ ++ w ++ s₂) =
      ((parseAll s₂).map (xs ++ ·)).mapError (ParseError.shift (s₁ ++ w).utf8ByteSize) := by
  rw [parseAll] at h
  split at h
  · next tokens hscan =>
    rw [parseAll, Token.scan_append hscan hne hblank, parseAll]
    cases Token.scan s₂ with
    | error => rfl
    | ok => exact Reader.readAll_append h
  · cases h

/-- A source behind blanks and behind expressions that are complete is read as it is alone: its
expressions follow, or its error is as far behind as the source is. -/
theorem parseAll_append (hne : w ≠ "") (hblank : ∀ c ∈ w.toList, Token.isBlank c)
    (h : parseAll s₁ = .ok xs) :
    (∀ ys, parseAll s₂ = .ok ys → parseAll (s₁ ++ w ++ s₂) = .ok (xs ++ ys)) ∧
    (∀ e, parseAll s₂ = .error e →
      parseAll (s₁ ++ w ++ s₂) = .error (e.shift (s₁ ++ w).utf8ByteSize)) := by
  rw [parseAll_behind hne hblank h]
  exact ⟨fun ys hys => by rw [hys]; rfl, fun e he => by rw [he]; rfl⟩

/-- An umlaut and a blank are three bytes, so the parenthesis of `(1` and the quote in front of `b`
are that much further on. -/
theorem parseAll_append_umlaut :
    parseAll "ä" = .ok [.atom "ä"] ∧ ("ä" ++ " ").utf8ByteSize = 3 ∧
    parseAll ("ä" ++ " " ++ "1 ()") = .ok ([.atom "ä"] ++ [.int 1, .unit]) ∧
    parseAll ("ä" ++ " " ++ "(1") =
      .error (ParseError.shift ("ä" ++ " ").utf8ByteSize ⟨.unclosedList, ⟨0, 1⟩⟩) ∧
    parseAll ("ä" ++ " " ++ "\"b") =
      .error (ParseError.shift ("ä" ++ " ").utf8ByteSize ⟨.unterminatedString, ⟨0, 2⟩⟩) := by
  have hfirst : parseAll "ä" = .ok [.atom "ä"] := by rfl
  have hlist : parseAll "1 ()" = .ok [.int 1, .unit] := by rfl
  have hopen : parseAll "(1" = .error ⟨.unclosedList, ⟨0, 1⟩⟩ := by rfl
  have hquote : parseAll "\"b" = .error ⟨.unterminatedString, ⟨0, 2⟩⟩ := by rfl
  have hblank : ∀ c ∈ " ".toList, Token.isBlank c := List.forall_mem_singleton.mpr rfl
  exact ⟨hfirst, by rfl, (parseAll_append (by decide) hblank hfirst).1 _ hlist,
    (parseAll_append (by decide) hblank hfirst).2 _ hopen,
    (parseAll_append (by decide) hblank hfirst).2 _ hquote⟩

end Expr

end Curried
