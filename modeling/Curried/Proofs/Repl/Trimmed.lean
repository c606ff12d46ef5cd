import Curried.Proofs.Reader.Ends
import Curried.Proofs.Repl.Lines
import Curried.Proofs.Session

/-!
The loop takes white space off both ends of a line before it hands the line to the session, which
skips blanks, and only these. If nothing but blanks is taken off, the answer is what the session
says about the whole line. Any other white space belongs to an atom of the whole line or to a string
that does not end, so the two are not the same then, unless they are refused for the same cause
(`Repl.eval_trimmed`).
-/

namespace Curried

open Text (Framed isSpace)

/-! ## White space that is no blank -/

namespace Token

variable {c : Char} {before core after front back : List Char}

theorem isSpace_of_isBlank (hc : isBlank c) : isSpace c := by
  simp only [isBlank, Bool.or_eq_true, beq_iff_eq] at hc
  obtain ((rfl | rfl) | rfl) | rfl := hc <;> rfl

theorem ne_quote_of_isSpace (hc : isSpace c) : c ≠ '"' := by
  rintro rfl
  cases hc

theorem not_isDelimiter_of_isSpace (hc : isSpace c) (hblank : ¬isBlank c) : ¬isDelimiter c := by
  intro h
  simp only [isDelimiter, Bool.or_eq_true, beq_iff_eq] at h
  obtain ((h | rfl) | rfl) | rfl := h
  · exact hblank h
  all_goals cases hc

/-- White space that is no blank is left next to a text when the blanks are taken off. -/
theorem exists_white (h : Framed isSpace before core after)
    (hwhite : ∃ c ∈ before ++ after, ¬isBlank c) :
    ∃ before' front back after', before = before' ++ front ∧ after = back ++ after' ∧
      Framed isBlank before' (front ++ (core ++ back)) after' ∧
      (∀ c ∈ front ++ back, isSpace c) ∧ front ++ back ≠ [] := by
  obtain ⟨before', front, back, after', rfl, rfl, hframed⟩ :=
    h.widen (q := isBlank) fun c => isSpace_of_isBlank
  refine ⟨before', front, back, after', rfl, rfl, hframed, fun c hc => ?_, fun hnil => ?_⟩
  · rcases List.mem_append.mp hc with hc | hc
    · exact h.before c (List.mem_append_right _ hc)
    · exact h.after c (List.mem_append_left _ hc)
  · obtain ⟨rfl, rfl⟩ := List.append_eq_nil_iff.mp hnil
    obtain ⟨c, hc, hblank⟩ := hwhite
    rw [List.append_nil, List.nil_append] at hc
    exact hblank ((List.mem_append.mp hc).elim (hframed.before c) (hframed.after c))

/-- What is left there is part of an atom. -/
theorem ends_not_isDelimiter (h : Framed isBlank before (front ++ (core ++ back)) after)
    (hspaces : ∀ c ∈ front ++ back, isSpace c) (hne : front ++ back ≠ []) :
    (∀ c ∈ (front ++ (core ++ back)).head?, ¬isDelimiter c) ∨
      ∀ c ∈ (front ++ (core ++ back)).getLast?, ¬isDelimiter c := by
  by_cases hfront : front = []
  · have hback : back ≠ [] := fun hnil => hne (by rw [hfront, hnil]; rfl)
    refine .inr fun c hc => not_isDelimiter_of_isSpace (hspaces c ?_) (h.last c hc)
    rw [← List.append_assoc, List.getLast?_append_of_ne_nil _ hback] at hc
    exact List.mem_append_right _ (List.mem_of_mem_getLast? hc)
  · refine .inl fun c hc => not_isDelimiter_of_isSpace (hspaces c ?_) (h.head c hc)
    rw [List.head?_append_of_ne_nil _ hfront] at hc
    exact List.mem_append_left _ (List.mem_of_mem_head? hc)

end Token

namespace Reader

variable {c : Char} {word : List Char} {n : Int} {text : String} {l : Literal}

theorem not_isSpace_of_isDigit (hc : c.isDigit) : ¬isSpace c := by
  simp only [Char.isDigit, Bool.and_eq_true, decide_eq_true_eq, UInt32.le_iff_toNat_le, ge_iff_le]
    at hc
  have hlow : 48 ≤ c.toNat := hc.1
  have hhigh : c.toNat ≤ 57 := hc.2
  simp only [isSpace, Bool.or_eq_true, Bool.and_eq_true, decide_eq_true_eq, beq_iff_eq]
  omega

theorem Numeral.not_isSpace (h : Numeral word n) : ∀ c ∈ word, ¬isSpace c := by
  cases h with
  | nonneg h => exact fun c hc => not_isSpace_of_isDigit (h.isDigit c hc)
  | neg h =>
    exact List.forall_mem_cons.mpr
      ⟨by decide, fun c hc => not_isSpace_of_isDigit (h.isDigit c hc)⟩

/-- An atom with white space in it stands for itself. -/
theorem Denotes.eq_atom (h : Denotes text l) (hspace : ∃ c ∈ text.toList, isSpace c) :
    l = .atom text := by
  obtain ⟨c, hmem, hc⟩ := hspace
  cases h with
  | atom => rfl
  | int h => exact absurd hc (h.not_isSpace c hmem)
  | true =>
    have hword : ∀ c ∈ "true".toList, ¬isSpace c := by simp [isSpace]
    exact absurd hc (hword c hmem)
  | false =>
    have hword : ∀ c ∈ "false".toList, ¬isSpace c := by simp [isSpace]
    exact absurd hc (hword c hmem)

end Reader

namespace Expr

variable {before core after word : List Char} {e : Expr}

theorem denotes_of_isWord (h : Token.IsWord word)
    (hparse : parse (String.ofList word) = .ok e) :
    ∃ l, e = leaf l ∧ Reader.Denotes (String.ofList word) l := by
  obtain ⟨ks, hlexes, hks⟩ := parse_eq_ok_iff.mp hparse
  have hword : Token.Lexes (word ++ []) [.atom (String.ofList word)] :=
    Token.lexes_word h nofun .nil
  rw [List.append_nil] at hword
  rw [String.toList_ofList] at hlexes
  obtain rfl := hlexes.unique hword
  cases hks with
  | atom hl => exact ⟨_, rfl, hl⟩

/-- If there is white space next to a text that is no blank, and the two are an expression together,
they are one atom. -/
theorem eq_atom_of_white (h : Framed isSpace before core after)
    (hwhite : ∃ c ∈ before ++ after, ¬Token.isBlank c)
    (hparse : parse (String.ofList (before ++ (core ++ after))) = .ok e) :
    ∃ word, core <:+: word ∧ core ≠ word ∧ Token.IsWord word ∧ e = atom (String.ofList word) := by
  obtain ⟨before', front, back, after', rfl, rfl, hframed, hspaces, hne⟩ :=
    Token.exists_white h hwhite
  have hends := Token.ends_not_isDelimiter hframed hspaces hne
  obtain ⟨c, hc⟩ := List.exists_mem_of_ne_nil _ hne
  generalize hword : front ++ (core ++ back) = word at hframed hends
  have hline : before' ++ front ++ (core ++ (back ++ after')) = before' ++ (word ++ after') := by
    simp [← hword]
  obtain ⟨ks, hlexes, hks⟩ := parse_eq_ok_iff.mp hparse
  rw [String.toList_ofList, hline,
    Token.lexes_between_blanks_iff hframed.before hframed.after] at hlexes
  obtain ⟨hisWord, rfl⟩ := Token.isWord_of_derives hlexes hks hframed.ne_nil hframed.head
    hframed.last hends
  refine ⟨word, ⟨front, back, by rw [← hword, List.append_assoc]⟩, fun heq => ?_, hisWord, ?_⟩
  · have hlength := congrArg List.length (hword.trans heq.symm)
    have := List.length_pos_iff.mpr hne
    simp only [List.length_append] at hlength this
    omega
  · cases hks with
    | atom hl =>
      have hmem : c ∈ (String.ofList word).toList := by
        rw [String.toList_ofList, ← hword]
        simp only [List.mem_append] at hc ⊢
        tauto
      exact congrArg leaf (hl.eq_atom ⟨c, hmem, hspaces c hc⟩)

end Expr

namespace Repl

variable {s : Session} {line source : String}

theorem classify_trimmed (h : Text.trim line.toList = source.toList) (hne : source ≠ "")
    (hcolon : source.toList.head? ≠ some ':') : classify line = .eval source := by
  cases hsource : source.toList with
  | nil => exact absurd (String.toList_eq_nil_iff.mp hsource) hne
  | cons c cs =>
    rw [hsource] at h hcolon
    rw [classify_eval h fun hc => hcolon (congrArg some hc), ← hsource, String.ofList_toList]

/-- The trimmed line stands between the characters that trimming takes off. -/
theorem exists_framed_trimmed (h : Text.trim line.toList = source.toList) (hne : source ≠ "") :
    ∃ before after, Framed isSpace before source.toList after ∧
      line = String.ofList (before ++ (source.toList ++ after)) ∧
      Text.trimmedOff line.toList = before ++ after := by
  rcases Text.exists_framed isSpace line.toList with hspace | ⟨before, core, after, hframed, hline⟩
  · rw [Text.trim_of_isSpace hspace] at h
    exact absurd (String.toList_eq_nil_iff.mp h.symm) hne
  · obtain rfl : core = source.toList := by rw [← hframed.trim, ← hline, h]
    exact ⟨before, after, hframed, by rw [← hline, String.ofList_toList],
      by rw [hline, hframed.trimmedOff]⟩

theorem lexes_trimmed_iff {before core after : List Char} (h : Framed isSpace before core after)
    (hcore : (∀ c ∈ before ++ after, Token.isBlank c) ∨ ¬∃ ks, Token.Lexes core ks)
    (ks : List Token.Kind) :
    Token.Lexes core ks ↔ Token.Lexes (before ++ (core ++ after)) ks := by
  rcases hcore with hblank | hnone
  · obtain ⟨hbefore, hafter⟩ := List.forall_mem_append.mp hblank
    exact (Token.lexes_between_blanks_iff hbefore hafter).symm
  · refine iff_of_false (fun h => hnone ⟨ks, h⟩) fun hline => hnone ?_
    exact hline.of_unquoted (fun c hc => Token.ne_quote_of_isSpace (h.before c hc))
      fun c hc => Token.ne_quote_of_isSpace (h.after c hc)

theorem eval_ne_of_white {before core after : List Char} {e : Expr}
    (h : Framed isSpace before core after) (hwhite : ∃ c ∈ before ++ after, ¬Token.isBlank c)
    (hparse : Expr.parse (String.ofList core) = .ok e) :
    (s.eval (String.ofList core)).mapError Failure.unplaced ≠
      (s.eval (String.ofList (before ++ (core ++ after)))).mapError Failure.unplaced := by
  intro heq
  cases hline : Expr.parse (String.ofList (before ++ (core ++ after))) with
  | error err => exact Session.eval_unplaced_ne hparse hline heq
  | ok e' =>
    obtain ⟨word, hpart, hne, hword, rfl⟩ := Expr.eq_atom_of_white h hwhite hline
    have hcore : Token.IsWord core :=
      ⟨h.ne_nil, fun c hc => hword.not_delimiter c (hpart.subset hc)⟩
    obtain ⟨l, rfl, hl⟩ := Expr.denotes_of_isWord hcore hparse
    rw [Session.eval_literal hparse, Session.eval_literal hline] at heq
    have hvalue : l.value = .str (String.ofList word) :=
      congrArg Outcome.value (Except.ok.inj heq)
    generalize hname : String.ofList core = name at hl
    cases hl with
    | true | false | int => cases hvalue
    | atom => exact hne (String.ofList_injective (hname.trans (Value.str.inj hvalue)))

/-- Neither blanks nor, inside a string, any white space at the ends makes a difference. -/
theorem parse_trimmed_congr {before core after : List Char} (h : Framed isSpace before core after)
    (hcore : (∀ c ∈ before ++ after, Token.isBlank c) ∨ ¬∃ ks, Token.Lexes core ks) :
    (Expr.parse (String.ofList core)).mapError ParseError.unplaced =
      (Expr.parse (String.ofList (before ++ (core ++ after)))).mapError ParseError.unplaced := by
  refine Expr.parse_unplaced_congr fun ks => ?_
  rw [String.toList_ofList, String.toList_ofList, lexes_trimmed_iff h hcore]

/-- A line that is no command is answered with what the session says about it without the white
space at its ends. Places of reading errors aside, this is what the session says about the whole
line exactly if only blanks are taken off or if there is the same reading error in both, as where
the line ends inside a string. -/
theorem eval_trimmed (s : Session) (line source : String)
    (h : Text.trim line.toList = source.toList) (hne : source ≠ "")
    (hcolon : source.toList.head? ≠ some ':') :
    answer s (classify line) = some (report (Outcome.display <$> s.eval source)) ∧
    ((s.eval source).mapError Failure.unplaced = (s.eval line).mapError Failure.unplaced ↔
      (∀ c ∈ Text.trimmedOff line.toList, Token.isBlank c) ∨ Expr.RefusedAlike source line) ∧
    (∀ err, Token.scan source = .error err → Expr.RefusedAlike source line) := by
  have hanswer : answer s (classify line) = some (report (Outcome.display <$> s.eval source)) := by
    rw [classify_trimmed h hne hcolon]
    rfl
  obtain ⟨before, after, hframed, rfl, hoff⟩ := exists_framed_trimmed h hne
  rw [hoff]
  generalize hcore : source.toList = core at hframed hanswer
  obtain rfl : source = String.ofList core := by rw [← hcore, String.ofList_toList]
  refine ⟨hanswer, ⟨fun heq => ?_, ?_⟩, fun err hscan => ?_⟩
  · refine or_iff_not_imp_left.mpr fun hwhite => ?_
    simp only [not_forall, exists_prop] at hwhite
    cases hparse : Expr.parse (String.ofList core) with
    | ok e => exact absurd heq (eval_ne_of_white hframed hwhite hparse)
    | error err => exact Session.refusedAlike_of_eval hparse heq
  · rintro (hblank | hrefused)
    · exact Session.eval_unplaced_congr (parse_trimmed_congr hframed (.inl hblank))
    · exact Session.eval_unplaced_congr (Expr.refusedAlike_iff.mp hrefused).2
  · have hnone : ¬∃ ks, Token.Lexes core ks := by
      rintro ⟨ks, hlexes⟩
      rw [← hcore] at hlexes
      obtain ⟨tokens, hscan', -⟩ := Token.lexes_iff.mp hlexes
      cases hscan.symm.trans hscan'
    have hrefused : Expr.parse (String.ofList core) = .error err := by rw [Expr.parse, hscan]
    exact Expr.refusedAlike_iff.mpr ⟨⟨err, hrefused⟩, parse_trimmed_congr hframed (.inr hnone)⟩

/-- A tabulator is a blank to both, and inside a string a no-break space is as good as none. In
front of a one it is part of an atom. -/
theorem eval_trimmed_tabulator :
    answer (.standard {}) (classify "\t(f 1\r") =
      some (report (Outcome.display <$> (Session.standard {}).eval "(f 1")) ∧
    ((Session.standard {}).eval "(f 1").mapError Failure.unplaced =
      ((Session.standard {}).eval "\t(f 1\r").mapError Failure.unplaced ∧
    ((Session.standard {}).eval "(f \"a").mapError Failure.unplaced =
      ((Session.standard {}).eval "(f \"a\u00a0").mapError Failure.unplaced ∧
    ((Session.standard {}).eval "1").mapError Failure.unplaced ≠
      ((Session.standard {}).eval "\u00a01").mapError Failure.unplaced := by
  obtain ⟨hanswer, hblank, -⟩ := eval_trimmed (.standard {}) "\t(f 1\r" "(f 1"
    (by decide) (by decide) (by decide)
  obtain ⟨-, hstring, hquote⟩ := eval_trimmed (.standard {}) "(f \"a\u00a0" "(f \"a"
    (by decide) (by decide) (by decide)
  obtain ⟨-, hatom, -⟩ := eval_trimmed (.standard {}) "\u00a01" "1"
    (by decide) (by decide) (by decide)
  have hblanks : ∀ c ∈ Text.trimmedOff "\t(f 1\r".toList, Token.isBlank c :=
    show ∀ c ∈ ['\t', '\r'], Token.isBlank c by simp [Token.isBlank]
  refine ⟨hanswer, hblank.mpr (.inl hblanks), hstring.mpr (.inr (hquote _ rfl)),
    fun heq => (hatom.mp heq).elim (fun h => ?_) ?_⟩
  · have hspace : '\u00a0' ∈ Text.trimmedOff "\u00a01".toList :=
      show '\u00a0' ∈ ['\u00a0'] from List.mem_cons_self
    exact absurd (h _ hspace) (by decide)
  · rintro ⟨err, err', hone, -⟩
    cases hone

/-- The loop reads a one behind a no-break space as an integer, and the session the whole line as an
atom. -/
theorem not_eval_trimmed_noBreakSpace : ¬∀ (s : Session) (line source : String),
    Text.trim line.toList = source.toList → source ≠ "" → source.toList.head? ≠ some ':' →
      (s.eval source).mapError Failure.unplaced = (s.eval line).mapError Failure.unplaced := by
  intro h
  have heq := h (.standard {}) "\u00a01" "1" (by decide) (by decide) (by decide)
  have hsource : Expr.parse "1" = .ok (.leaf (.int 1)) := rfl
  have hline : Expr.parse "\u00a01" = .ok (.leaf (.atom "\u00a01")) := rfl
  rw [Session.eval_literal hsource, Session.eval_literal hline] at heq
  exact nomatch congrArg Outcome.value (Except.ok.inj heq)

end Repl

end Curried
