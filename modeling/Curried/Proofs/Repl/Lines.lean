import Mathlib.Data.List.Forall2
import Curried.Proofs.Text.Blank
import Curried.Repl

/-!
The loop and the lines of its input. A line that is text is answered on its own, with one reply
unless it is blank and with one prompt (`Answered`), whatever comes of it. So the loop goes on
behind lines as if it had started there, up to a line that quits (`run_append`).
-/

namespace Curried.Repl

/-- The line is text that asks to leave the loop: its first word is `:quit` or `:q`. -/
def Quits (line : List UInt8) : Prop :=
  ∃ text name rest, decode line = some text ∧ Text.trim text.toList = ':' :: (name ++ rest) ∧
    (name = "quit".toList ∨ name = "q".toList) ∧ ∀ c ∈ rest.head?, Text.isSpace c

/-- `Answered s line written`: behind the line, the loop writes a prompt, and a reply in front of it
if the line is not blank. -/
inductive Answered (s : Session) (line : List UInt8) : (written : String) → Prop where
  | blank {text : String} : decode line = some text → (∀ c ∈ text.toList, Text.isSpace c) →
    Answered s line s.options.prompt
  | replied {text said : String} : decode line = some text → (∃ c ∈ text.toList, ¬Text.isSpace c) →
    answer s (classify text) = some said → Answered s line (said ++ "\n" ++ s.options.prompt)

/-- A line feed ends the input, if there is any. -/
def Ended (input : List UInt8) : Prop := ∀ b ∈ input.getLast?, b = lineFeed

/-- The input cut off in front of the line with the number `k`, counted from zero. -/
def cutBefore : (k : Nat) → List UInt8 → List UInt8
  | 0, _ => []
  | _, [] => []
  | k + 1, b :: input => b :: if b = lineFeed then cutBefore k input else cutBefore (k + 1) input

variable {s : Session} {input more : List UInt8} {line : List UInt8} {seen ls : List (List UInt8)}
  {text written : String} {texts : List String} {l : Line}

/-! ## Lines of an input -/

theorem linesFrom_seen (input line : List UInt8) (seen : List (List UInt8)) :
    linesFrom input line seen = seen.reverse ++ linesFrom input line [] := by
  induction input generalizing line seen with
  | nil =>
    simp only [linesFrom]
    split <;> simp
  | cons b input ih =>
    simp only [linesFrom]
    split
    · rw [ih, ih [] [closeLine line]]
      simp
    · exact ih _ _

theorem Ended.tail {b : UInt8} (h : Ended (b :: input)) : Ended input := by
  cases input with
  | nil => exact nofun
  | cons c input => exact h

theorem linesFrom_append (h : Ended input) (hline : input = [] → line = []) :
    linesFrom (input ++ more) line seen = linesFrom input line seen ++ lines more := by
  induction input generalizing line seen with
  | nil =>
    cases hline rfl
    rw [List.nil_append, linesFrom_seen]
    simp [linesFrom, lines]
  | cons b input ih =>
    simp only [List.cons_append, linesFrom]
    split
    · exact ih h.tail fun _ => rfl
    · next hb =>
      refine ih h.tail fun hnil => absurd (h b ?_) hb
      rw [hnil]
      rfl

/-- Behind a line feed, a new line begins. -/
theorem lines_append (h : Ended input) : lines (input ++ more) = lines input ++ lines more :=
  linesFrom_append h fun _ => rfl

theorem linesFrom_cutBefore {k : Nat} (hline : k = 0 → line = []) :
    linesFrom (cutBefore k input) line [] = (linesFrom input line []).take k := by
  induction input generalizing k line with
  | nil =>
    cases k with
    | zero => simp [hline rfl, cutBefore, linesFrom]
    | succ k =>
      simp only [cutBefore, linesFrom]
      split <;> simp
  | cons b input ih =>
    cases k with
    | zero => simp [hline rfl, cutBefore, linesFrom]
    | succ k =>
      simp only [cutBefore, linesFrom]
      split
      · rw [linesFrom_seen, linesFrom_seen input, ih fun _ => rfl]
        simp
      · exact ih nofun

theorem lines_cutBefore (k : Nat) (input : List UInt8) :
    lines (cutBefore k input) = (lines input).take k :=
  linesFrom_cutBefore fun _ => rfl

theorem cutBefore_prefix_self (k : Nat) (input : List UInt8) : cutBefore k input <+: input := by
  induction input generalizing k with
  | nil => cases k <;> exact List.prefix_rfl
  | cons b input ih =>
    cases k with
    | zero => exact List.nil_prefix
    | succ k =>
      rw [cutBefore, List.prefix_cons_inj]
      split
      · exact ih k
      · exact ih (k + 1)

/-! ## What one line asks for -/

theorem command_ne_blank (name rest : String) : command name rest ≠ .blank := by
  unfold command
  split_ifs <;> exact nofun

theorem command_eq_quit_iff (name rest : String) :
    command name rest = .quit ↔ name = "quit" ∨ name = "q" := by
  constructor
  · intro h
    unfold command at h
    split_ifs at h with _ _ _ _ hquit
    exact hquit
  · rintro (rfl | rfl) <;> rfl

theorem classify_blank (h : Text.trim text.toList = []) : classify text = .blank := by
  simp [classify, h]

theorem classify_command {words : List Char} (h : Text.trim text.toList = ':' :: words) :
    classify text = command (String.ofList (Text.splitWord words).1)
      (String.ofList (Text.trim (Text.splitWord words).2)) := by
  simp [classify, h]

theorem classify_eval {c : Char} {source : List Char} (h : Text.trim text.toList = c :: source)
    (hc : c ≠ ':') : classify text = .eval (String.ofList (c :: source)) := by
  unfold classify
  rw [h]
  split
  · next hnil => exact nomatch hnil
  · next hcons => exact absurd (List.cons.inj hcons).1 hc
  · rfl

theorem classify_eq_blank_iff : classify text = .blank ↔ ∀ c ∈ text.toList, Text.isSpace c := by
  rw [← Text.trim_eq_nil_iff]
  refine ⟨fun h => ?_, classify_blank⟩
  cases htrim : Text.trim text.toList with
  | nil => rfl
  | cons c source =>
    by_cases hc : c = ':'
    · rw [hc] at htrim
      exact absurd ((classify_command htrim).symm.trans h) (command_ne_blank _ _)
    · exact nomatch (classify_eval htrim hc).symm.trans h

theorem classify_eq_quit_iff : classify text = .quit ↔
    ∃ name rest, Text.trim text.toList = ':' :: (name ++ rest) ∧
      (name = "quit".toList ∨ name = "q".toList) ∧ ∀ c ∈ rest.head?, Text.isSpace c := by
  constructor
  · intro h
    cases htrim : Text.trim text.toList with
    | nil => exact nomatch (classify_blank htrim).symm.trans h
    | cons c source =>
      by_cases hc : c = ':'
      · rw [hc] at htrim
        have hquit := (classify_command htrim).symm.trans h
        obtain ⟨rest, hsource, -, hrest⟩ :=
          Text.splitWord_fst_eq_iff.mp (Eq.refl (Text.splitWord source).1)
        refine ⟨_, rest, by rw [hc, ← hsource], ?_, hrest⟩
        rcases (command_eq_quit_iff _ _).mp hquit with hname | hname
        · exact .inl (by rw [← hname, String.toList_ofList])
        · exact .inr (by rw [← hname, String.toList_ofList])
      · exact nomatch (classify_eval htrim hc).symm.trans h
  · rintro ⟨name, rest, htrim, hname, hrest⟩
    have hword : ∀ c ∈ name, ¬Text.isSpace c := by
      rcases hname with rfl | rfl <;> simp [Text.isSpace]
    rw [classify_command htrim, command_eq_quit_iff,
      Text.splitWord_fst_eq_iff.mpr ⟨rest, rfl, hword, hrest⟩]
    rcases hname with rfl | rfl <;> simp

theorem quits_iff : Quits line ↔ (classify <$> decode line) = some .quit := by
  simp only [Quits, Option.map_eq_map, Option.map_eq_some_iff, classify_eq_quit_iff]
  simp only [exists_and_left]

instance : DecidablePred Quits := fun _ => decidable_of_iff _ quits_iff.symm

theorem answer_eq_none_iff (s : Session) (l : Line) :
    answer s l = none ↔ l = .blank ∨ l = .quit := by
  cases l <;> simp [answer]

/-! ## Replies -/

theorem Answered.reply_eq (h : Answered s line written) : reply s line = .write written := by
  unfold reply
  cases h with
  | blank hdecode hblank => simp [hdecode, classify_eq_blank_iff.mpr hblank, answer]
  | @replied text said hdecode hblank hsaid =>
    rw [hdecode]
    split
    · next hnone => exact nomatch hnone
    · next text' htext =>
      obtain rfl := Option.some.inj htext
      split
      · next hquit => rw [hquit] at hsaid; exact nomatch hsaid
      · rw [hsaid]

theorem Quits.reply_eq (h : Quits line) : reply s line = .quit := by
  obtain ⟨text, hdecode, htext⟩ := Option.map_eq_some_iff.mp (quits_iff.mp h)
  simp [reply, hdecode, htext]

theorem exists_answered (s : Session) (hdecode : decode line = some text) (h : ¬Quits line) :
    ∃ written, Answered s line written := by
  by_cases hblank : ∀ c ∈ text.toList, Text.isSpace c
  · exact ⟨_, .blank hdecode hblank⟩
  · cases hanswer : answer s (classify text) with
    | some said => exact ⟨_, .replied hdecode (by simpa using hblank) hanswer⟩
    | none =>
      rcases (answer_eq_none_iff s _).mp hanswer with hb | hq
      · exact absurd (classify_eq_blank_iff.mp hb) hblank
      · exact absurd (quits_iff.mpr (by simp [hdecode, hq])) h

/-! ## Many lines -/

theorem exists_all_answered (h : ∀ line ∈ ls, (decode line).isSome ∧ ¬Quits line) :
    ∃ texts, List.Forall₂ (Answered s) ls texts := by
  induction ls with
  | nil => exact ⟨[], .nil⟩
  | cons line ls ih =>
    obtain ⟨⟨hdecode, hquits⟩, hrest⟩ := List.forall_mem_cons.mp h
    obtain ⟨texts, htexts⟩ := ih hrest
    obtain ⟨text, hdecode⟩ := Option.isSome_iff_exists.mp hdecode
    obtain ⟨written, hline⟩ := exists_answered s hdecode hquits
    exact ⟨written :: texts, .cons hline htexts⟩

theorem answerAll_behind (s : Session) (ls : List (List UInt8)) (before written : String) :
    answerAll s ls (before ++ written) =
      (before ++ (answerAll s ls written).1, (answerAll s ls written).2) := by
  induction ls generalizing written with
  | nil => simp [answerAll, String.append_assoc]
  | cons line ls ih =>
    simp only [answerAll]
    split
    · rw [String.append_assoc, ih]
    · simp [String.append_assoc]
    · rfl

theorem answerAll_append (h : List.Forall₂ (Answered s) ls texts) (more : List (List UInt8))
    (written : String) :
    answerAll s (ls ++ more) written = answerAll s more (written ++ String.join texts) := by
  induction h generalizing written with
  | nil => simp
  | cons hline _ ih => simp [answerAll, hline.reply_eq, ih, String.append_assoc]

/-- No line behind one that quits is answered. -/
theorem answerAll_quits (h : Quits line) (ls more : List (List UInt8)) (written : String) :
    answerAll s (ls ++ line :: more) written = answerAll s ls written := by
  induction ls generalizing written with
  | nil => simp [answerAll, h.reply_eq]
  | cons line ls ih =>
    simp only [List.cons_append, answerAll]
    split
    · exact ih _
    · rfl
    · rfl

/-- Behind lines that are text and do not quit, the loop goes on as if it had started there; up to
them it has written a prompt for the start and what answers each of them. A line that quits ends the
loop as the end of the input does. -/
theorem run_append (s : Session) :
    (∀ input more, Ended input → (∀ line ∈ lines input, (decode line).isSome ∧ ¬Quits line) →
      ∃ written rest failed texts, run s input = (written ++ "\n", none) ∧
        run s more = (s.options.prompt ++ rest, failed) ∧
        run s (input ++ more) = (written ++ rest, failed) ∧
        List.Forall₂ (Answered s) (lines input) texts ∧
        written = s.options.prompt ++ String.join texts) ∧
    ∀ input k line, (lines input)[k]? = some line → Quits line →
      cutBefore k input <+: input ∧ lines (cutBefore k input) = (lines input).take k ∧
        run s input = run s (cutBefore k input) := by
  constructor
  · intro input more hended hlines
    obtain ⟨texts, htexts⟩ := exists_all_answered hlines
    refine ⟨_, (answerAll s (lines more) "").1, (answerAll s (lines more) "").2, texts,
      ?_, ?_, ?_, htexts, rfl⟩
    · simpa [run, answerAll] using answerAll_append htexts [] s.options.prompt
    · simpa [run] using answerAll_behind s (lines more) s.options.prompt ""
    · rw [run, lines_append hended, answerAll_append htexts]
      simpa using answerAll_behind s (lines more) (s.options.prompt ++ String.join texts) ""
  · intro input k line hline hquits
    have hsplit : lines input = (lines input).take k ++ line :: (lines input).drop (k + 1) := by
      obtain ⟨hk, rfl⟩ := List.getElem?_eq_some_iff.mp hline
      rw [← List.drop_eq_getElem_cons hk, List.take_append_drop]
    refine ⟨cutBefore_prefix_self k input, lines_cutBefore k input, ?_⟩
    rw [run, run, lines_cutBefore, hsplit, answerAll_quits hquits, ← hsplit]

/-- An expression that is not closed, in front of a line that quits and one more. -/
theorem run_append_unclosed : ∃ written rest failed,
    run (.standard {}) [40, 10] = (written ++ "\n", none) ∧
      run (.standard {}) [58, 113, 10, 49] = ("> " ++ rest, failed) ∧
      run (.standard {}) [40, 10, 58, 113, 10, 49] = (written ++ rest, failed) ∧
      run (.standard {}) [40, 10, 58, 113, 10, 49] = run (.standard {}) [40, 10] := by
  obtain ⟨happend, hquit⟩ := run_append (.standard {})
  obtain ⟨written, rest, failed, _, h, hmore, hboth, -⟩ :=
    happend [40, 10] [58, 113, 10, 49] (by rintro b ⟨⟩; rfl) (by decide +kernel)
  exact ⟨written, rest, failed, h, hmore, hboth,
    (hquit _ 1 [58, 113] (by decide) (by decide +kernel)).2.2⟩

/-- A line that is not text ends the loop, and the lines behind it are not answered. -/
theorem not_run_append_of_not_text : ¬∀ s input more, Ended input →
    (∀ line ∈ lines input, ¬Quits line) → ∃ written rest,
      ((run s input).1 = written ++ "\n" ∨ (run s input).1 = written) ∧
      (run s more).1 = s.options.prompt ++ rest ∧ (run s (input ++ more)).1 = written ++ rest := by
  intro h
  obtain ⟨written, rest, hwritten, hrest, hboth⟩ :=
    h (.standard {}) [255, 10] [10] (by rintro b ⟨⟩; rfl) (by decide +kernel)
  have hfirst : (run (.standard {}) [255, 10]).1 = "> " := rfl
  have hmore : (run (.standard {}) [10]).1 = "> " ++ "> \n" := rfl
  have hrun : (run (.standard {}) ([255, 10] ++ [10])).1 = "> " := rfl
  rcases hwritten with hwritten | hwritten
  · have hlast := congrArg (·.toList.getLast?) (hfirst.symm.trans hwritten)
    simp at hlast
  · obtain rfl : "> \n" = rest := (String.append_right_inj _).mp (hmore.symm.trans hrest)
    rw [← hwritten, hfirst, hrun] at hboth
    exact absurd hboth (by decide)

end Curried.Repl
