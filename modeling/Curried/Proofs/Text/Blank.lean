import Mathlib.Data.List.Basic
import Mathlib.Data.List.TakeWhile
import Curried.Repl

/-!
Texts and the white space around them. Every text that is not of white space alone has something
that stands between the white space at its two ends (`exists_framed`), and trimming leaves this
(`Framed.trim`).
-/

namespace Curried.Text

/-- `Framed p before core after`: `core` is not empty and starts and ends with characters that are
not of the kind `p`, and around it are only characters of that kind. -/
structure Framed (p : Char → Bool) (before core after : List Char) : Prop where
  before : ∀ c ∈ before, p c
  after : ∀ c ∈ after, p c
  ne_nil : core ≠ []
  head : ∀ c ∈ core.head?, ¬p c
  last : ∀ c ∈ core.getLast?, ¬p c

/-- The characters that trimming takes off. -/
def trimmedOff (text : List Char) : List Char :=
  text.takeWhile isSpace ++ (text.reverse.takeWhile isSpace).reverse

namespace Framed

variable {p : Char → Bool} {before core after : List Char}

theorem reverse (h : Framed p before core after) :
    Framed p after.reverse core.reverse before.reverse where
  before := by simpa using h.after
  after := by simpa using h.before
  ne_nil := by simpa using h.ne_nil
  head := by simpa using h.last
  last := by simpa using h.head

/-- What is left when the characters in front are dropped, and which ones these are. -/
theorem dropWhile (h : Framed p before core after) :
    (before ++ (core ++ after)).dropWhile p = core ++ after ∧
      (before ++ (core ++ after)).takeWhile p = before := by
  obtain ⟨c, core, rfl⟩ := List.exists_cons_of_ne_nil h.ne_nil
  have hc : ¬p c := h.head c rfl
  rw [List.dropWhile_append_of_pos h.before, List.takeWhile_append_of_pos h.before]
  simp [hc]

theorem append_reverse : (before ++ (core ++ after)).reverse =
    after.reverse ++ (core.reverse ++ before.reverse) := by
  simp

theorem trim (h : Framed isSpace before core after) : trim (before ++ (core ++ after)) = core := by
  have hend : Framed isSpace after.reverse core.reverse [] :=
    { h.reverse with after := List.forall_mem_nil _ }
  have hback := hend.dropWhile.1
  rw [List.append_nil, ← List.reverse_append] at hback
  rw [Text.trim, h.dropWhile.1, hback, List.reverse_reverse]

theorem trimmedOff (h : Framed isSpace before core after) :
    trimmedOff (before ++ (core ++ after)) = before ++ after := by
  rw [Text.trimmedOff, h.dropWhile.2, append_reverse, h.reverse.dropWhile.2, List.reverse_reverse]

end Framed

/-- A text is of one kind altogether, or something with characters of that kind around it. -/
theorem exists_framed (p : Char → Bool) (text : List Char) : (∀ c ∈ text, p c) ∨
    ∃ before core after, Framed p before core after ∧ text = before ++ (core ++ after) := by
  induction text with
  | nil => exact .inl (List.forall_mem_nil _)
  | cons c text ih =>
    rcases ih with htext | ⟨before, core, after, h, rfl⟩
    · by_cases hc : p c
      · exact .inl (List.forall_mem_cons.mpr ⟨hc, htext⟩)
      · exact .inr ⟨[], [c], text, ⟨List.forall_mem_nil _, htext, List.cons_ne_nil _ _,
          by simpa using hc, by simpa using hc⟩, rfl⟩
    · by_cases hc : p c
      · exact .inr ⟨c :: before, core, after,
          { h with before := List.forall_mem_cons.mpr ⟨hc, h.before⟩ }, rfl⟩
      · refine .inr ⟨[], c :: (before ++ core), after,
          ⟨List.forall_mem_nil _, h.after, List.cons_ne_nil _ _, by simpa using hc, ?_⟩, by simp⟩
        rw [← List.cons_append, List.getLast?_append_of_ne_nil _ h.ne_nil]
        exact h.last

theorem exists_leading (p : Char → Bool) (text : List Char) :
    ∃ before rest, text = before ++ rest ∧ (∀ c ∈ before, p c) ∧ ∀ c ∈ rest.head?, ¬p c := by
  refine ⟨_, _, List.takeWhile_append_dropWhile.symm, fun c => List.mem_takeWhile_imp, ?_⟩
  intro c hc
  have := List.head?_dropWhile_not p text
  rw [hc] at this
  simpa using this

theorem exists_trailing (p : Char → Bool) (text : List Char) :
    ∃ rest after, text = rest ++ after ∧ (∀ c ∈ after, p c) ∧ ∀ c ∈ rest.getLast?, ¬p c := by
  obtain ⟨after, rest, htext, hafter, hrest⟩ := exists_leading p text.reverse
  refine ⟨rest.reverse, after.reverse, ?_, by simpa using hafter, by simpa using hrest⟩
  rw [← List.reverse_append, ← htext, List.reverse_reverse]

/-- What stands between characters of a kind stands between those of a narrower kind as well,
together with others of the wider kind. -/
theorem Framed.widen {p q : Char → Bool} {before core after : List Char}
    (h : Framed p before core after) (hqp : ∀ c, q c → p c) :
    ∃ before' front back after', before = before' ++ front ∧ after = back ++ after' ∧
      Framed q before' (front ++ (core ++ back)) after' := by
  obtain ⟨before', front, rfl, hbefore, hfront⟩ := exists_leading q before
  obtain ⟨back, after', rfl, hafter, hback⟩ := exists_trailing q after
  refine ⟨before', front, back, after', rfl, rfl, hbefore, hafter, by simp [h.ne_nil], ?_, ?_⟩
  · cases front with
    | cons c front => exact hfront
    | nil =>
      rw [List.nil_append, List.head?_append_of_ne_nil _ h.ne_nil]
      exact fun c hc hq => h.head c hc (hqp c hq)
  · rw [List.getLast?_append_of_ne_nil _ (by simp [h.ne_nil])]
    by_cases hnil : back = []
    · rw [hnil, List.append_nil]
      exact fun c hc hq => h.last c hc (hqp c hq)
    · rw [List.getLast?_append_of_ne_nil _ hnil]
      exact hback

theorem trim_of_isSpace {text : List Char} (h : ∀ c ∈ text, isSpace c) : trim text = [] := by
  rw [trim, List.dropWhile_eq_nil_iff.mpr h]
  rfl

/-- Trimming leaves nothing of white space alone. -/
theorem trim_eq_nil_iff {text : List Char} : trim text = [] ↔ ∀ c ∈ text, isSpace c := by
  refine ⟨fun h => ?_, trim_of_isSpace⟩
  rcases exists_framed isSpace text with htext | ⟨before, core, after, hframed, rfl⟩
  · exact htext
  · exact absurd (hframed.trim.symm.trans h) hframed.ne_nil

/-- The first word of a text, as the part that ends in front of the first white space. -/
theorem splitWord_fst_eq_iff {text word : List Char} : (splitWord text).1 = word ↔
    ∃ rest, text = word ++ rest ∧ (∀ c ∈ word, ¬isSpace c) ∧ ∀ c ∈ rest.head?, isSpace c := by
  constructor
  · rintro rfl
    refine ⟨text.dropWhile (!isSpace ·), List.takeWhile_append_dropWhile.symm, ?_, ?_⟩
    · intro c hc
      simpa using List.mem_takeWhile_imp hc
    · intro c hc
      have := List.head?_dropWhile_not (!isSpace ·) text
      rw [hc] at this
      simpa using this
  · rintro ⟨rest, rfl, hword, hrest⟩
    rw [splitWord, List.takeWhile_append_of_pos (by simpa using hword)]
    cases rest with
    | nil => simp
    | cons c rest => simp [hrest c rfl]

end Curried.Text
