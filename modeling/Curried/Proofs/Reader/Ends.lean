import Curried.Proofs.Reader.Tiling

/-!
What the ends of a text have to do with its tokens. Blanks there change nothing
(`Token.lexes_between_blanks_iff`). Other characters may, but without a quote among them they do not
end a string (`Token.Lexes.of_unquoted`); and where the first or the last character is part of an
atom, the text is no other expression than this atom (`Token.isWord_of_derives`).
-/

namespace Curried

namespace Token

variable {c : Char} {cs gap before after : List Char} {ks : List Kind} {e : Expr} {name : String}

/-! ## Blanks -/

theorem lexes_blanks_append_iff (hgap : Blanks gap) : Lexes (gap ++ cs) ks ↔ Lexes cs ks := by
  induction gap with
  | nil => exact Iff.rfl
  | cons c gap ih =>
    obtain ⟨hc, hgap⟩ := List.forall_mem_cons.mp hgap
    rw [List.cons_append, lexes_blank_iff hc, ih hgap]

/-- A text without tokens consists of blanks. -/
theorem Lexes.blanks (h : Lexes cs []) : Blanks cs := by
  generalize hks : ([] : List Kind) = ks at h
  induction h with
  | nil => exact List.forall_mem_nil _
  | blank hc _ ih => exact List.forall_mem_cons.mpr ⟨hc, ih hks⟩
  | openParen | closeParen | str | atom => cases hks

theorem Lexes.append_blanks (h : Lexes cs ks) (hgap : Blanks gap) : Lexes (cs ++ gap) ks := by
  induction h with
  | nil => simpa using lexes_blanks hgap .nil
  | blank hc _ ih => exact .blank hc ih
  | openParen _ ih => exact .openParen ih
  | closeParen _ ih => exact .closeParen ih
  | str hbody _ ih => simpa using Lexes.str hbody ih
  | @atom c word rest ks hword hrest _ ih =>
    have hnil : ∀ c ∈ ([] : List Char).head?, isDelimiter c := nofun
    have hends : ∀ d ∈ (rest ++ gap).head?, isDelimiter d := by
      cases rest with
      | nil => simpa using head?_blanks_append hgap hnil
      | cons d rest => exact hrest
    simpa using Lexes.atom hword hends ih

/-! ## Characters without a quote -/

/-- Without its first character, a text has tokens as well, if that starts no string. -/
theorem Lexes.tail (h : Lexes (c :: cs) ks) (hc : c ≠ '"') : ∃ ks', Lexes cs ks' := by
  cases h with
  | blank _ h | openParen h | closeParen h => exact ⟨_, h⟩
  | str => exact absurd rfl hc
  | @atom _ word rest ks hword hrest h =>
    cases word with
    | nil => exact ⟨_, h⟩
    | cons d word =>
      exact ⟨_, .atom (fun e he => hword e (List.mem_cons_of_mem _ he)) hrest h⟩

theorem Lexes.of_unquoted_append (h : Lexes (before ++ cs) ks) (hbefore : ∀ c ∈ before, c ≠ '"') :
    ∃ ks', Lexes cs ks' := by
  induction before generalizing ks with
  | nil => exact ⟨ks, h⟩
  | cons c before ih =>
    obtain ⟨hc, hbefore⟩ := List.forall_mem_cons.mp hbefore
    obtain ⟨ks', h⟩ := h.tail hc
    exact ih h hbefore

/-- Whether the scan stands inside a string. -/
def Scan.Mode.InString : Mode → Prop
  | .quoted _ _ | .escaped _ _ | .broken _ => True
  | .between | .atom _ _ => False

theorem Scan.exists_finish_iff {s : Scan} :
    (∃ tokens, s.finish = .ok tokens) ↔ ¬s.mode.InString := by
  obtain ⟨mode, tokens, offset⟩ := s
  cases mode <;> simp [finish, Mode.InString]

/-- Only a quote ends a string. -/
theorem Scan.step_inString {s : Scan} (h : s.mode.InString) (hc : c ≠ '"') :
    (step s c).mode.InString := by
  obtain ⟨mode, tokens, offset⟩ := s
  cases mode with
  | between | atom => cases h
  | quoted =>
    simp only [step, hc, if_false]
    split_ifs <;> trivial
  | escaped =>
    simp only [step]
    split_ifs <;> trivial
  | broken => trivial

theorem Scan.run_inString {s : Scan} (h : s.mode.InString) (hcs : ∀ c ∈ cs, c ≠ '"') :
    (cs.foldl step s).mode.InString := by
  induction cs generalizing s with
  | nil => exact h
  | cons c cs ih =>
    obtain ⟨hc, hcs⟩ := List.forall_mem_cons.mp hcs
    exact ih (step_inString h hc) hcs

/-- A text has tokens unless it ends inside a string. -/
theorem exists_lexes_iff :
    (∃ ks, Lexes cs ks) ↔ ¬(cs.foldl Scan.step .start).mode.InString := by
  rw [← Scan.exists_finish_iff]
  constructor
  · rintro ⟨ks, h⟩
    obtain ⟨tokens, hfinish, -⟩ := lexes_iff_finish.mp h
    exact ⟨tokens, hfinish⟩
  · rintro ⟨tokens, hfinish⟩
    exact ⟨_, lexes_iff_finish.mpr ⟨tokens, hfinish, rfl⟩⟩

theorem Lexes.of_append_unquoted (h : Lexes (cs ++ after) ks) (hafter : ∀ c ∈ after, c ≠ '"') :
    ∃ ks', Lexes cs ks' := by
  refine exists_lexes_iff.mpr fun hstring => exists_lexes_iff.mp ⟨ks, h⟩ ?_
  rw [List.foldl_append]
  exact Scan.run_inString hstring hafter

/-- What has no quote in it does not end a string, nor does it start one. -/
theorem Lexes.of_unquoted (h : Lexes (before ++ (cs ++ after)) ks) (hbefore : ∀ c ∈ before, c ≠ '"')
    (hafter : ∀ c ∈ after, c ≠ '"') : ∃ ks', Lexes cs ks' := by
  obtain ⟨ks', h'⟩ := h.of_unquoted_append hbefore
  exact h'.of_append_unquoted hafter

theorem Blanks.unquoted (h : Blanks gap) : ∀ c ∈ gap, c ≠ '"' := by
  rintro c hc rfl
  cases h _ hc

/-- Blanks at both ends leave the tokens as they are. -/
theorem lexes_between_blanks_iff (hbefore : Blanks before) (hafter : Blanks after) :
    Lexes (before ++ (cs ++ after)) ks ↔ Lexes cs ks := by
  rw [lexes_blanks_append_iff hbefore]
  constructor
  · intro h
    obtain ⟨ks', h'⟩ := h.of_append_unquoted hafter.unquoted
    rwa [h.unique (h'.append_blanks hafter)]
  · exact fun h => h.append_blanks hafter

/-! ## Atoms at an end -/

theorem Lexes.head_atom (h : Lexes cs ks) (hne : cs ≠ []) (hc : ∀ c ∈ cs.head?, ¬isDelimiter c) :
    ∃ name ks', ks = .atom name :: ks' := by
  obtain ⟨c, cs, rfl⟩ := List.exists_cons_of_ne_nil hne
  obtain ⟨word, rest, ks', -, -, -, -, rfl⟩ := (lexes_atom_iff (hc c rfl)).mp h
  exact ⟨_, ks', rfl⟩

theorem Lexes.getLast_atom (h : Lexes cs ks) (hne : cs ≠ [])
    (hc : ∀ c ∈ cs.getLast?, ¬isDelimiter c) : ∃ ks' name, ks = ks' ++ [.atom name] := by
  obtain ⟨tokens, hfinish, rfl⟩ := lexes_iff_finish.mp h
  have hreached := Scan.run_reached cs
  generalize cs.foldl Scan.step .start = s at hreached hfinish
  cases hreached with
  | between _ hlast =>
    have hmem := List.getLast?_eq_some_getLast hne
    exact absurd (hlast _ hmem) (hc _ hmem)
  | atom =>
    cases hfinish
    exact ⟨_, _, by rw [List.reverse_cons, List.map_append]; rfl⟩
  | quoted | escaped | broken => cases hfinish

/-- An expression that starts or ends with an atom is nothing else. -/
theorem eq_atom_of_derives (h : Reader.Derives ks e)
    (hends : (∃ name ks', ks = .atom name :: ks') ∨ ∃ ks' name, ks = ks' ++ [.atom name]) :
    ∃ name, ks = [.atom name] := by
  cases h with
  | atom => exact ⟨_, rfl⟩
  | str =>
    obtain ⟨name, ks', h⟩ | ⟨ks', name, h⟩ := hends
    · cases h
    · simpa using congrArg List.getLast? h
  | list =>
    obtain ⟨name, ks', h⟩ | ⟨ks', name, h⟩ := hends
    · cases h
    · simpa [List.getLast?_cons] using congrArg List.getLast? h

theorem Lexes.eq_name (h : Lexes cs [.atom name]) (hhead : ∀ c ∈ cs.head?, ¬isBlank c)
    (hlast : ∀ c ∈ cs.getLast?, ¬isBlank c) : cs = name.toList := by
  cases h with
  | blank hc => exact absurd hc (hhead _ rfl)
  | @atom c word rest ks hword hrest h =>
    obtain rfl : rest = [] := by
      by_contra hne
      have hmem := List.getLast?_eq_some_getLast hne
      refine hlast (rest.getLast hne) ?_ (h.blanks _ (List.getLast_mem hne))
      rw [← List.cons_append, List.getLast?_append_of_ne_nil _ hne, hmem]
      rfl
    simp

/-- Where an expression is a text that starts and ends with characters other than blanks, and one of
the two belongs to an atom, the text is this atom. -/
theorem isWord_of_derives (h : Lexes cs ks) (he : Reader.Derives ks e) (hne : cs ≠ [])
    (hhead : ∀ c ∈ cs.head?, ¬isBlank c) (hlast : ∀ c ∈ cs.getLast?, ¬isBlank c)
    (hends : (∀ c ∈ cs.head?, ¬isDelimiter c) ∨ ∀ c ∈ cs.getLast?, ¬isDelimiter c) :
    IsWord cs ∧ ks = [.atom (String.ofList cs)] := by
  obtain ⟨name, rfl⟩ := eq_atom_of_derives he (hends.imp (h.head_atom hne) (h.getLast_atom hne))
  have hname := h.eq_name hhead hlast
  exact ⟨hname ▸ isWord_of_lexes h List.mem_cons_self, by rw [hname, String.ofList_toList]⟩

end Token

end Curried
