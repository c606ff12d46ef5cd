import Mathlib.Data.List.Induction
import Curried.Proofs.Reader.Layout
import Curried.Proofs.Text.Span

/-!
Where the tokens of a source stand. A scan that succeeds tiles the source (`Tiling`): each token is
the part that its span takes out, they follow each other, and what lies between them is blank. A
scan fails only at a string that does not end (`scan_tiling`). Both come from what a scan that is
under way has found behind it (`Scan.Reached`): the text so far is composed of tokens and blanks, up
to a token that has started.
-/

namespace Curried.Token

open Text (bytes)

/-- `Spells part k`: the text is a token of the kind `k`. -/
inductive Spells : List Char → Kind → Prop where
  | openParen : Spells ['('] .openParen
  | closeParen : Spells [')'] .closeParen
  | str : Unescapes body text → Spells ('"' :: (body ++ ['"'])) (.str (String.ofList text))
  | atom : IsWord word → Spells word (.atom (String.ofList word))

/-- `Stands t cs`: in the text `cs`, the token is where its span says. An atom goes as far as it can
on both sides. -/
def Stands (t : Token) (cs : List Char) : Prop :=
  ∃ before part after, cs = before ++ (part ++ after) ∧
    t.span = ⟨bytes before, bytes before + bytes part⟩ ∧ Spells part t.kind ∧
    ∀ name, t.kind = .atom name →
      (∀ c ∈ before.getLast?, isDelimiter c) ∧ ∀ c ∈ after.head?, isDelimiter c

/-- The tokens stand in the text from left to right, and every other byte is a blank. -/
structure Tiling (cs : List Char) (tokens : List Token) : Prop where
  stands : ∀ t ∈ tokens, Stands t cs
  not_empty : ∀ t ∈ tokens, t.span.start < t.span.stop
  disjoint : tokens.Pairwise fun t u => t.span.stop ≤ u.span.start
  covers : ∀ i < bytes cs, (∃ t ∈ tokens, t.span.start ≤ i ∧ i < t.span.stop) ∨
    ∃ c, isBlank c ∧ Span.Cuts ⟨i, i + 1⟩ cs [c]

/-- In the text `cs`, a quote behind `before` starts no string: what stands in front of it has
tokens, and nothing from there on is a string. -/
structure Unterminated (cs before : List Char) : Prop where
  quote : before ++ ['"'] <+: cs
  scanned : ∃ tokens, scan (String.ofList before) = .ok tokens
  not_spells : ∀ part text, before ++ part <+: cs → ¬Spells part (.str text)

/-- No atom goes on from the one text to the other. -/
def Delimited (before after : List Char) : Prop :=
  (∀ c ∈ before.getLast?, isDelimiter c) ∨ ∀ c ∈ after.head?, isDelimiter c

/-- `Composed cs tokens`: from left to right, the text is composed of the tokens and of blanks. -/
inductive Composed : List Char → List Token → Prop where
  | nil : Composed [] []
  | blank : Composed cs tokens → isBlank c → Composed (cs ++ [c]) tokens
  | token : Composed cs tokens → Spells part k → Delimited cs part →
      Composed (cs ++ part) (tokens ++ [⟨k, ⟨bytes cs, bytes cs + bytes part⟩⟩])

namespace Scan

/-- The text is composed of the tokens, and a scan of it alone finds them. -/
structure Closed (cs : List Char) (tokens : List Token) : Prop where
  composed : Composed cs tokens.reverse
  scanned : (cs.foldl step start).finish = .ok tokens.reverse

/-- `Reached cs s`: what a scan has found when the text `cs` is behind it. -/
inductive Reached : List Char → Scan → Prop where
  | between : Closed cs ts → (∀ c ∈ cs.getLast?, isDelimiter c) →
    Reached cs ⟨.between, ts, bytes cs⟩
  | atom : Closed cs ts → (∀ c ∈ cs.getLast?, isDelimiter c) → IsWord word →
    Reached (cs ++ word) ⟨.atom (bytes cs) word.reverse, ts, bytes (cs ++ word)⟩
  | quoted : Closed cs ts → Unescapes body text →
    Reached (cs ++ '"' :: body) ⟨.quoted (bytes cs) text.reverse, ts, bytes (cs ++ '"' :: body)⟩
  | escaped : Closed cs ts → Unescapes body text →
    Reached (cs ++ '"' :: (body ++ ['\\']))
      ⟨.escaped (bytes cs) text.reverse, ts, bytes (cs ++ '"' :: (body ++ ['\\']))⟩
  | broken (more : List Char) : Closed cs ts → Unescapes body text →
    Reached (cs ++ '"' :: (body ++ '\\' :: '\n' :: more))
      ⟨.broken (bytes cs), ts, bytes (cs ++ '"' :: (body ++ '\\' :: '\n' :: more))⟩

end Scan

variable {c : Char} {cs before part after more word body text : List Char} {tokens : List Token}
  {t : Token} {k : Kind}

/-! ## Composed texts are tiled -/

theorem isDelimiter_of_isBlank (hc : isBlank c) : isDelimiter c := by
  simp [isDelimiter, hc]

theorem isDelimiter_getLast (hc : isDelimiter c) :
    ∀ d ∈ (cs ++ [c]).getLast?, isDelimiter d := by
  simpa using hc

theorem Spells.ne_nil (h : Spells part k) : part ≠ [] := by
  cases h with
  | openParen | closeParen | str => exact List.cons_ne_nil _ _
  | atom hword => exact hword.ne_nil

theorem Spells.isWord {name : String} (h : Spells part (.atom name)) : IsWord part := by
  cases h with
  | atom hword => exact hword

theorem Delimited.of_isDelimiter (hc : isDelimiter c) : Delimited cs (c :: more) :=
  .inr (by simpa using hc)

/-- In front of an atom stands a delimiter, if anything. -/
theorem Delimited.getLast (h : Delimited before part) (hpart : IsWord part) :
    ∀ c ∈ before.getLast?, isDelimiter c := by
  refine h.resolve_right fun hhead => ?_
  cases part with
  | nil => exact hpart.ne_nil rfl
  | cons c part => exact hpart.not_delimiter c List.mem_cons_self (hhead c rfl)

/-- Behind an atom stands a delimiter, if anything. -/
theorem Delimited.head (h : Delimited (before ++ part) more) (hpart : IsWord part) :
    ∀ c ∈ more.head?, isDelimiter c := by
  refine h.resolve_left fun hlast => ?_
  have hmem := List.getLast_mem hpart.ne_nil
  refine hpart.not_delimiter _ hmem (hlast _ ?_)
  rw [List.getLast?_append_of_ne_nil _ hpart.ne_nil, List.getLast?_eq_some_getLast hpart.ne_nil]
  rfl

theorem Stands.append (h : Stands t cs) (hmore : Delimited cs more) : Stands t (cs ++ more) := by
  obtain ⟨before, part, after, rfl, hspan, hspells, hmax⟩ := h
  refine ⟨before, part, after ++ more, by simp only [List.append_assoc], hspan, hspells, ?_⟩
  intro name hname
  obtain ⟨hlast, hhead⟩ := hmax name hname
  refine ⟨hlast, ?_⟩
  cases after with
  | cons c after => exact hhead
  | nil =>
    rw [List.append_nil] at hmore
    exact hmore.head (hname ▸ hspells).isWord

theorem Stands.cuts (h : Stands t cs) : ∃ part, t.span.Cuts cs part ∧ Spells part t.kind := by
  obtain ⟨before, part, after, hcs, hspan, hspells, -⟩ := h
  exact ⟨part, ⟨before, after, hcs, hspan⟩, hspells⟩

theorem Composed.stands (h : Composed cs tokens) : ∀ t ∈ tokens, Stands t cs := by
  induction h with
  | nil => exact nofun
  | blank _ hc ih =>
    exact fun t ht => (ih t ht).append (.of_isDelimiter (isDelimiter_of_isBlank hc))
  | @token cs tokens part k _ hspells hdelimited ih =>
    intro t ht
    rcases List.mem_append.mp ht with ht | ht
    · exact (ih t ht).append hdelimited
    · obtain rfl := List.mem_singleton.mp ht
      refine ⟨cs, part, [], by rw [List.append_nil], rfl, hspells, fun name hname => ⟨?_, nofun⟩⟩
      obtain rfl : k = .atom name := hname
      exact hdelimited.getLast hspells.isWord

theorem Composed.disjoint (h : Composed cs tokens) :
    tokens.Pairwise fun t u => t.span.stop ≤ u.span.start := by
  induction h with
  | nil => exact .nil
  | blank _ _ ih => exact ih
  | token h _ _ ih =>
    refine List.pairwise_append.mpr ⟨ih, List.pairwise_singleton .., fun t ht u hu => ?_⟩
    obtain rfl := List.mem_singleton.mp hu
    obtain ⟨part, hcuts, -⟩ := (h.stands t ht).cuts
    exact hcuts.stop_le

theorem utf8Size_of_isBlank (hc : isBlank c) : c.utf8Size = 1 := by
  simp only [isBlank, Bool.or_eq_true, beq_iff_eq] at hc
  obtain ((rfl | rfl) | rfl) | rfl := hc <;> rfl

theorem Composed.covers (h : Composed cs tokens) : ∀ i < bytes cs,
    (∃ t ∈ tokens, t.span.start ≤ i ∧ i < t.span.stop) ∨
      ∃ c, isBlank c ∧ Span.Cuts ⟨i, i + 1⟩ cs [c] := by
  induction h with
  | nil => exact nofun
  | @blank cs tokens c _ hc ih =>
    intro i hi
    rcases Nat.lt_or_ge i (bytes cs) with hlt | hge
    · exact (ih i hlt).imp_right fun ⟨d, hd, hcuts⟩ => ⟨d, hd, hcuts.append _⟩
    · have hsize := utf8Size_of_isBlank hc
      simp only [Text.bytes_append, Text.bytes_cons, Text.bytes_nil, hsize] at hi
      obtain rfl : i = bytes cs := by omega
      refine .inr ⟨c, hc, ?_⟩
      simpa [hsize] using Span.Cuts.last cs [c]
  | token _ _ _ ih =>
    intro i hi
    rcases Nat.lt_or_ge i (bytes _) with hlt | hge
    · rcases ih i hlt with ⟨t, ht, hspan⟩ | ⟨d, hd, hcuts⟩
      · exact .inl ⟨t, List.mem_append_left _ ht, hspan⟩
      · exact .inr ⟨d, hd, hcuts.append _⟩
    · rw [Text.bytes_append] at hi
      exact .inl ⟨_, List.mem_append_right _ List.mem_cons_self, hge, hi⟩

theorem Composed.tiling (h : Composed cs tokens) : Tiling cs tokens where
  stands := h.stands
  not_empty t ht := by
    obtain ⟨part, hcuts, hspells⟩ := (h.stands t ht).cuts
    exact hcuts.start_lt_stop hspells.ne_nil
  disjoint := h.disjoint
  covers := h.covers

/-! ## Strings that do not end -/

theorem Unescapes.append {body' text' : List Char} (h : Unescapes body text)
    (h' : Unescapes body' text') : Unescapes (body ++ body') (text ++ text') := by
  induction h with
  | nil => exact h'
  | plain hquote hslash _ ih => exact .plain hquote hslash ih
  | quote _ ih => exact .quote ih
  | backslash _ ih => exact .backslash ih
  | newline _ ih => exact .newline ih
  | tab _ ih => exact .tab ih
  | other hc _ ih => exact .other hc ih

/-- A string that has the same text in front of it as another one ends behind that. -/
theorem Unescapes.of_append_eq {body' text' : List Char} (h : Unescapes body text)
    (h' : Unescapes body' text') (heq : body ++ more = body' ++ '"' :: after) :
    ∃ body'' text'', Unescapes body'' text'' ∧ more = body'' ++ '"' :: after := by
  induction h generalizing body' text' with
  | nil => exact ⟨body', text', h', heq⟩
  | plain hquote hslash _ ih =>
    cases body' with
    | nil => exact absurd (List.cons.inj heq).1 hquote
    | cons c body' =>
      obtain ⟨rfl, htail⟩ := List.cons.inj heq
      obtain ⟨_, h', -⟩ := (unescapes_plain_iff hquote hslash).mp h'
      exact ih h' htail
  | quote _ ih | backslash _ ih | newline _ ih | tab _ ih | other _ _ ih =>
    cases h' with
    | nil => exact absurd (List.cons.inj heq).1 (by decide)
    | plain _ hslash => exact absurd (List.cons.inj heq).1.symm hslash
    | quote h' | backslash h' | newline h' | tab h' | other _ h' =>
      exact ih h' (List.cons.inj (List.cons.inj heq).2).2

namespace Scan

variable {s : Scan}

theorem stepBetween_reached (h : Closed cs tokens) (hc : Delimited cs [c])
    (hrun : (cs ++ [c]).foldl step start = stepBetween tokens (bytes cs) c) :
    Reached (cs ++ [c]) (stepBetween tokens (bytes cs) c) := by
  have hnext : bytes cs + c.utf8Size = bytes (cs ++ [c]) := by simp
  unfold stepBetween at hrun ⊢
  simp only [hnext] at hrun ⊢
  split_ifs at hrun ⊢ with hblank hopen hclose hquote
  · have hlast : ∀ d ∈ (cs ++ [c]).getLast?, isDelimiter d :=
      isDelimiter_getLast (isDelimiter_of_isBlank hblank)
    exact .between ⟨.blank h.composed hblank, by rw [hrun]; rfl⟩ hlast
  · subst hopen
    refine .between ⟨?_, by rw [hrun]; rfl⟩ (isDelimiter_getLast rfl)
    simpa using Composed.token h.composed .openParen hc
  · subst hclose
    refine .between ⟨?_, by rw [hrun]; rfl⟩ (isDelimiter_getLast rfl)
    simpa using Composed.token h.composed .closeParen hc
  · subst hquote
    exact .quoted h .nil
  · have hword : IsWord [c] := by
      refine ⟨List.cons_ne_nil _ _, ?_⟩
      simp [isDelimiter, hblank, hopen, hclose, hquote]
    exact .atom h (hc.getLast hword) hword

/-- One more character. -/
theorem step_reached (h : Reached cs s) (hs : cs.foldl step start = s) :
    Reached (cs ++ [c]) (step s c) := by
  have hrun : (cs ++ [c]).foldl step start = step s c := by
    rw [List.foldl_append, hs]
    rfl
  cases h with
  | between hclosed hlast => exact stepBetween_reached hclosed (.inl hlast) hrun
  | @atom cs ts word hclosed hlast hword =>
    simp only [step] at hrun ⊢
    split_ifs at hrun ⊢ with hc
    · refine stepBetween_reached ⟨?_, by rw [hs]; rfl⟩ (.of_isDelimiter hc) hrun
      simpa [atomToken] using Composed.token hclosed.composed (.atom hword) (.inl hlast)
    · have hmore : IsWord (word ++ [c]) :=
        ⟨by simp, List.forall_mem_append.mpr ⟨hword.not_delimiter, by simpa using hc⟩⟩
      simpa [Nat.add_assoc] using Reached.atom hclosed hlast hmore
  | @quoted cs ts body text hclosed hbody =>
    have hnext : bytes (cs ++ '"' :: body) + c.utf8Size = bytes (cs ++ '"' :: body ++ [c]) := by
      simp [Nat.add_assoc]
    simp only [step, hnext] at hrun ⊢
    split_ifs at hrun ⊢ with hquote hslash
    · subst hquote
      refine .between ⟨?_, by rw [hrun]; rfl⟩ (isDelimiter_getLast rfl)
      simpa [Nat.add_assoc] using Composed.token hclosed.composed (.str hbody) (.of_isDelimiter rfl)
    · subst hslash
      simpa using Reached.escaped hclosed hbody
    · simpa using Reached.quoted hclosed (hbody.append (.plain hquote hslash .nil))
  | @escaped cs ts body text hclosed hbody =>
    simp only [step]
    split_ifs with hline
    · subst hline
      simpa [Nat.add_assoc] using Reached.broken [] hclosed hbody
    · have hescape : Unescapes ['\\', c] ((resolveEscape c).reverse ++ []) :=
        unescapes_escape_iff.mpr ⟨hline, [], .nil, rfl⟩
      simpa [Nat.add_assoc] using Reached.quoted hclosed (hbody.append hescape)
  | @broken cs ts body text more hclosed hbody =>
    simpa [step, Nat.add_assoc] using Reached.broken (more ++ [c]) hclosed hbody

theorem run_reached (cs : List Char) : Reached cs (cs.foldl step start) := by
  induction cs using List.reverseRecOn with
  | nil => exact .between ⟨.nil, rfl⟩ nofun
  | append_singleton cs c ih =>
    rw [List.foldl_append]
    exact step_reached ih rfl

end Scan

/-- `Open more`: inside a string, no quote ends it. -/
def Open (more : List Char) : Prop :=
  ∀ body text rest, Unescapes body text → more ≠ body ++ '"' :: rest

theorem open_nil : Open [] := by
  intro body text rest _ heq
  simp at heq

theorem open_backslash : Open ['\\'] := by
  intro body text rest hbody heq
  cases hbody with
  | nil => exact absurd (List.cons.inj heq).1 (by decide)
  | plain _ hslash => exact hslash (List.cons.inj heq).1.symm
  | quote | backslash | newline | tab | other => cases (List.cons.inj heq).2

/-- A string cannot go on behind a backslash at the end of a line. -/
theorem open_broken (more : List Char) : Open ('\\' :: '\n' :: more) := by
  intro body text rest hbody heq
  cases hbody with
  | nil => exact absurd (List.cons.inj heq).1 (by decide)
  | plain _ hslash => exact hslash (List.cons.inj heq).1.symm
  | quote | backslash | newline | tab =>
    exact absurd (List.cons.inj (List.cons.inj heq).2).1 (by decide)
  | other hc =>
    obtain rfl := (List.cons.inj (List.cons.inj heq).2).1
    exact hc (by decide)

theorem unterminated_of_open {ts : List Token} (hcs : Scan.Closed cs ts)
    (hbody : Unescapes body text) (hmore : Open more) :
    Unterminated (cs ++ '"' :: (body ++ more)) cs where
  quote := by simp
  scanned := ⟨_, by rw [scan, String.toList_ofList]; exact hcs.scanned⟩
  not_spells part name hpart hspells := by
    cases hspells with
    | str hpart' =>
      obtain ⟨rest, heq⟩ := (List.prefix_append_right_inj cs).mp hpart
      rw [List.cons_append, List.append_assoc] at heq
      obtain ⟨body', text', hbody', hrest⟩ := hbody.of_append_eq hpart' (List.cons.inj heq).2.symm
      exact hmore body' text' rest hbody' hrest

theorem tiling_of_scan {source : String} (h : scan source = .ok tokens) :
    Tiling source.toList tokens := by
  have hreached := Scan.run_reached source.toList
  rw [scan] at h
  generalize source.toList.foldl Scan.step .start = s at hreached h
  generalize source.toList = cs at hreached ⊢
  cases hreached with
  | between hclosed =>
    cases h
    exact hclosed.composed.tiling
  | atom hclosed hlast hword =>
    cases h
    have hcomposed := Composed.token hclosed.composed (.atom hword) (.inl hlast)
    simpa [Scan.atomToken] using hcomposed.tiling
  | quoted | escaped | broken => cases h

theorem unterminated_of_scan {source : String} {e : ParseError} (h : scan source = .error e) :
    ∃ before, e = ⟨.unterminatedString, ⟨bytes before, source.utf8ByteSize⟩⟩ ∧
      Unterminated source.toList before := by
  have hreached := Scan.run_reached source.toList
  rw [← Text.bytes_toList]
  rw [scan] at h
  generalize source.toList.foldl Scan.step .start = s at hreached h
  generalize source.toList = cs at hreached ⊢
  cases hreached with
  | between | atom => cases h
  | quoted hclosed hbody =>
    cases h
    refine ⟨_, rfl, ?_⟩
    simpa using unterminated_of_open hclosed hbody open_nil
  | escaped hclosed hbody =>
    cases h
    exact ⟨_, rfl, unterminated_of_open hclosed hbody open_backslash⟩
  | broken more hclosed hbody =>
    cases h
    exact ⟨_, rfl, unterminated_of_open hclosed hbody (open_broken more)⟩

/-- A source is scanned into the tokens that tile it, unless a string in it does not end; then the
error goes from the quote of that string to the end of the source. -/
theorem scan_tiling (source : String) :
    (∃ tokens, scan source = .ok tokens ∧ Tiling source.toList tokens) ∨
    ∃ before, scan source = .error ⟨.unterminatedString, ⟨bytes before, source.utf8ByteSize⟩⟩ ∧
      Unterminated source.toList before := by
  cases h : scan source with
  | ok tokens => exact .inl ⟨tokens, rfl, tiling_of_scan h⟩
  | error e =>
    obtain ⟨before, rfl, hbefore⟩ := unterminated_of_scan h
    exact .inr ⟨before, rfl, hbefore⟩

end Curried.Token
