import Curried.Reader.Error

/-!
Parts of a text. `Span.Cuts` says which part a span takes out of a text. The part consists of whole
characters, so the span lies inside the text with both ends between characters, and its bytes are
those of the part (`Cuts.slices`). The first mark of a kind parts a text in one way only, and so
does the last one (`mark_append_inj`, `append_mark_inj`).
-/

namespace Curried

/-- The length of a text in bytes of its UTF-8 form. -/
def Text.bytes : List Char → Nat
  | [] => 0
  | c :: cs => c.utf8Size + bytes cs

/-- `s.Cuts cs part`: the span takes `part` out of the text `cs`. -/
def Span.Cuts (s : Span) (cs part : List Char) : Prop :=
  ∃ before after, cs = before ++ (part ++ after) ∧
    s = ⟨Text.bytes before, Text.bytes before + Text.bytes part⟩

/-- `s.Slices source slice`: the span lies in the source, with both ends between characters, and the
bytes from the one to the other are those of `slice`. -/
structure Span.Slices (s : Span) (source slice : String) : Prop where
  start_le_stop : s.start ≤ s.stop
  stop_le : s.stop ≤ source.utf8ByteSize
  isValid_start : String.Pos.Raw.IsValid source ⟨s.start⟩
  isValid_stop : String.Pos.Raw.IsValid source ⟨s.stop⟩
  bytes : source.toByteArray.extract s.start s.stop = slice.toByteArray

namespace Text

@[simp] theorem bytes_nil : bytes [] = 0 := rfl

@[simp] theorem bytes_cons (c : Char) (cs : List Char) :
    bytes (c :: cs) = c.utf8Size + bytes cs := rfl

@[simp] theorem bytes_append (cs ds : List Char) : bytes (cs ++ ds) = bytes cs + bytes ds := by
  induction cs with
  | nil => simp
  | cons c cs ih => rw [List.cons_append, bytes_cons, bytes_cons, ih, Nat.add_assoc]

theorem utf8ByteSize_ofList (cs : List Char) : (String.ofList cs).utf8ByteSize = bytes cs := by
  induction cs with
  | nil => rfl
  | cons c cs ih =>
    rw [← List.singleton_append, String.ofList_append, String.utf8ByteSize_append, ih,
      ← String.singleton_eq_ofList, String.utf8ByteSize_singleton, bytes_append]
    rfl

@[simp] theorem bytes_toList (s : String) : bytes s.toList = s.utf8ByteSize := by
  rw [← utf8ByteSize_ofList, String.ofList_toList]

end Text

/-- The last mark of its kind parts a text in one way only. -/
theorem append_mark_inj {c : Char} {xs ys xs' ys' : List Char} (hys : c ∉ ys) (hys' : c ∉ ys') :
    xs ++ c :: ys = xs' ++ c :: ys' ↔ xs = xs' ∧ ys = ys' := by
  refine ⟨fun h => ?_, fun ⟨hxs, hys⟩ => by rw [hxs, hys]⟩
  rcases List.append_eq_append_iff.mp h with ⟨as, rfl, has⟩ | ⟨as, rfl, has⟩
  · cases as with
    | nil => simpa using has
    | cons a as =>
      obtain ⟨rfl, rfl⟩ := List.cons.inj has
      exact absurd (List.mem_append_right as List.mem_cons_self) hys
  · cases as with
    | nil => simpa [eq_comm] using has
    | cons a as =>
      obtain ⟨rfl, rfl⟩ := List.cons.inj has
      exact absurd (List.mem_append_right as List.mem_cons_self) hys'

/-- So does the first one. -/
theorem mark_append_inj {c : Char} {xs ys xs' ys' : List Char} (hxs : c ∉ xs) (hxs' : c ∉ xs') :
    xs ++ c :: ys = xs' ++ c :: ys' ↔ xs = xs' ∧ ys = ys' := by
  have hlast : ys.reverse ++ c :: xs.reverse = ys'.reverse ++ c :: xs'.reverse ↔
      ys.reverse = ys'.reverse ∧ xs.reverse = xs'.reverse :=
    append_mark_inj (mt List.mem_reverse.mp hxs) (mt List.mem_reverse.mp hxs')
  rw [← List.reverse_inj]
  simpa [and_comm] using hlast

namespace Span.Cuts

variable {s : Span} {cs part : List Char} {source : String}

/-- The end of a text. -/
theorem last (cs part : List Char) :
    Cuts ⟨Text.bytes cs, Text.bytes cs + Text.bytes part⟩ (cs ++ part) part :=
  ⟨cs, [], by rw [List.append_nil], rfl⟩

theorem append (h : s.Cuts cs part) (more : List Char) : s.Cuts (cs ++ more) part := by
  obtain ⟨before, after, rfl, hs⟩ := h
  exact ⟨before, after ++ more, by simp only [List.append_assoc], hs⟩

theorem start_le_stop (h : s.Cuts cs part) : s.start ≤ s.stop := by
  obtain ⟨before, after, -, rfl⟩ := h
  exact Nat.le_add_right ..

theorem stop_le (h : s.Cuts cs part) : s.stop ≤ Text.bytes cs := by
  obtain ⟨before, after, rfl, rfl⟩ := h
  simp only [Text.bytes_append]
  omega

theorem start_lt_stop (h : s.Cuts cs part) (hpart : part ≠ []) : s.start < s.stop := by
  obtain ⟨before, after, -, rfl⟩ := h
  cases part with
  | nil => exact absurd rfl hpart
  | cons c part =>
    have := c.utf8Size_pos
    simp only [Text.bytes_cons]
    omega

/-- The source is what stands in front of the part, the part, and what stands behind it. -/
theorem exists_strings (h : s.Cuts source.toList part) : ∃ before after : String,
    source = before ++ String.ofList part ++ after ∧ s.start = before.utf8ByteSize ∧
      s.stop = (before ++ String.ofList part).utf8ByteSize := by
  obtain ⟨before, after, hcs, rfl⟩ := h
  refine ⟨String.ofList before, String.ofList after, ?_, ?_, ?_⟩
  · rw [← String.toList_inj, hcs]
    simp
  · exact (Text.utf8ByteSize_ofList before).symm
  · rw [← String.ofList_append, Text.utf8ByteSize_ofList, Text.bytes_append]

theorem isValid_start (h : s.Cuts source.toList part) :
    String.Pos.Raw.IsValid source ⟨s.start⟩ := by
  obtain ⟨before, after, rfl, hstart, -⟩ := h.exists_strings
  refine String.Pos.Raw.isValid_iff_exists_append.mpr ⟨before, String.ofList part ++ after, ?_, ?_⟩
  · rw [String.append_assoc]
  · rw [hstart]
    rfl

theorem isValid_stop (h : s.Cuts source.toList part) :
    String.Pos.Raw.IsValid source ⟨s.stop⟩ := by
  obtain ⟨before, after, rfl, -, hstop⟩ := h.exists_strings
  refine String.Pos.Raw.isValid_iff_exists_append.mpr ⟨_, after, rfl, ?_⟩
  rw [hstop]
  rfl

/-- Between its ends, the span has the bytes of the part. -/
theorem extract_toByteArray (h : s.Cuts source.toList part) :
    source.toByteArray.extract s.start s.stop = (String.ofList part).toByteArray := by
  obtain ⟨before, after, rfl, hstart, hstop⟩ := h.exists_strings
  rw [hstart, hstop, String.utf8ByteSize_append, String.append_assoc, String.toByteArray_append,
    String.toByteArray_append]
  have htail := ByteArray.extract_append_size_add (a := before.toByteArray)
    (b := (String.ofList part).toByteArray ++ after.toByteArray) (i := 0)
    (j := (String.ofList part).utf8ByteSize)
  exact htail.trans (ByteArray.extract_append_eq_left rfl)

theorem slices (h : s.Cuts source.toList part) : s.Slices source (String.ofList part) where
  start_le_stop := h.start_le_stop
  stop_le := Text.bytes_toList source ▸ h.stop_le
  isValid_start := h.isValid_start
  isValid_stop := h.isValid_stop
  bytes := h.extract_toByteArray

end Span.Cuts

end Curried
