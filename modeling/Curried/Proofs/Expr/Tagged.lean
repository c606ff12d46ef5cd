import Curried.Expr.Tagged
import Curried.Proofs.Reader.Layout
import Curried.Proofs.Text.Span

/-!
Tagged texts tell expressions apart. A literal is known by its kind, which follows the last colon,
and by what stands in front of that (`Literal.tagged_inj`). Behind an element stand brackets that
close lists, and then a space or the end (`Closing`); no element begins like that. So a tagged text
shows where it ends, and two expressions with one tagged text are the same
(`Expr.tagged_unambiguous`), although atoms may have colons and closing brackets in them and look
like tagged literals themselves.
-/

namespace Curried

/-- What may stand behind an element: brackets that close lists, and then a space or the end. -/
inductive Closing : List Char → Prop where
  | nil : Closing []
  | space : Closing (' ' :: cs)
  | bracket : Closing cs → Closing (']' :: cs)

/-- Nothing in the literal reads as its end in a tagged text, or as the beginning of something else:
a string has no quotes, and an atom has no spaces and starts neither like a list nor like a
string. -/
def Literal.Plain : Literal → Prop
  | .int _ | .bool _ => True
  | .str s => '"' ∉ s.toList
  | .atom name => ' ' ∉ name.toList ∧ ∀ c ∈ name.toList.head?, c ≠ '[' ∧ c ≠ '"'

/-- All literals in the expression are plain. -/
inductive Expr.Plain : Expr → Prop where
  | leaf : l.Plain → Plain (leaf l)
  | list : (∀ e ∈ items, Plain e) → Plain (list items)

variable {w w' r r' t : List Char} {l l' : Literal}

/-! ## Literals -/

/-- What a tagged literal has in front of its kind. -/
def Literal.payload : Literal → List Char
  | .int n => n.toInt.repr.toList
  | .bool b => (if b then "true" else "false").toList
  | .str s => '"' :: (s.toList ++ ['"'])
  | .atom name => name.toList

theorem Literal.toList_tagged (l : Literal) :
    l.tagged.toList = l.payload ++ ':' :: l.kind.toList := by
  cases l <;> simp [tagged, payload, kind]

theorem Literal.colon_notMem_kind (l : Literal) : ':' ∉ l.kind.toList := by
  cases l <;> simp [kind]

/-- A tagged literal shows which one it is. -/
theorem Literal.tagged_inj (h : l.tagged = l'.tagged) : l = l' := by
  have hparts := congrArg String.toList h
  rw [toList_tagged, toList_tagged,
    append_mark_inj l.colon_notMem_kind l'.colon_notMem_kind] at hparts
  obtain ⟨hpayload, hkind⟩ := hparts
  cases l with
  | int n =>
    cases l' with
    | int n' =>
      have hnumeral := Reader.numeral_repr n.toInt
      rw [show n.toInt.repr.toList = n'.toInt.repr.toList from hpayload] at hnumeral
      exact congrArg int (Int64.toInt_inj.mp (hnumeral.unique (Reader.numeral_repr n'.toInt)))
    | bool | str | atom => simp [kind] at hkind
  | bool b =>
    cases l' with
    | bool b' => cases b <;> cases b' <;> simp [payload] at hpayload ⊢
    | int | str | atom => simp [kind] at hkind
  | str s =>
    cases l' with
    | str s' => simpa [payload, String.toList_inj] using hpayload
    | int | bool | atom => simp [kind] at hkind
  | atom name =>
    cases l' with
    | atom name' => exact congrArg atom (String.toList_inj.mp hpayload)
    | int | bool | str => simp [kind] at hkind

/-! ## What stands behind an element -/

/-- In front of its end, and of the first space, a closing text has brackets only. -/
theorem Closing.eq_bracket (h : Closing (w ++ t)) (hw : ' ' ∉ w) : ∀ c ∈ w, c = ']' := by
  induction w with
  | nil => exact List.forall_mem_nil _
  | cons c w ih =>
    obtain ⟨hc, hmore⟩ := List.ne_and_not_mem_of_not_mem_cons hw
    cases h with
    | space => exact absurd rfl hc
    | bracket h => exact List.forall_mem_cons.mpr ⟨rfl, ih h hmore⟩

/-- A word that tags a literal: it begins neither like a list nor like a string, and reaches from
one space to the next but for the brackets behind it. -/
structure IsTagWord (w : List Char) : Prop where
  head : ∀ c ∈ w.head?, c ≠ '[' ∧ c ≠ '"'
  no_space : ' ' ∉ w
  colon : ':' ∈ w
  last : ∀ c ∈ w.getLast?, c ≠ ']'

theorem IsTagWord.not_closing (h : IsTagWord w) : ¬Closing (w ++ t) :=
  fun hclosing => absurd (hclosing.eq_bracket h.no_space ':' h.colon) (by decide)

theorem IsTagWord.append_ne_cons {c : Char} (h : IsTagWord w) (hc : c = '[' ∨ c = '"') :
    w ++ r ≠ c :: t := by
  intro heq
  cases w with
  | nil => exact List.not_mem_nil h.colon
  | cons d w =>
    obtain ⟨rfl, -⟩ := List.cons.inj heq
    obtain ⟨hbracket, hquote⟩ := h.head d rfl
    exact hc.elim hbracket hquote

/-- The brackets behind a word do not belong to it. -/
theorem IsTagWord.eq_nil_of_append (h : IsTagWord (w ++ t)) (ht : Closing (t ++ r)) : t = [] := by
  by_contra hne
  have hlast := h.last (t.getLast hne) (by
    rw [List.getLast?_append_of_ne_nil _ hne, List.getLast?_eq_some_getLast hne]
    rfl)
  have hspace : ' ' ∉ t := fun hmem => h.no_space (List.mem_append_right w hmem)
  exact hlast (ht.eq_bracket hspace _ (List.getLast_mem hne))

theorem IsTagWord.append_inj (hw : IsTagWord w) (hw' : IsTagWord w') (hr : Closing r)
    (hr' : Closing r') (h : w ++ r = w' ++ r') : w = w' ∧ r = r' := by
  rcases List.append_eq_append_iff.mp h with ⟨t, rfl, rfl⟩ | ⟨t, rfl, rfl⟩
  · cases hw'.eq_nil_of_append hr
    simp
  · cases hw.eq_nil_of_append hr'
    simp

/-- A kind without spaces makes a word of what stands in front of it. -/
theorem isTagWord_of_payload {payload kind : List Char} (hspace : ' ' ∉ payload)
    (hhead : ∀ c ∈ payload.head?, c ≠ '[' ∧ c ≠ '"') (hkind : ' ' ∉ kind)
    (hlast : ∀ c ∈ (':' :: kind).getLast?, c ≠ ']') : IsTagWord (payload ++ ':' :: kind) where
  head := by
    cases payload with
    | nil => simp
    | cons c payload => exact hhead
  no_space := by simp [hspace, hkind]
  colon := by simp
  last := by rwa [List.getLast?_append_of_ne_nil _ (List.cons_ne_nil _ _)]

theorem Reader.Numeral.bracket_notMem {n : Int} (h : Numeral w n) : '[' ∉ w := by
  have hdigits {digits : List Char} {n : Nat} (h : Decimal digits n) : '[' ∉ digits :=
    fun hmem => absurd (h.isDigit '[' hmem) (by decide)
  cases h with
  | nonneg h => exact hdigits h
  | neg h => exact List.not_mem_cons_of_ne_of_not_mem (by decide) (hdigits h)

theorem Literal.str_or_isTagWord (hl : l.Plain) :
    (∃ s, l = .str s) ∨ IsTagWord l.tagged.toList := by
  rw [toList_tagged]
  cases l with
  | int n =>
    have hnumeral := Reader.numeral_repr n.toInt
    refine .inr (isTagWord_of_payload ?_ (fun c hc => ?_) (by simp [kind]) (by simp [kind]))
    · exact fun hmem => hnumeral.isWord.not_delimiter ' ' hmem rfl
    · have hmem := List.mem_of_mem_head? hc
      refine ⟨?_, ?_⟩
      · rintro rfl
        exact hnumeral.bracket_notMem hmem
      · rintro rfl
        exact hnumeral.isWord.not_delimiter '"' hmem rfl
  | bool b =>
    refine .inr ?_
    cases b <;> refine isTagWord_of_payload ?_ ?_ ?_ ?_ <;> simp [payload, kind]
  | str s => exact .inl ⟨s, rfl⟩
  | atom name => exact .inr (isTagWord_of_payload hl.1 hl.2 (by simp [kind]) (by simp [kind]))

theorem Literal.tagged_str_append (s : String) (r : List Char) :
    (str s).tagged.toList ++ r = '"' :: (s.toList ++ '"' :: (":str".toList ++ r)) := by
  simp [toList_tagged, payload, kind]

/-- In front of what closes, a tagged literal shows where it ends. -/
theorem Literal.tagged_append_inj (hl : l.Plain) (hl' : l'.Plain) (hr : Closing r)
    (hr' : Closing r') (h : l.tagged.toList ++ r = l'.tagged.toList ++ r') : l = l' ∧ r = r' := by
  rcases str_or_isTagWord hl with ⟨s, rfl⟩ | hword
  · rw [tagged_str_append] at h
    rcases str_or_isTagWord hl' with ⟨s', rfl⟩ | hword'
    · rw [tagged_str_append, List.cons_inj_right, mark_append_inj hl hl', String.toList_inj] at h
      exact ⟨congrArg str h.1, List.append_cancel_left h.2⟩
    · exact absurd h.symm (hword'.append_ne_cons (.inr rfl))
  · rcases str_or_isTagWord hl' with ⟨s', rfl⟩ | hword'
    · rw [tagged_str_append] at h
      exact absurd h (hword.append_ne_cons (.inr rfl))
    · obtain ⟨htagged, hrest⟩ := hword.append_inj hword' hr hr' h
      exact ⟨tagged_inj (String.toList_inj.mp htagged), hrest⟩

/-- No literal begins like a list. -/
theorem Literal.tagged_append_ne_bracket (hl : l.Plain) : l.tagged.toList ++ r ≠ '[' :: t := by
  rcases str_or_isTagWord hl with ⟨s, rfl⟩ | hword
  · rw [tagged_str_append]
    exact nofun
  · exact hword.append_ne_cons (.inl rfl)

/-! ## Expressions -/

namespace Expr

variable {e e' : Expr} {es es' items items' : List Expr}

/-- The elements of a list behind the first one, its end, and what follows it. -/
def behindFirst : List Expr → List Char → List Char
  | [], r => ']' :: r
  | e :: es, r => ' ' :: (e.tagged.toList ++ behindFirst es r)

/-- The elements of a list, its end, and what follows it. -/
def inside : List Expr → List Char → List Char
  | [], r => ']' :: r
  | e :: es, r => e.tagged.toList ++ behindFirst es r

theorem toList_tagged_list (items : List Expr) (r : List Char) :
    (list items).tagged.toList ++ r = '[' :: inside items r := by
  have hitems : (" ".intercalate (items.map tagged)).toList ++ ']' :: r = inside items r := by
    cases items with
    | nil => rfl
    | cons e es =>
      induction es generalizing e with
      | nil => simp [inside, behindFirst]
      | cons e' es ih =>
        rw [inside, behindFirst, ← inside.eq_2, ← ih, List.map_cons, List.map_cons,
          String.intercalate_cons_cons]
        simp
  simpa using hitems

theorem closing_behindFirst (hr : Closing r) : Closing (behindFirst es r) := by
  cases es with
  | nil => exact .bracket hr
  | cons e es => exact .space

/-- No element begins like what stands behind one. -/
theorem Plain.not_closing (he : e.Plain) : ¬Closing (e.tagged.toList ++ t) := by
  cases he with
  | leaf hl =>
    rw [tagged_leaf]
    rcases Literal.str_or_isTagWord hl with ⟨s, rfl⟩ | hword
    · rw [Literal.tagged_str_append]
      exact nofun
    · exact hword.not_closing
  | list =>
    rw [toList_tagged_list]
    exact nofun

/-- In front of what closes, the tagged text of `e` shows where it ends. -/
def Ends (e : Expr) : Prop := ∀ {e' : Expr} {r r' : List Char}, e'.Plain → Closing r → Closing r' →
  e.tagged.toList ++ r = e'.tagged.toList ++ r' → e = e' ∧ r = r'

theorem behindFirst_inj (hes : ∀ e ∈ es, e.Ends) (hes' : ∀ e ∈ es', e.Plain) (hr : Closing r)
    (hr' : Closing r') (h : behindFirst es r = behindFirst es' r') : es = es' ∧ r = r' := by
  induction es generalizing es' with
  | nil =>
    cases es' with
    | nil => exact ⟨rfl, (List.cons.inj h).2⟩
    | cons e' es' => exact absurd (List.cons.inj h).1 (by decide)
  | cons e es ih =>
    cases es' with
    | nil => exact absurd (List.cons.inj h).1 (by decide)
    | cons e' es' =>
      obtain ⟨he, hmore⟩ := List.forall_mem_cons.mp hes
      obtain ⟨he', hmore'⟩ := List.forall_mem_cons.mp hes'
      obtain ⟨rfl, hbehind⟩ :=
        he he' (closing_behindFirst hr) (closing_behindFirst hr') (List.cons.inj h).2
      obtain ⟨rfl, hrest⟩ := ih hmore hmore' hbehind
      exact ⟨rfl, hrest⟩

theorem inside_inj (hitems : ∀ e ∈ items, e.Plain ∧ e.Ends) (hitems' : ∀ e ∈ items', e.Plain)
    (hr : Closing r) (hr' : Closing r') (h : inside items r = inside items' r') :
    items = items' ∧ r = r' := by
  cases items with
  | nil =>
    cases items' with
    | nil => exact ⟨rfl, (List.cons.inj h).2⟩
    | cons e' es' =>
      have hclosing : Closing (inside (e' :: es') r') := h ▸ .bracket hr
      exact absurd hclosing (hitems' e' List.mem_cons_self).not_closing
  | cons e es =>
    obtain ⟨⟨he, hends⟩, hes⟩ := List.forall_mem_cons.mp hitems
    cases items' with
    | nil =>
      have hclosing : Closing (inside (e :: es) r) := h ▸ .bracket hr'
      exact absurd hclosing he.not_closing
    | cons e' es' =>
      obtain ⟨he', hes'⟩ := List.forall_mem_cons.mp hitems'
      obtain ⟨rfl, hbehind⟩ := hends he' (closing_behindFirst hr) (closing_behindFirst hr') h
      obtain ⟨rfl, hrest⟩ := behindFirst_inj (fun e he => (hes e he).2) hes' hr hr' hbehind
      exact ⟨rfl, hrest⟩

theorem Plain.ends (he : e.Plain) : e.Ends := by
  induction he with
  | leaf hl =>
    intro e' r r' he' hr hr' h
    rw [tagged_leaf] at h
    cases he' with
    | leaf hl' =>
      rw [tagged_leaf] at h
      obtain ⟨hl, hrest⟩ := Literal.tagged_append_inj hl hl' hr hr' h
      exact ⟨congrArg Expr.leaf hl, hrest⟩
    | list =>
      rw [toList_tagged_list] at h
      exact absurd h (Literal.tagged_append_ne_bracket hl)
  | list hitems ih =>
    intro e' r r' he' hr hr' h
    rw [toList_tagged_list] at h
    cases he' with
    | leaf hl' =>
      rw [tagged_leaf] at h
      exact absurd h.symm (Literal.tagged_append_ne_bracket hl')
    | list hitems' =>
      rw [toList_tagged_list] at h
      obtain ⟨hlists, hrest⟩ := inside_inj (fun e he => ⟨hitems e he, ih e he⟩) hitems' hr hr'
        (List.cons.inj h).2
      exact ⟨congrArg Expr.list hlists, hrest⟩

/-- Plain expressions with one tagged text are the same. -/
theorem tagged_unambiguous (he : e.Plain) (he' : e'.Plain) (h : e.tagged = e'.tagged) : e = e' := by
  have htexts : e.tagged.toList ++ [] = e'.tagged.toList ++ [] := by rw [h]
  exact (he.ends he' .nil .nil htexts).1

/-- Atoms may look like a closing bracket or like a tagged literal, and a string like the end of one
list and the beginning of the next. -/
theorem tagged_unambiguous_bracket :
    Plain (list [.atom "]", .atom "1:int", .str "a] [b", unit]) ∧
    (list [.atom "]", .atom "1:int", .str "a] [b", unit]).tagged =
      "[]:atom 1:int:atom \"a] [b\":str []]" ∧
    (call "]" [.atom "1:int", .str "a] [b", unit]).tagged =
      "[]:atom 1:int:atom \"a] [b\":str []]" ∧
    list [.atom "]", .atom "1:int", .str "a] [b", unit] =
      call "]" [.atom "1:int", .str "a] [b", unit] := by
  have hplain : Plain (list [.atom "]", .atom "1:int", .str "a] [b", unit]) := by
    refine .list ?_
    simp only [List.forall_mem_cons]
    exact ⟨.leaf (by simp [Literal.Plain]), .leaf (by simp [Literal.Plain]),
      .leaf (by simp [Literal.Plain]), .list (List.forall_mem_nil _), List.forall_mem_nil _⟩
  have htext : (list [.atom "]", .atom "1:int", .str "a] [b", unit]).tagged =
      "[]:atom 1:int:atom \"a] [b\":str []]" := by cbv
  exact ⟨hplain, htext, htext, tagged_unambiguous hplain hplain (htext.trans htext.symm)⟩

/-- A space in an atom can make it look like two. -/
example : (list [.atom "a:atom b"]).tagged = (list [.atom "a", .atom "b"]).tagged := by cbv

end Expr

end Curried
