import Curried.Expr.Events

/-!
The tagged text of an expression: every literal as `payload:kind`, every list in brackets with a
single space between elements. It is written along the walk; `Expr.tagged_list` states the form.
-/

namespace Curried

/-- A tagged text in the making. -/
structure Tagging where
  written : String
  /-- Whether the text ends with an element, so that a space comes before the next one. -/
  afterItem : Bool

namespace Tagging

def begin (t : Tagging) (text : String) (afterItem : Bool) : Tagging :=
  match t with
  | ⟨written, true⟩ => ⟨written ++ " " ++ text, afterItem⟩
  | ⟨written, false⟩ => ⟨written ++ text, afterItem⟩

def record (t : Tagging) : Event → Tagging
  | .leaf l => t.begin l.tagged true
  | .enter => t.begin "[" false
  | .leave => match t with
    | ⟨written, _⟩ => ⟨written ++ "]", true⟩

end Tagging

namespace Expr

/-- An expression as `tag:kind` words, for instance `[+:atom 1:int 2:int]`. -/
def tagged (e : Expr) : String :=
  (e.events.foldl Tagging.record ⟨"", false⟩).written

private theorem foldl_record_flatMap {items : List Expr}
    (ih : ∀ e ∈ items, ∀ t : Tagging, e.events.foldl Tagging.record t = t.begin e.tagged true)
    (written : String) :
    (items.flatMap events).foldl Tagging.record ⟨written, true⟩ =
      ⟨written ++ String.join (items.map fun e => " " ++ e.tagged), true⟩ := by
  induction items generalizing written with
  | nil => simp
  | cons e items ihi =>
    rw [List.flatMap_cons, List.foldl_append, ih e (List.mem_cons_self ..), Tagging.begin,
      ihi fun e he => ih e (List.mem_cons_of_mem _ he)]
    simp [String.append_assoc]

private theorem intercalate_eq_join (s : String) (l : List String) :
    " ".intercalate (s :: l) = s ++ String.join (l.map fun t => " " ++ t) := by
  induction l generalizing s with
  | nil => simp
  | cons t l ih => rw [String.intercalate_cons_cons, ih]; simp [String.append_assoc]

private theorem foldl_record_inside {items : List Expr}
    (ih : ∀ e ∈ items, ∀ t : Tagging, e.events.foldl Tagging.record t = t.begin e.tagged true)
    (written : String) :
    ∃ b, (items.flatMap events).foldl Tagging.record ⟨written, false⟩ =
      ⟨written ++ " ".intercalate (items.map tagged), b⟩ := by
  cases items with
  | nil => exact ⟨false, by simp⟩
  | cons e items =>
    refine ⟨true, ?_⟩
    rw [List.flatMap_cons, List.foldl_append, ih e (List.mem_cons_self ..), Tagging.begin,
      foldl_record_flatMap fun e he => ih e (List.mem_cons_of_mem _ he), List.map_cons,
      intercalate_eq_join, List.map_map, String.append_assoc]
    rfl

private theorem foldl_record_list {items : List Expr}
    (ih : ∀ e ∈ items, ∀ t : Tagging, e.events.foldl Tagging.record t = t.begin e.tagged true)
    (t : Tagging) :
    (list items).events.foldl Tagging.record t =
      t.begin ("[" ++ " ".intercalate (items.map tagged) ++ "]") true := by
  obtain ⟨written, _ | _⟩ := t <;>
    simp only [events_list, List.cons_append, List.foldl_cons, List.foldl_append, List.foldl_nil,
      Tagging.record, Tagging.begin]
  · obtain ⟨b, h⟩ := foldl_record_inside ih (written ++ "[")
    rw [h]
    simp only [String.append_assoc]
  · obtain ⟨b, h⟩ := foldl_record_inside ih (written ++ " " ++ "[")
    rw [h]
    simp only [String.append_assoc]

private theorem foldl_record (e : Expr) (t : Tagging) :
    e.events.foldl Tagging.record t = t.begin e.tagged true := by
  induction e using Expr.induction generalizing t with
  | leaf l => simp [tagged, Tagging.record, Tagging.begin]
  | list items ih =>
    have h := foldl_record_list ih
    rw [h, tagged, h]
    simp [Tagging.begin]

@[simp] theorem tagged_leaf (l : Literal) : (leaf l).tagged = l.tagged := by
  simp [tagged, Tagging.record, Tagging.begin]

/-- A list is tagged as its tagged elements, spaced and in brackets. -/
@[simp] theorem tagged_list (items : List Expr) :
    (list items).tagged = "[" ++ " ".intercalate (items.map tagged) ++ "]" := by
  rw [tagged, foldl_record_list fun e _ => foldl_record e]
  simp [Tagging.begin]

end Expr

end Curried
