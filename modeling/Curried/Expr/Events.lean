import Curried.Expr.Basic

/-!
The preorder walk of an expression, kept on a list of what is still to be visited so that nesting
costs no depth of recursion. `Expr.events_list` states it as plain recursion, and equality of
expressions is equality of their walks.
-/

namespace Curried

inductive Event where
  | leaf (l : Literal)
  | enter
  | leave
  deriving DecidableEq

namespace Expr

/-- Walks through `items`, then through what is left of each list around them; `seen` holds the
events met so far, the latest first. -/
def walk : (items : List Expr) → (around : List (List Expr)) → (seen : List Event) → List Event
  | [], [], seen => seen.reverse
  | [], rest :: around, seen => walk rest around (.leave :: seen)
  | leaf l :: items, around, seen => walk items around (.leaf l :: seen)
  | list inner :: items, around, seen => walk inner (items :: around) (.enter :: seen)
termination_by items around => sizeOf items + sizeOf around

/-- The events of the walk through an expression, in order. -/
def events (e : Expr) : List Event := walk [e] [] []

private theorem walk_flatMap {inner : List Expr}
    (ih : ∀ e ∈ inner, ∀ items around seen,
      walk (e :: items) around seen = walk items around (e.events.reverse ++ seen))
    (around : List (List Expr)) (seen : List Event) :
    walk inner around seen = walk [] around ((inner.flatMap events).reverse ++ seen) := by
  induction inner generalizing seen with
  | nil => rfl
  | cons e inner ihi =>
    rw [ih e (List.mem_cons_self ..), ihi fun e he => ih e (List.mem_cons_of_mem _ he)]
    simp

private theorem walk_cons (e : Expr) (items : List Expr) (around : List (List Expr))
    (seen : List Event) :
    walk (e :: items) around seen = walk items around (e.events.reverse ++ seen) := by
  induction e using Expr.induction generalizing items around seen with
  | leaf l => simp [events, walk]
  | list inner ih =>
    have h := walk_flatMap ih
    rw [events, walk, walk, h, h, walk, walk, walk]
    simp

@[simp] theorem events_leaf (l : Literal) : (leaf l).events = [.leaf l] := by
  simp [events, walk]

/-- The walk through a list: enter, walk through the elements in order, leave. -/
@[simp] theorem events_list (items : List Expr) :
    (list items).events = .enter :: items.flatMap events ++ [.leave] := by
  rw [events, walk, walk_flatMap fun e _ => walk_cons e, walk, walk]
  simp

private theorem append_inj_of_events {items items' : List Expr} {r r' : List Event}
    (ih : ∀ e ∈ items, ∀ (e' : Expr) (r r' : List Event),
      e.events ++ r = e'.events ++ r' → e = e' ∧ r = r')
    (h : items.flatMap events ++ .leave :: r = items'.flatMap events ++ .leave :: r') :
    items = items' ∧ r = r' := by
  induction items generalizing items' with
  | nil =>
    cases items' with
    | nil => simpa using h
    | cons e' items' => cases e' <;> simp at h
  | cons e items ihi =>
    cases items' with
    | nil => cases e <;> simp at h
    | cons e' items' =>
      simp only [List.flatMap_cons, List.append_assoc] at h
      obtain ⟨rfl, h'⟩ := ih e (List.mem_cons_self ..) _ _ _ h
      obtain ⟨rfl, rfl⟩ := ihi (fun e he => ih e (List.mem_cons_of_mem _ he)) h'
      exact ⟨rfl, rfl⟩

/-- A walk shows where it ends: what follows it can be told apart. -/
theorem events_append_inj (e e' : Expr) (r r' : List Event)
    (h : e.events ++ r = e'.events ++ r') : e = e' ∧ r = r' := by
  induction e using Expr.induction generalizing e' r r' with
  | leaf l => cases e' <;> simp_all
  | list items ih =>
    cases e' with
    | leaf l => simp at h
    | list items' =>
      simp only [events_list, List.cons_append, List.append_assoc, List.cons.injEq, true_and] at h
      obtain ⟨rfl, rfl⟩ := append_inj_of_events ih h
      exact ⟨rfl, rfl⟩

theorem events_inj {e e' : Expr} : e.events = e'.events ↔ e = e' :=
  ⟨fun h => (events_append_inj e e' [] [] (by rw [h])).1, fun h => h ▸ rfl⟩

instance : BEq Expr := ⟨fun e e' => e.events == e'.events⟩

instance : LawfulBEq Expr where
  eq_of_beq h := events_inj.1 (eq_of_beq h)
  rfl {e} := beq_self_eq_true e.events

instance : DecidableEq Expr := fun e e' => decidable_of_iff (e == e') beq_iff_eq

end Expr

end Curried
