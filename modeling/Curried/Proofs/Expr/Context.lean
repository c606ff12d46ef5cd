import Curried.Proofs.Expr.Form

/-!
Argument positions. A context is an expression with a hole in one of them, at any depth. Expressions
that fill the same context have forms that differ in one argument, where one has the expression in
the hole or fills a smaller context (`ArgContext.form_fill_of`, `ArgContext.form_fill`).
-/

namespace Curried.Expr

/-- An expression with a hole in an argument position. -/
inductive ArgContext where
  /-- The hole is an argument. -/
  | argument (head : Expr) (before after : List Expr)
  /-- The hole is inside an argument. -/
  | inArgument (head : Expr) (before : List Expr) (c : ArgContext) (after : List Expr)
  /-- The hole is an argument of the head, or inside one. -/
  | inHead (c : ArgContext) (args : List Expr)

namespace ArgContext

/-- The expression with `a` in the hole. -/
def fill : ArgContext → Expr → Expr
  | argument head before after, a => list (head :: (before ++ a :: after))
  | inArgument head before c after, a => list (head :: (before ++ c.fill a :: after))
  | inHead c args, a => list (c.fill a :: args)

/-- The argument of the curried call that has the hole, with `a` in the hole. -/
def filler : ArgContext → Expr → Expr
  | argument _ _ _, a => a
  | inArgument _ _ c _, a => c.fill a
  | inHead c _, a => c.filler a

/-- The curried calls inside the outermost one that have the hole, from the outside in. -/
def inner : ArgContext → List ArgContext
  | argument _ _ _ => []
  | inArgument _ _ c _ => c :: c.inner
  | inHead c _ => c.inner

/-- The curried calls around the hole, from the outside in. A call with the hole in its head is one
with that head. -/
def enclosing (c : ArgContext) : List ArgContext := c :: c.inner

/-- Two expressions in the same place: they are equal, or `a` and `b`, or fill the same context with
these two. -/
inductive Swapped (a b : Expr) : Expr → Expr → Prop where
  | same : Swapped a b e e
  | hole : Swapped a b a b
  | fill (c : ArgContext) : Swapped a b (c.fill a) (c.fill b)

variable {S : Expr → Expr → Prop} {a b x y : Expr}

theorem inner_cases (c : ArgContext) : (c.inner = [] ∧ ∀ a, c.filler a = a) ∨
    ∃ c' : ArgContext, c.inner = c'.enclosing ∧ ∀ a, c.filler a = c'.fill a := by
  induction c with
  | argument head before after => exact .inl ⟨rfl, fun _ => rfl⟩
  | inArgument head before c after => exact .inr ⟨c, rfl, fun _ => rfl⟩
  | inHead c args ih => exact ih

theorem swapped_filler (c : ArgContext) (a b : Expr) :
    Swapped a b (c.filler a) (c.filler b) := by
  rcases c.inner_cases with ⟨-, hfiller⟩ | ⟨c', -, hfiller⟩ <;> rw [hfiller, hfiller]
  · exact .hole
  · exact .fill c'

theorem isSome_split?_fill (c : ArgContext) (a : Expr) : (c.fill a).split?.isSome := by
  cases c <;> rfl

private theorem forall₂_swap (hS : ∀ e, S e e) (before after : List Expr) (h : S x y) :
    List.Forall₂ S (before ++ x :: after) (before ++ y :: after) :=
  forall₂_append_left hS before (.cons h (List.forall₂_same.mpr fun e _ => hS e))

private theorem formBefore_fill {after after' : List Expr} (hS : ∀ e, S e e) (c : ArgContext)
    (hc : S (c.filler a) (c.filler b)) (h : List.Forall₂ S after after') :
    Form.Alike S ((c.fill a).formBefore after) ((c.fill b).formBefore after') := by
  induction c generalizing after after' with
  | argument head before rest =>
    exact formBefore_list_alike hS head (forall₂_swap hS before rest hc) h
  | inArgument head before c rest =>
    exact formBefore_list_alike hS head (forall₂_swap hS before rest hc) h
  | inHead c args ih =>
    -- The head is a call, so its hole is an argument of the whole call.
    rw [fill, fill, formBefore_curried (c.isSome_split?_fill a),
      formBefore_curried (c.isSome_split?_fill b)]
    exact ih hc (forall₂_append_left hS args h)

/-- What fills a context shows in the form in one argument only. -/
theorem form_fill_of (hS : ∀ e, S e e) (c : ArgContext) (hc : S (c.filler a) (c.filler b)) :
    Form.Alike S (c.fill a).form (c.fill b).form :=
  formBefore_fill hS c hc .nil

/-- What fills a context does not show in the form but as an argument or inside one. -/
theorem form_fill (c : ArgContext) (a b : Expr) :
    Form.Alike (Swapped a b) (c.fill a).form (c.fill b).form :=
  c.form_fill_of (fun _ => .same) (c.swapped_filler a b)

end ArgContext

end Curried.Expr
