import Curried.Proofs.Expr.Form

/-!
Curried calls written out. `Expr.uncurry` makes every curried call `((f a) b)` of an expression the
single call `(f a b)`; what it makes of an expression has the same form, with the arguments
uncurried too (`form_uncurry`).
-/

namespace Curried.Expr

/-- The call of `head` with `args`. A head that is a call takes them behind its own arguments. -/
def applied : (head : Expr) → (args : List Expr) → Expr
  | list (head :: own), args => list (head :: (own ++ args))
  | head, args => list (head :: args)

/-- The expression with every curried call, at any depth, as a single one. -/
def uncurry : Expr → Expr
  | leaf l => leaf l
  | list [] => list []
  | list (head :: args) => head.uncurry.applied (args.map uncurry)

/-- No list in the expression, at any depth, has a call as its head. -/
inductive Uncurried : Expr → Prop where
  | leaf : Uncurried (leaf l)
  | list : (∀ head ∈ items.head?, head.split? = none) → (∀ e ∈ items, Uncurried e) →
    Uncurried (list items)

variable {head : Expr} {args : List Expr}

theorem Uncurried.applied (hhead : head.Uncurried) (hargs : ∀ e ∈ args, Uncurried e) :
    (head.applied args).Uncurried := by
  unfold Expr.applied
  split
  · next head own =>
    cases hhead with
    | list hfirst hitems =>
      refine .list hfirst fun e he => ?_
      rw [← List.cons_append] at he
      exact (List.mem_append.mp he).elim (hitems e) (hargs e)
  · next hcall =>
    refine .list ?_ (List.forall_mem_cons.mpr ⟨hhead, hargs⟩)
    rintro _ ⟨⟩
    match head, hcall with
    | .leaf l, _ => rfl
    | .list [], _ => rfl
    | .list (first :: own), hcall => exact absurd rfl (hcall first own)

theorem uncurried_uncurry (e : Expr) : e.uncurry.Uncurried := by
  induction e using Expr.induction with
  | leaf l =>
    rw [uncurry]
    exact .leaf
  | list items ih =>
    cases items with
    | nil =>
      rw [uncurry]
      exact .list (by simp) (by simp)
    | cons head args =>
      rw [uncurry]
      obtain ⟨hhead, hargs⟩ := List.forall_mem_cons.mp ih
      exact hhead.applied (List.forall_mem_map.mpr hargs)

/-- A call whose head is none may be taken with some of its arguments behind it. -/
theorem formBefore_append (h : head.split? = none) (own args after : List Expr) :
    (list (head :: (own ++ args))).formBefore after =
      (list (head :: own)).formBefore (args ++ after) := by
  match head, h with
  | leaf l, _ => cases l <;> simp [formBefore]
  | list [], _ => simp [formBefore]

theorem formBefore_applied (h : head.Uncurried) (hcall : head.split?.isSome)
    (args after : List Expr) :
    (head.applied args).formBefore after = head.formBefore (args ++ after) := by
  match head, hcall with
  | list (first :: own), _ =>
    cases h with
    | list hfirst _ => exact formBefore_append (hfirst first rfl) own args after

theorem isSome_split?_applied (head : Expr) (args : List Expr) :
    (head.applied args).split?.isSome := by
  unfold applied
  split <;> rfl

private theorem formBefore_uncurry {after after' : List Expr} (e : Expr)
    (h : List.Forall₂ (fun a b => a.uncurry = b) after after') :
    Form.Alike (fun a b => a.uncurry = b) (e.formBefore after) (e.uncurry.formBefore after') := by
  have happend (own : List Expr) {as bs : List Expr}
      (h : List.Forall₂ (fun a b => a.uncurry = b) as bs) :
      List.Forall₂ (fun a b => a.uncurry = b) (own ++ as) (own.map uncurry ++ bs) :=
    List.rel_append (List.forall₂_map_right_iff.mpr (List.forall₂_same.mpr fun _ _ => rfl)) h
  fun_induction formBefore e after generalizing after' with
  | case1 => rw [uncurry]; exact .value
  | case2 => rw [uncurry]; exact .value
  | case3 name own after =>
    rw [uncurry, uncurry, applied]
    · exact .call (happend own h)
    · simp
  | case4 l own after hl =>
    rw [uncurry, uncurry, applied]
    · rw [formBefore]
      · exact .misapplied (happend own h)
      · exact hl
    · simp
  | case5 own after =>
    rw [uncurry, uncurry, applied]
    · exact .misapplied (happend own h)
    · simp
  | case6 head own args after ih =>
    -- The head is a call, which takes the arguments around it behind its own.
    have hcall : (list (head :: own)).uncurry.split?.isSome := by
      rw [uncurry]
      exact isSome_split?_applied _ _
    rw [uncurry, formBefore_applied (uncurried_uncurry _) hcall]
    exact ih (happend args h)

/-- Uncurrying keeps what is called, and uncurries the arguments. -/
theorem form_uncurry (e : Expr) : Form.Alike (fun a b => a.uncurry = b) e.form e.uncurry.form :=
  formBefore_uncurry e .nil

end Curried.Expr
