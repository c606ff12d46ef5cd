import Mathlib.Data.List.Forall2
import Curried.Expr.Spine

/-!
Expressions as trees of curried calls: induction on the arguments of the forms, the expressions that
occur in another one as an argument at some depth, and forms that differ in their arguments only.
-/

namespace Curried.Expr

/-- Induction that may suppose the statement for every argument of a curried call. -/
theorem argInduction {P : Expr → Prop} (step : ∀ e, (∀ a ∈ e.form.args, P a) → P e) (e : Expr) :
    P e := by
  generalize hn : sizeOf e = n
  induction n using Nat.strongRecOn generalizing e with
  | ind n ih => exact step e fun a ha => ih _ (hn ▸ sizeOf_lt_of_mem_form ha) a rfl

/-- Induction on the arguments of curried calls. -/
theorem formInduction {P : Expr → Prop}
    (value : ∀ e v, e.form = .value v → P e)
    (call : ∀ e name args, e.form = .call name args → (∀ a ∈ args, P a) → P e)
    (misapplied : ∀ e head args, e.form = .misapplied head args → (∀ a ∈ args, P a) → P e)
    (e : Expr) : P e := by
  induction e using argInduction with
  | step e ih =>
    cases hf : e.form with
    | value v => exact value e v hf
    | call name args => exact call e name args hf (by simpa [hf, Form.args] using ih)
    | misapplied head args => exact misapplied e head args hf (by simpa [hf, Form.args] using ih)

/-- `Occurs a e`: `a` is `e` itself, or stands in an argument position of `e` at some depth. -/
inductive Occurs : Expr → Expr → Prop where
  | whole : Occurs e e
  | argument : Occurs b a → a ∈ e.form.args → Occurs b e

theorem Occurs.trans {a b c : Expr} (h : Occurs a b) (h' : Occurs b c) : Occurs a c := by
  induction h' with
  | whole => exact h
  | argument _ hmem ih => exact .argument ih hmem

/-! ## Forms with related arguments -/

/-- The forms are the same but for their arguments, which are related by `R` one by one. -/
inductive Form.Alike (R : Expr → Expr → Prop) : Form → Form → Prop where
  | value : Alike R (value v) (value v)
  | call {as bs : List Expr} : List.Forall₂ R as bs → Alike R (call name as) (call name bs)
  | misapplied {as bs : List Expr} : List.Forall₂ R as bs →
    Alike R (misapplied head as) (misapplied head bs)

variable {R S : Expr → Expr → Prop} {F F' : Form} {head : Expr}
  {args args' after after' : List Expr}

theorem Form.Alike.imp (h : Alike R F F') (hRS : ∀ a ∈ F.args, ∀ b, R a b → S a b) :
    Alike S F F' := by
  have hargs {as bs : List Expr} (h : List.Forall₂ R as bs)
      (hRS : ∀ a ∈ as, ∀ b, R a b → S a b) : List.Forall₂ S as bs :=
    ((List.forall₂_and_left as bs).mpr ⟨hRS, h⟩).imp fun _ b ⟨hS, hR⟩ => hS b hR
  cases h with
  | value => exact .value
  | call h => exact .call (hargs h hRS)
  | misapplied h => exact .misapplied (hargs h hRS)

theorem Form.alike_refl (hR : ∀ a ∈ F.args, R a a) : Alike R F F := by
  cases F with
  | value v => exact .value
  | call name as => exact .call (List.forall₂_same.mpr hR)
  | misapplied head as => exact .misapplied (List.forall₂_same.mpr hR)

theorem forall₂_append_left {as bs : List Expr} (hR : ∀ a, R a a) (own : List Expr)
    (h : List.Forall₂ R as bs) : List.Forall₂ R (own ++ as) (own ++ bs) :=
  List.rel_append (List.forall₂_same.mpr fun a _ => hR a) h

/-- A call as the head of another one takes the arguments of that behind its own. -/
theorem formBefore_curried (h : head.split?.isSome) (args after : List Expr) :
    (list (head :: args)).formBefore after = head.formBefore (args ++ after) := by
  match head, h with
  | list (_ :: _), _ => rw [formBefore]

theorem formBefore_alike (hR : ∀ a, R a a) (e : Expr) (h : List.Forall₂ R after after') :
    Form.Alike R (e.formBefore after) (e.formBefore after') := by
  fun_induction formBefore e after generalizing after' with
  | case1 => exact .value
  | case2 => exact .value
  | case3 => exact .call (forall₂_append_left hR _ h)
  | case4 l own after hl =>
    rw [formBefore]
    · exact .misapplied (forall₂_append_left hR own h)
    · exact hl
  | case5 => exact .misapplied (forall₂_append_left hR _ h)
  | case6 head own args after ih =>
    rw [formBefore]
    exact ih (forall₂_append_left hR _ h)

theorem formBefore_list_alike (hR : ∀ a, R a a) (head : Expr) (hargs : List.Forall₂ R args args')
    (hafter : List.Forall₂ R after after') :
    Form.Alike R ((list (head :: args)).formBefore after)
      ((list (head :: args')).formBefore after') := by
  have h : List.Forall₂ R (args ++ after) (args' ++ after') := List.rel_append hargs hafter
  match head with
  | leaf (.atom name) => exact .call h
  | leaf (.int n) | leaf (.bool b) | leaf (.str s) => exact .misapplied h
  | list [] => exact .misapplied h
  | list (first :: own) =>
    rw [formBefore, formBefore]
    exact formBefore_alike hR _ h

end Curried.Expr
