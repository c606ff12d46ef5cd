import Curried.Value

/-!
Curried calls. The head of a call may be a call itself, as in `((f a) b)`; such an expression is
taken as one call of its innermost head to all the arguments on the way out, its spine. `Expr.form`
sorts expressions by what that head is.
-/

namespace Curried.Expr

/-- Goes down from a call to its head while that is a call, collecting argument groups in `outer`,
the innermost first. -/
def peel : Expr → (outer : List (List Expr)) → Expr × List (List Expr)
  | list (list (head :: own) :: args), outer => peel (list (head :: own)) (args :: outer)
  | e, outer => (e, outer)

/-- The innermost call `(f a)` of a curried call `((f a) b)`, and the argument groups around it,
the innermost first. Any other expression is its own innermost call. -/
def innermost (e : Expr) : Expr × List (List Expr) := e.peel []

/-- The forms of expressions, curried calls taken as one. -/
inductive Form where
  /-- A literal or the unit. -/
  | value (v : Value)
  | call (name : String) (args : List Expr)
  /-- A list whose innermost head can name no function. -/
  | misapplied (head : Value) (args : List Expr)

/-- The form of an expression that is applied to the arguments `after`. -/
def formBefore : Expr → (after : List Expr) → Form
  | leaf l, _ => .value l.value
  | list [], _ => .value .unit
  | list (leaf (.atom name) :: own), after => .call name (own ++ after)
  | list (leaf l :: own), after => .misapplied l.value (own ++ after)
  | list (list [] :: own), after => .misapplied .unit (own ++ after)
  | list (list (head :: own) :: args), after => formBefore (list (head :: own)) (args ++ after)

def form (e : Expr) : Form := e.formBefore []

def Form.args : Form → List Expr
  | value _ => []
  | call _ args => args
  | misapplied _ args => args

private theorem sizeOf_lt_of_mem_tail {e head : Expr} {args : List Expr} (h : e ∈ args) :
    sizeOf e < sizeOf (list (head :: args)) :=
  sizeOf_lt_of_mem (List.mem_cons_of_mem _ h)

private theorem sizeOf_lt_of_mem_formBefore (e : Expr) (after : List Expr) {a : Expr}
    (h : a ∈ (e.formBefore after).args) : a ∈ after ∨ sizeOf a < sizeOf e := by
  fun_induction formBefore e after with
  | case1 | case2 => simp [Form.args] at h
  | case3 | case4 | case5 =>
    rcases List.mem_append.1 h with h | h
    · exact .inr (sizeOf_lt_of_mem_tail h)
    · exact .inl h
  | case6 head own args after ih =>
    rcases ih h with h | h
    · rcases List.mem_append.1 h with h | h
      · exact .inr (sizeOf_lt_of_mem_tail h)
      · exact .inl h
    · exact .inr (Nat.lt_trans h (sizeOf_lt_of_mem (List.mem_cons_self ..)))

/-- The arguments of an expression are smaller than it. -/
theorem sizeOf_lt_of_mem_form {e a : Expr} (h : a ∈ e.form.args) : sizeOf a < sizeOf e :=
  (sizeOf_lt_of_mem_formBefore e [] h).resolve_left List.not_mem_nil

end Curried.Expr
