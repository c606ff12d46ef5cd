import Curried.Eval.Closure
import Curried.Eval.Registry
import Curried.Expr.Tagged

/-!
Evaluation. Literals are their own values. A curried call is taken as one call of its innermost
head to its whole spine: the head's function is found, its closure is given the arguments, and the
result is asked for. `Registry.eval_eq` says that the answer to a question about an argument is the
argument's value.
-/

namespace Curried.Registry

/-- The error of a call whose head is no name. -/
def notCallable (head : Value) : EvalError := .notAFunction head.quote.tagged

/-- The value of an expression in terms of the values of its arguments. -/
def evalAsking (R : Registry) (e : Expr) : Ask Expr Result Result :=
  match e.form with
  | .value v => .done (.ok v)
  | .misapplied head _ => .done (.error (notCallable head))
  | .call name args =>
    match R.resolve name args with
    | .ok f => Closure.call f args
    | .error e => .done (.error e)

/-- Only arguments of an expression are asked about. -/
theorem all_evalAsking (R : Registry) (e : Expr) :
    (R.evalAsking e).All (sizeOf · < sizeOf e) := by
  unfold evalAsking
  split
  · trivial
  · trivial
  · rename_i name args hf
    split
    · refine (Closure.all_call _ args).mono (fun a ha => ?_) fun _ _ => trivial
      exact Expr.sizeOf_lt_of_mem_form (by simpa [hf, Expr.Form.args] using ha)
    · trivial

def eval (R : Registry) : Expr → Result := Ask.solve sizeOf R.evalAsking R.all_evalAsking

theorem eval_eq (R : Registry) (e : Expr) : R.eval e = (R.evalAsking e).run R.eval :=
  Ask.solve_eq R.evalAsking R.all_evalAsking e

section

variable {R : Registry} {e : Expr} {name : String} {args : List Expr}

theorem eval_value {v : Value} (h : e.form = .value v) : R.eval e = .ok v := by
  rw [eval_eq, evalAsking, h]
  rfl

theorem eval_misapplied {head : Value} (h : e.form = .misapplied head args) :
    R.eval e = .error (notCallable head) := by
  rw [eval_eq, evalAsking, h]
  rfl

theorem evalAsking_call {f : Function} (h : e.form = .call name args)
    (hf : R.resolve name args = .ok f) : R.evalAsking e = Closure.call f args := by
  rw [evalAsking, h]
  dsimp only
  rw [hf]

theorem eval_call {f : Function} (h : e.form = .call name args)
    (hf : R.resolve name args = .ok f) : R.eval e = (Closure.call f args).run R.eval := by
  rw [eval_eq, evalAsking_call h hf]

theorem eval_call_error {err : EvalError} (h : e.form = .call name args)
    (hf : R.resolve name args = .error err) : R.eval e = .error err := by
  rw [eval_eq, evalAsking, h]
  dsimp only
  rw [hf]
  rfl

end

def evalTo (R : Registry) (e : Expr) (expected : Ty) : Result :=
  R.eval e >>= (·.require expected)

/-- The value of an expression as an argument for a parameter. -/
def evalAs (R : Registry) (e : Expr) (p : Param) : Except EvalError p.Carrier :=
  p.receive (R.eval e)

/-- The closure that an expression denotes when the call is not finished: an atom names a function
without arguments, and a call gives its arguments to its head. -/
def callable (R : Registry) (e : Expr) : Except EvalError Closure :=
  match e, e.form with
  | .leaf (.atom name), _ => (R.resolve name []).map Closure.new
  | _, .value v => .error (notCallable v)
  | _, .misapplied head _ => .error (notCallable head)
  | _, .call name args => do
    let f ← R.resolve name args
    ((Closure.new f).applyAll args).run R.eval

end Curried.Registry
