import Curried.Eval.Basic

/-!
Closures in use. A pool holds the closures that were made so far, numbered in this order. A request
makes a closure, copies one, gives one an argument in its place, or asks one for its result.
-/

namespace Curried

/-- Gives the closure at hand one more argument, in its place. -/
def Closure.fill (R : Registry) (node : Expr) : ExceptT EvalError (StateM Closure) Unit := do
  let c ← get
  if c.function.arity ≤ c.filled.length then throw c.saturated
  match c with
  | ⟨⟨name, signature, .eager native⟩, values⟩ =>
    let v ← match native.params[values.length]? with
      | some p => R.evalTo node p.ty
      | none => R.eval node
    set (⟨⟨name, signature, .eager native⟩, values ++ [v]⟩ : Closure)
  | ⟨⟨name, signature, .lazy run⟩, nodes⟩ =>
    set (⟨⟨name, signature, .lazy run⟩, nodes ++ [node]⟩ : Closure)

abbrev Pool := List Closure

namespace Pool

inductive Request where
  | new (f : Function)
  | clone (id : Nat)
  | apply (id : Nat) (node : Expr)
  | result (id : Nat)

inductive Reply where
  /-- The number of the closure that was made. -/
  | made (id : Nat)
  | applied (outcome : Except EvalError Unit)
  | returned (result : Result)
  /-- No closure has the number that the request gives. -/
  | missing

/-- The reply to a request, and the pool that it leaves. -/
def answer (R : Registry) (pool : Pool) : Request → Reply × Pool
  | .new f => (.made pool.length, pool ++ [.new f])
  | .clone id =>
    match pool[id]? with
    | some c => (.made pool.length, pool ++ [c])
    | none => (.missing, pool)
  | .apply id node =>
    match pool[id]? with
    | some c =>
      let (outcome, c) := (Closure.fill R node).run.run c
      (.applied outcome, pool.set id c)
    | none => (.missing, pool)
  | .result id =>
    match pool[id]? with
    | some c => (.returned (c.result.run R.eval), pool)
    | none => (.missing, pool)

end Pool

end Curried
