import Curried.Eval.Function

/-!
Closures: functions together with the arguments that they were given so far. An eager function
evaluates each argument as it arrives, to the type of its parameter; a lazy one keeps the
expression.
-/

namespace Curried

structure Closure where
  function : Function
  /-- The arguments in the order of application. -/
  filled : List function.body.Arg

/-- The result of a function that has all its arguments. -/
def Function.run : (f : Function) → List f.body.Arg → Ask Expr Result Result
  | ⟨_, _, .eager native⟩, values => .done (native.call values)
  | ⟨_, _, .lazy run⟩, nodes => (run nodes).mapQuestions fun i => nodes[i]

namespace Closure

def new (f : Function) : Closure := ⟨f, []⟩

inductive State where
  | unfilled (filled : Nat)
  | total
  deriving DecidableEq

def state (c : Closure) : State :=
  if c.filled.length < c.function.arity then .unfilled c.filled.length else .total

/-- The error of a closure that has no use for one more argument. -/
def saturated (c : Closure) : EvalError :=
  .arityMismatch c.function.name c.function.arity (c.filled.length + 1)

/-- The closure with one more argument. It asks for the value of an eager function's argument. -/
def apply (c : Closure) (node : Expr) : Ask Expr Result (Except EvalError Closure) :=
  match c with
  | ⟨⟨name, signature, .eager native⟩, values⟩ =>
    match native.params[values.length]? with
    | none => .done (.error c.saturated)
    | some p => .ask node fun r =>
      match r with
      | .error e => .done (.error e)
      | .ok v =>
        match v.require p.ty with
        | .error e => .done (.error e)
        | .ok v => .done (.ok ⟨⟨name, signature, .eager native⟩, values ++ [v]⟩)
  | ⟨⟨name, signature, .lazy run⟩, nodes⟩ =>
    if nodes.length < signature.arity then
      .done (.ok ⟨⟨name, signature, .lazy run⟩, nodes ++ [node]⟩)
    else .done (.error c.saturated)

def applyAll (c : Closure) : List Expr → Ask Expr Result (Except EvalError Closure)
  | [] => .done (.ok c)
  | node :: nodes => (c.apply node).bind fun
    | .ok c => c.applyAll nodes
    | .error e => .done (.error e)

/-- The result of a closure, whose function must have all its arguments. -/
def result (c : Closure) : Ask Expr Result Result :=
  if c.filled.length = c.function.arity then c.function.run c.filled
  else .done (.error (.arityMismatch c.function.name c.function.arity c.filled.length))

/-- The result of a function for a list of arguments. -/
def call (f : Function) (args : List Expr) : Ask Expr Result Result :=
  ((new f).applyAll args).bind fun
    | .ok c => c.result
    | .error e => .done (.error e)

def nodes : Closure → List Expr
  | ⟨⟨_, _, .eager _⟩, _⟩ => []
  | ⟨⟨_, _, .lazy _⟩, nodes⟩ => nodes

private theorem within_apply {P : Expr → Prop} (c : Closure) (hc : ∀ e ∈ c.nodes, P e)
    {node : Expr} (hn : P node) :
    (c.apply node).Within P fun r => ∀ c', r = .ok c' → ∀ e ∈ c'.nodes, P e := by
  obtain ⟨⟨name, signature, native | run⟩, filled⟩ := c <;> simp only [apply]
  · split
    · simp [Ask.Within]
    · refine ⟨hn, fun r => ?_⟩
      dsimp only
      split
      · simp [Ask.Within]
      · split <;> simp +contextual [Ask.Within, nodes]
  · split <;> simp +contextual [Ask.Within, nodes]
    simpa [nodes, or_imp, forall_and, hn] using hc

private theorem within_applyAll {P : Expr → Prop} (args : List Expr) (hargs : ∀ e ∈ args, P e)
    (c : Closure) (hc : ∀ e ∈ c.nodes, P e) :
    (c.applyAll args).Within P fun r => ∀ c', r = .ok c' → ∀ e ∈ c'.nodes, P e := by
  induction args generalizing c with
  | nil => rintro c' ⟨⟩; exact hc
  | cons node args ih =>
    refine (within_apply c hc (hargs node (List.mem_cons_self ..))).bind fun r hr => ?_
    split
    · exact ih (fun e he => hargs e (List.mem_cons_of_mem _ he)) _ (hr _ rfl)
    · simp [Ask.Within]

private theorem all_result {P : Expr → Prop} (c : Closure) (hc : ∀ e ∈ c.nodes, P e) :
    c.result.All P := by
  unfold result
  split
  · obtain ⟨⟨name, signature, native | run⟩, filled⟩ := c
    · trivial
    · exact Ask.all_mapQuestions (fun i => hc _ (List.getElem_mem _)) _
  · trivial

/-- A call asks for the values of its arguments only. -/
theorem all_call (f : Function) (args : List Expr) : (call f args).All (· ∈ args) := by
  have hnew : ∀ e ∈ (new f).nodes, e ∈ args := by
    obtain ⟨name, signature, native | run⟩ := f <;> simp [new, nodes]
  refine (within_applyAll args (fun _ h => h) _ hnew).bind fun r hr => ?_
  split
  · exact all_result _ (hr _ rfl)
  · trivial

end Closure

end Curried
