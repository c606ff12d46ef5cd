import Curried.Eval.Error

/-!
Functions given by Lean functions on evaluated arguments. Each parameter has one of four kinds,
which fixes the values that it takes and the type that they have in Lean.
-/

namespace Curried

inductive Param where
  | int
  | bool
  | str
  | any
  deriving DecidableEq

namespace Param

abbrev Carrier : Param → Type
  | int => Word
  | bool => Bool
  | str => String
  | any => Value

def ty : Param → Ty
  | int => .int
  | bool => .bool
  | str => .string
  | any => .var 0

/-- The argument that a value is for the parameter. -/
def accept : (p : Param) → Value → Except EvalError p.Carrier
  | int, .int n => .ok n
  | bool, .bool b => .ok b
  | str, .str s => .ok s
  | any, v => .ok v
  | int, v => .error (.typeMismatch "Int" v.typeName)
  | bool, v => .error (.typeMismatch "Bool" v.typeName)
  | str, v => .error (.typeMismatch "String" v.typeName)

/-- The argument that a result is for the parameter, provided that it has the parameter's type. -/
def receive (p : Param) (r : Result) : Except EvalError p.Carrier := do
  p.accept (← (← r).require p.ty)

end Param

/-- Functions from arguments for the parameters, one after the other, to a result. -/
def Curry : List Param → Type
  | [] => Result
  | p :: ps => p.Carrier → Curry ps

/-- Gives a function its arguments; `got` of `expected` arguments were there before. Arguments left
over are ignored. -/
def Curry.feed (expected got : Nat) : (ps : List Param) → Curry ps → List Value → Result
  | [], r, _ => r
  | _ :: _, _, [] => .error (.arityMismatch "" expected got)
  | p :: ps, f, v :: vs =>
    match p.accept v with
    | .ok a => feed expected (got + 1) ps (f a) vs
    | .error e => .error e

structure Native where
  params : List Param
  body : Curry params

def Native.call (f : Native) (args : List Value) : Result :=
  f.body.feed f.params.length 0 f.params args

end Curried
