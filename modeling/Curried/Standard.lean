import Curried.Eval.Registry

/-!
The standard functions: arithmetic and comparison of integers, logic, strings, and the polymorphic
functions, of which `if` is lazy in its branches.
-/

namespace Curried.Standard

/-- The type of an operation on two operands of one type. -/
def binary (operand result : Ty) : Ty := .function [operand, operand] result

def exact (operation : String) (n : Int) : Result :=
  match Word.ofInt? n with
  | some n => .ok (.int n)
  | none => .error (.integerOverflow operation)

def add (a b : Word) : Result := exact "+" (a.toInt + b.toInt)

def sub (a b : Word) : Result := exact "-" (a.toInt - b.toInt)

def mul (a b : Word) : Result := exact "*" (a.toInt * b.toInt)

/-- The quotient, rounded toward zero. -/
def div (a b : Word) : Result :=
  if b = 0 then .error .divisionByZero else exact "/" (a.toInt.tdiv b.toInt)

/-- The remainder that goes with `div`, which exists only where the quotient does. -/
def rem (a b : Word) : Result :=
  if b = 0 then .error .divisionByZero
  else match exact "%" (a.toInt.tdiv b.toInt) with
    | .error e => .error e
    | .ok _ => exact "%" (a.toInt.tmod b.toInt)

def ints (name : String) (result : Ty) (body : Word → Word → Result) : Function :=
  .eager name (binary .int result) ⟨[.int, .int], body⟩

def bools (name : String) (body : Bool → Bool → Bool) : Function :=
  .eager name (binary .bool .bool) ⟨[.bool, .bool], fun a b => .ok (.bool (body a b))⟩

def strs (name : String) (result : Ty) (body : String → String → Value) : Function :=
  .eager name (binary .string result) ⟨[.str, .str], fun a b => .ok (body a b)⟩

def comparison (name : String) (holds : Int → Int → Bool) : Function :=
  ints name .bool fun a b => .ok (.bool (holds a.toInt b.toInt))

/-- Evaluates the condition, then the branch that it picks, and no other. -/
def choice : (nodes : List Expr) → Ask (Fin nodes.length) Result Result
  | [_, _, _] => .ask ⟨0, by simp⟩ fun r =>
    match Param.bool.receive r with
    | .ok true => .ask ⟨1, by simp⟩ .done
    | .ok false => .ask ⟨2, by simp⟩ .done
    | .error e => .done (.error e)
  | nodes => .done (.error (.arityMismatch "if" 3 nodes.length))

def arithmetic : List Function := [
  ints "+" .int add, ints "-" .int sub, ints "*" .int mul, ints "/" .int div, ints "%" .int rem]

def comparisons : List Function := [
  comparison "==" (· == ·),
  comparison "<=" (decide <| · ≤ ·),
  comparison ">=" (decide <| · ≥ ·),
  comparison "<" (decide <| · < ·),
  comparison ">" (decide <| · > ·),
  bools "==" (· == ·),
  strs "==" .bool fun a b => .bool (a == b)]

def logic : List Function := [
  .eager "not" (.arrow .bool .bool) ⟨[.bool], fun a => .ok (.bool !a)⟩,
  bools "and" (· && ·),
  bools "or" (· || ·)]

def strings : List Function := [
  strs "+s" .string fun a b => .str (a ++ b),
  strs "+" .string fun a b => .str (a ++ b)]

def polymorphic : List Function := [
  .lazy "if" (.function [.bool, .var 0, .var 0] (.var 0)) choice,
  .eager "return" (.arrow (.var 0) (.var 0)) ⟨[.any], fun v => .ok v⟩,
  .eager "const" (.function [.var 0, .var 1] (.var 0)) ⟨[.any, .any], fun v _ => .ok v⟩]

def functions : List Function := arithmetic ++ comparisons ++ logic ++ strings ++ polymorphic

def registry : Registry := functions.foldl .declare .empty

end Curried.Standard
