import Curried.Scheme.Apply
import Curried.Value

/-!
Why an expression has no value.
-/

namespace Curried

inductive EvalError where
  | unknownFunction (name : String)
  /-- A call with too few arguments, or with one too many. -/
  | arityMismatch (name : String) (expected got : Nat)
  | typeMismatch (expected found : String)
  /-- The head of a call can name no function. -/
  | notAFunction (found : String)
  | divisionByZero
  | integerOverflow (operation : String)
  | resolution (cause : TypeError)
  deriving DecidableEq

abbrev Result := Except EvalError Value

namespace EvalError

def arguments (n : Nat) : String := n.repr ++ (if n = 1 then " argument" else " arguments")

def message : EvalError → String
  | unknownFunction name => "unknown function `" ++ name ++ "`"
  | arityMismatch name expected got =>
    if expected < got then
      "`" ++ name ++ "` takes " ++ arguments expected ++ ": no more remaining unfilled arguments"
    else if name.isEmpty then "expected " ++ arguments expected ++ ", got " ++ got.repr
    else "`" ++ name ++ "` expects " ++ arguments expected ++ ", got " ++ got.repr
  | typeMismatch expected found =>
    "expected a `" ++ expected ++ "` expression, found `" ++ found ++ "`"
  | notAFunction found => "`" ++ found ++ "` is not a function"
  | divisionByZero => "division by zero"
  | integerOverflow operation => "integer overflow in `" ++ operation ++ "`"
  | resolution cause => "cannot resolve call: " ++ cause.message

end EvalError

/-- The value itself if a parameter of type `expected` takes it. -/
def Value.require (v : Value) (expected : Ty) : Result :=
  if v.fits expected then .ok v else .error (.typeMismatch expected.display v.typeName)

end Curried
