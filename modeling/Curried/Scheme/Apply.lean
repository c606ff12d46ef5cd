import Curried.Scheme.Basic
import Curried.Ty.Bind

/-!
The type of an application. Function and argument are renamed apart, the parameter is bound to the
argument, and what stays open in the result is quantified again. The supply of fresh variables is
threaded through, also through applications that fail.
-/

namespace Curried

/-- Why an expression has no type. -/
inductive TypeError where
  | unknownFunction (name : String)
  | notAFunction (found : Scheme)
  | mismatch (cause : BindError)
  /-- Every overload refused the arguments; `first` is what the first one said. -/
  | noMatchingOverload (name : String) (first : TypeError)
  deriving DecidableEq

def TypeError.message : TypeError → String
  | unknownFunction name => "unknown function `" ++ name ++ "`"
  | notAFunction found => "`" ++ found.display ++ "` is not a function type"
  | mismatch cause => cause.message
  | noMatchingOverload name first =>
    "no overload of `" ++ name ++ "` accepts these arguments: " ++ first.message

namespace Scheme

/-- The type of a function of type `f` applied to an argument of type `x`, where the two share no
variable. -/
def applyApart (f x : Scheme) : Except TypeError Scheme :=
  match f.ty with
  | .arrow domain codomain =>
    match domain.bind x.ty with
    | .ok σ => .ok ⟨codomain.substitute σ⟩
    | .error e => .error (.mismatch e)
  | _ => .error (.notAFunction f)

/-- The type of a function of type `f` applied to an argument of type `x`. -/
def apply (f x : Scheme) (s : Supply) : Except TypeError Scheme × Supply :=
  let (f, s) := f.instantiate s
  let (x, s) := x.instantiate s
  (f.applyApart x, s)

def applyAll (f : Scheme) : List Scheme → Supply → Except TypeError Scheme × Supply
  | [], s => (.ok f, s)
  | x :: xs, s =>
    match f.apply x s with
    | (.ok r, s) => r.applyAll xs s
    | (.error e, s) => (.error e, s)

end Scheme

end Curried
