import Curried.Ty.Display

/-!
One-way unification: the variables of a template are bound so that the template fits a given type.
A variable of the given type that stands opposite a constant of the template is bound to that
constant. Each variable is bound at most once, also if a second binding would agree with the first.
-/

namespace Curried

inductive BindError where
  | constMismatch (expected found : Ty)
  | arrowMismatch (expected found : Ty)
  | alreadyBound (v : TyVar) (bound attempted : Ty)
  deriving DecidableEq

def BindError.message : BindError → String
  | constMismatch expected found =>
    "cannot unify `" ++ expected.display ++ "` with `" ++ found.display ++ "`"
  | arrowMismatch expected found =>
    "cannot unify function type `" ++ expected.display ++ "` with `" ++ found.display ++ "`"
  | alreadyBound v bound attempted =>
    "type variable " ++ TyVar.display v ++ " is already bound to `" ++ bound.display ++
      "`, cannot also bind it to `" ++ attempted.display ++ "`"

/-- Binds a variable that has no binding yet. -/
def Subst.bindNew (σ : Subst) (v : TyVar) (t : Ty) : Except BindError Subst :=
  match σ.get? v with
  | some bound => .error (.alreadyBound v bound t)
  | none => .ok (σ.insert v t)

namespace Ty

/-- Adds to `σ` what makes the template fit, going through both types from left to right. -/
def bindInto (σ : Subst) : (template given : Ty) → Except BindError Subst
  | var v, given => σ.bindNew v given
  | const expected, const found =>
    if expected = found then .ok σ else .error (.constMismatch (const expected) (const found))
  | const expected, var v => σ.bindNew v (const expected)
  | const expected, arrow domain codomain =>
    .error (.constMismatch (const expected) (arrow domain codomain))
  | arrow domain codomain, arrow domain' codomain' =>
    match bindInto σ domain domain' with
    | .ok σ => bindInto σ codomain codomain'
    | .error e => .error e
  | arrow domain codomain, given => .error (.arrowMismatch (arrow domain codomain) given)

def bind (template given : Ty) : Except BindError Subst := bindInto .empty template given

end Ty

end Curried
