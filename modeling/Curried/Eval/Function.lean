import Curried.Ask
import Curried.Eval.Native

/-!
Functions of a registry. The arguments of an eager function are evaluated as they arrive; a lazy
one gets its arguments as expressions and asks for the values it needs.
-/

namespace Curried

inductive Body where
  | eager (native : Native)
  /-- A lazy function sees its argument expressions and may ask for the value of each. -/
  | lazy (run : (nodes : List Expr) → Ask (Fin nodes.length) Result Result)

/-- What a function keeps of an argument: its value, or for a lazy function the expression. -/
abbrev Body.Arg : Body → Type
  | eager _ => Value
  | lazy _ => Expr

structure Function where
  name : String
  signature : Scheme
  body : Body

namespace Function

/-- An eager function. Its parameters are those of `native`, whatever its signature says. -/
def eager (name : String) (signature : Ty) (native : Native) : Function :=
  ⟨name, ⟨signature⟩, .eager native⟩

/-- A lazy function, with as many parameters as its signature has. -/
def lazy (name : String) (signature : Ty)
    (run : (nodes : List Expr) → Ask (Fin nodes.length) Result Result) : Function :=
  ⟨name, ⟨signature⟩, .lazy run⟩

def arity (f : Function) : Nat :=
  match f.body with
  | .eager native => native.params.length
  | .lazy _ => f.signature.arity

def isLazy (f : Function) : Bool :=
  match f.body with
  | .eager _ => false
  | .lazy _ => true

/-- Name and signature, which tell the functions of a registry apart. -/
def key (f : Function) : String := f.name ++ " : " ++ f.signature.display

end Function

end Curried
