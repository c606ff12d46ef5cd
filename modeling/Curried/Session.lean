import Curried.Eval.Basic
import Curried.Reader.Expr
import Curried.Reader.Signature
import Curried.Standard

/-!
Sessions: a registry and the options under which sources are read, checked and evaluated.
-/

namespace Curried

/-- What can end the processing of an expression or of a command line. -/
inductive Failure where
  | parse (cause : ParseError)
  | type (cause : TypeError)
  | eval (cause : EvalError)
  | io (text : String)
  | usage (text : String)
  deriving DecidableEq

def Failure.message : Failure → String
  | parse cause => "parse error: " ++ cause.message
  | type cause => "type error: " ++ cause.message
  | eval cause => "evaluation error: " ++ cause.message
  | io text => text
  | usage text => text

structure Options where
  /-- Whether an expression must have a type before it is evaluated. -/
  check : Bool := true
  showTypes : Bool := false
  prompt : String := "> "
  deriving DecidableEq

structure Outcome where
  value : Value
  /-- The type, if it was checked. -/
  scheme : Option Scheme
  showType : Bool
  deriving DecidableEq

def Outcome.display (o : Outcome) : String :=
  match o.scheme, o.showType with
  | some scheme, true => o.value.display ++ " : " ++ scheme.display
  | _, _ => o.value.display

structure Session where
  registry : Registry
  options : Options

namespace Session

def standard (options : Options) : Session := ⟨Standard.registry, options⟩

def read (source : String) : Except Failure Expr := (Expr.parse source).mapError .parse

def check (s : Session) (e : Expr) : Except Failure Scheme :=
  (Typing.check s.registry.signatures e).mapError .type

/-- Reads, checks if the options say so, and evaluates one expression. -/
def eval (s : Session) (source : String) : Except Failure Outcome := do
  let e ← read source
  let scheme ← if s.options.check then some <$> s.check e else pure none
  let value ← (s.registry.eval e).mapError .eval
  return ⟨value, scheme, s.options.showTypes⟩

def typeOf (s : Session) (source : String) : Except Failure Scheme := read source >>= s.check

def tagged (source : String) : Except Failure String := (·.tagged) <$> read source

def listing (s : Session) : String := s.registry.dump

end Session

/-- The type of a function with the signature `f`, applied to an argument with the signature `x`. -/
def applySignatures (f x : String) : Except Failure Scheme := do
  let f ← (Scheme.parse f).mapError .parse
  let x ← (Scheme.parse x).mapError .parse
  (f.apply x ⟨0⟩).1.mapError .type

end Curried
