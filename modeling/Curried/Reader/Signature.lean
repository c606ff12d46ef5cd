import Curried.Reader.Lexeme
import Curried.Scheme.Basic

/-!
Reading type signatures such as `Bool -> a -> a -> a`. The arrow nests to the right. A name that
starts with a lowercase letter is a type variable, any other name a constant. The lexemes are taken
one by one with a stack of the open parentheses, so nesting costs no depth of recursion.
-/

namespace Curried.Reader

def typeOfName (name : String) (span : Span) : Except ParseError Ty :=
  if name.toList.head?.any Char.isLower then
    match TyVar.ofLetters? name with
    | some v => .ok (.var v)
    | none => .error ⟨.invalidTypeVariable name, span⟩
  else .ok (.const name)

structure Signature where
  /-- The operand that was just read, unless one comes next. -/
  operand : Option Ty
  /-- The domains that wait for their codomain, the latest first. -/
  domains : List Ty
  /-- The domains that wait outside of each open parenthesis, the innermost first. -/
  around : List (List Ty)

namespace Signature

def start : Signature := ⟨none, [], []⟩

/-- The arrows from the waiting domains to their codomain. -/
def arrows (domains : List Ty) (codomain : Ty) : Ty :=
  domains.foldl (fun t domain => .arrow domain t) codomain

def step (s : Signature) (l : Lexeme) : Except ParseError Signature :=
  match s.operand, l.kind, s.around with
  | none, .name, _ =>
    match typeOfName l.text l.span with
    | .ok t => .ok { s with operand := some t }
    | .error e => .error e
  | none, .openParen, around => .ok ⟨none, [], s.domains :: around⟩
  | none, _, _ => .error ⟨.unexpectedToken .type l.text, l.span⟩
  | some t, .arrow, around => .ok ⟨none, t :: s.domains, around⟩
  | some t, .closeParen, domains :: around => .ok ⟨some (arrows s.domains t), domains, around⟩
  | some _, _, [] => .error ⟨.trailingInput l.text, l.span⟩
  | some _, _, _ :: _ => .error ⟨.unexpectedToken .closeParen l.text, l.span⟩

/-- The type that a signature comes to when the source, `length` bytes long, ends here. -/
def finish (length : Nat) (s : Signature) : Except ParseError Ty :=
  match s.operand, s.around with
  | none, _ => .error ⟨.unexpectedEnd .type, .point length⟩
  | some t, [] => .ok (arrows s.domains t)
  | some _, _ :: _ => .error ⟨.unexpectedEnd .closeParen, .point length⟩

end Signature

def readType (length : Nat) : List Lexeme → Except ParseError Ty
  | [] => .error ⟨.emptyInput, .point length⟩
  | lexemes => lexemes.foldlM Signature.step .start >>= Signature.finish length

end Curried.Reader

namespace Curried

def Ty.parse (source : String) : Except ParseError Ty :=
  Lexeme.scan source >>= Reader.readType source.utf8ByteSize

def Scheme.parse (source : String) : Except ParseError Scheme :=
  (Ty.parse source).map Scheme.mk

end Curried
