import Curried.Expr.Basic
import Curried.Reader.Token
import Curried.Text.Quoted

/-!
Reading expressions. The tokens are taken one by one with a stack of the lists that are open, so
nesting costs no depth of recursion.
-/

namespace Curried

namespace Reader

def decimal (digits : List Char) : Nat :=
  digits.foldl (fun n c => 10 * n + (c.toNat - '0'.toNat)) 0

/-- The integer that an atom writes: digits, with a minus sign in front of a negative one. -/
def integer? : List Char → Option Int
  | '-' :: digits =>
    if !digits.isEmpty && digits.all Char.isDigit then some (-(decimal digits : Int)) else none
  | digits =>
    if !digits.isEmpty && digits.all Char.isDigit then some (decimal digits) else none

/-- What an atom denotes: a boolean, an integer, or itself. -/
def literal (text : String) (span : Span) : Except ParseError Literal :=
  if text = "true" then .ok (.bool true)
  else if text = "false" then .ok (.bool false)
  else match integer? text.toList with
    | none => .ok (.atom text)
    | some n => match Word.ofInt? n with
      | some n => .ok (.int n)
      | none => .error ⟨.integerOutOfRange text, span⟩

/-- A list that is not closed yet: its parenthesis and its elements, the latest first. -/
structure OpenList where
  paren : Span
  items : List Expr

/-- What a token leads to: more lists to close, or a complete expression. -/
inductive Progress where
  | within (stack : List OpenList)
  | complete (e : Expr)

def addTo : List OpenList → Expr → Progress
  | [], e => .complete e
  | l :: outer, e => .within ({ l with items := e :: l.items } :: outer)

/-- One token, with the open lists innermost first. -/
def step (stack : List OpenList) (token : Token) : Except ParseError Progress :=
  match token.kind, stack with
  | .openParen, _ => .ok (.within (⟨token.span, []⟩ :: stack))
  | .closeParen, [] => .error ⟨.unexpectedCloseParen, token.span⟩
  | .closeParen, l :: outer => .ok (addTo outer (.list l.items.reverse))
  | .str text, _ => .ok (addTo stack (.str text))
  | .atom text, _ =>
    match literal text token.span with
    | .ok l => .ok (addTo stack (.leaf l))
    | .error e => .error e

/-- A token as the error about it shows it; a string is quoted. -/
def describe : Token.Kind → String
  | .openParen => "("
  | .closeParen => ")"
  | .str text => Text.quoted text
  | .atom text => text

/-- Reads one expression; `length` is that of the source. -/
def readOne (length : Nat) : List Token → List OpenList → Except ParseError Expr
  | [], [] => .error ⟨.emptyInput, .point length⟩
  | [], l :: _ => .error ⟨.unclosedList, l.paren⟩
  | token :: rest, stack =>
    match step stack token with
    | .error e => .error e
    | .ok (.within stack) => readOne length rest stack
    | .ok (.complete e) =>
      match rest with
      | [] => .ok e
      | extra :: _ => .error ⟨.trailingInput (describe extra.kind), extra.span⟩

/-- Reads expressions up to the end; those that are complete are in `seen`, the latest first. -/
def readAll : List Token → List OpenList → (seen : List Expr) → Except ParseError (List Expr)
  | [], [], seen => .ok seen.reverse
  | [], l :: _, _ => .error ⟨.unclosedList, l.paren⟩
  | token :: rest, stack, seen =>
    match step stack token with
    | .error e => .error e
    | .ok (.within stack) => readAll rest stack seen
    | .ok (.complete e) => readAll rest [] (e :: seen)

end Reader

def Expr.parse (source : String) : Except ParseError Expr :=
  match Token.scan source with
  | .ok tokens => Reader.readOne source.utf8ByteSize tokens []
  | .error e => .error e

/-- Reads every expression of a source, which may hold none. -/
def Expr.parseAll (source : String) : Except ParseError (List Expr) :=
  match Token.scan source with
  | .ok tokens => Reader.readAll tokens [] []
  | .error e => .error e

end Curried
