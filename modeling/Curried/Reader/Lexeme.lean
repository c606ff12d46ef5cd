import Curried.Reader.Token

/-!
Lexemes of type signatures: arrows, parentheses and names, with blanks between them. As with
tokens, a source is scanned character by character; the first character that starts no lexeme ends
the scan.
-/

namespace Curried

inductive Lexeme.Kind where
  | arrow
  | openParen
  | closeParen
  | name
  deriving DecidableEq

structure Lexeme where
  kind : Lexeme.Kind
  text : String
  span : Span
  deriving DecidableEq

namespace Lexeme

/-- The characters of a name behind its first, which is a letter. -/
def isNameChar (c : Char) : Bool := c.isAlphanum || c == '_'

inductive Scan.Mode where
  | between
  /-- Inside a name, with its latest character first. -/
  | name (start : Nat) (text : List Char)
  /-- Behind a minus sign, which only an arrow can start with. -/
  | minus (start : Nat)
  | failed (e : ParseError)

/-- A scan under way: the lexemes so far, the latest first, and the bytes behind it. -/
structure Scan where
  mode : Scan.Mode
  lexemes : List Lexeme
  offset : Nat

namespace Scan

def start : Scan := ⟨.between, [], 0⟩

def nameLexeme (start stop : Nat) (text : List Char) : Lexeme :=
  ⟨.name, String.ofList text.reverse, ⟨start, stop⟩⟩

def unexpected (c : Char) (start : Nat) : ParseError :=
  ⟨.unexpectedChar c.toString, ⟨start, start + c.utf8Size⟩⟩

/-- One character at a place where a lexeme may start. -/
def stepBetween (lexemes : List Lexeme) (offset : Nat) (c : Char) : Scan :=
  let next := offset + c.utf8Size
  if Token.isBlank c then ⟨.between, lexemes, next⟩
  else if c = '(' then ⟨.between, ⟨.openParen, "(", ⟨offset, next⟩⟩ :: lexemes, next⟩
  else if c = ')' then ⟨.between, ⟨.closeParen, ")", ⟨offset, next⟩⟩ :: lexemes, next⟩
  else if c = '-' then ⟨.minus offset, lexemes, next⟩
  else if c.isAlpha then ⟨.name offset [c], lexemes, next⟩
  else ⟨.failed (unexpected c offset), lexemes, next⟩

def step (s : Scan) (c : Char) : Scan :=
  let next := s.offset + c.utf8Size
  match s.mode with
  | .between => stepBetween s.lexemes s.offset c
  | .name start text =>
    if isNameChar c then ⟨.name start (c :: text), s.lexemes, next⟩
    else stepBetween (nameLexeme start s.offset text :: s.lexemes) s.offset c
  | .minus start =>
    if c = '>' then ⟨.between, ⟨.arrow, "->", ⟨start, next⟩⟩ :: s.lexemes, next⟩
    else ⟨.failed (unexpected '-' start), s.lexemes, next⟩
  | .failed e => ⟨.failed e, s.lexemes, next⟩

def finish (s : Scan) : Except ParseError (List Lexeme) :=
  match s.mode with
  | .between => .ok s.lexemes.reverse
  | .name start text => .ok (nameLexeme start s.offset text :: s.lexemes).reverse
  | .minus start => .error (unexpected '-' start)
  | .failed e => .error e

end Scan

def scan (source : String) : Except ParseError (List Lexeme) :=
  (source.toList.foldl Scan.step .start).finish

end Lexeme

end Curried
