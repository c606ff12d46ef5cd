import Curried.Reader.Error

/-!
Tokens of expressions: parentheses, quoted strings and atoms, with blanks between them. A source is
scanned character by character; `Scan.step` is one step, and the tokens are read off at the end.
-/

namespace Curried

inductive Token.Kind where
  | openParen
  | closeParen
  /-- A quoted string, by the text that it stands for. -/
  | str (text : String)
  | atom (text : String)
  deriving DecidableEq

structure Token where
  kind : Token.Kind
  span : Span
  deriving DecidableEq

namespace Token

def isBlank (c : Char) : Bool := c == ' ' || c == '\t' || c == '\r' || c == '\n'

def isDelimiter (c : Char) : Bool := isBlank c || c == '(' || c == ')' || c == '"'

/-- Where a scan stands. Texts under way are kept with the latest character first. -/
inductive Scan.Mode where
  | between
  | atom (start : Nat) (text : List Char)
  /-- Inside the string whose quote stands at `start`. -/
  | quoted (start : Nat) (text : List Char)
  | escaped (start : Nat) (text : List Char)
  /-- Behind a backslash at the end of a line, which no string can hold. -/
  | broken (start : Nat)

/-- A scan under way: the tokens so far, the latest first, and the bytes behind it. -/
structure Scan where
  mode : Scan.Mode
  tokens : List Token
  offset : Nat

namespace Scan

def start : Scan := ⟨.between, [], 0⟩

def atomToken (start stop : Nat) (text : List Char) : Token :=
  ⟨.atom (String.ofList text.reverse), ⟨start, stop⟩⟩

/-- One character at a place where a token may start. -/
def stepBetween (tokens : List Token) (offset : Nat) (c : Char) : Scan :=
  let next := offset + c.utf8Size
  if isBlank c then ⟨.between, tokens, next⟩
  else if c = '(' then ⟨.between, ⟨.openParen, ⟨offset, next⟩⟩ :: tokens, next⟩
  else if c = ')' then ⟨.between, ⟨.closeParen, ⟨offset, next⟩⟩ :: tokens, next⟩
  else if c = '"' then ⟨.quoted offset [], tokens, next⟩
  else ⟨.atom offset [c], tokens, next⟩

/-- The characters, latest first, that a backslash and the character behind it stand for. -/
def resolveEscape (c : Char) : List Char :=
  if c = '"' then ['"']
  else if c = '\\' then ['\\']
  else if c = 'n' then ['\n']
  else if c = 't' then ['\t']
  else [c, '\\']

def step (s : Scan) (c : Char) : Scan :=
  let next := s.offset + c.utf8Size
  match s.mode with
  | .between => stepBetween s.tokens s.offset c
  | .atom start text =>
    if isDelimiter c then stepBetween (atomToken start s.offset text :: s.tokens) s.offset c
    else ⟨.atom start (c :: text), s.tokens, next⟩
  | .quoted start text =>
    if c = '"' then
      ⟨.between, ⟨.str (String.ofList text.reverse), ⟨start, next⟩⟩ :: s.tokens, next⟩
    else if c = '\\' then ⟨.escaped start text, s.tokens, next⟩
    else ⟨.quoted start (c :: text), s.tokens, next⟩
  | .escaped start text =>
    if c = '\n' then ⟨.broken start, s.tokens, next⟩
    else ⟨.quoted start (resolveEscape c ++ text), s.tokens, next⟩
  | .broken start => ⟨.broken start, s.tokens, next⟩

def finish (s : Scan) : Except ParseError (List Token) :=
  match s.mode with
  | .between => .ok s.tokens.reverse
  | .atom start text => .ok (atomToken start s.offset text :: s.tokens).reverse
  | .quoted start _ | .escaped start _ | .broken start =>
    .error ⟨.unterminatedString, ⟨start, s.offset⟩⟩

end Scan

def scan (source : String) : Except ParseError (List Token) :=
  (source.toList.foldl Scan.step .start).finish

end Token

end Curried
