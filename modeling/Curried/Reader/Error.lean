/-!
Why a text is neither an expression nor a type signature, and where: stretches of a source text are
measured in bytes of its UTF-8 form.
-/

namespace Curried

/-- The half-open byte range from `start` to `stop`. -/
structure Span where
  start : Nat
  stop : Nat
  deriving DecidableEq

namespace Span

def point (offset : Nat) : Span := ⟨offset, offset⟩

def shift (n : Nat) (s : Span) : Span := ⟨s.start + n, s.stop + n⟩

def display (s : Span) : String := s.start.repr ++ ".." ++ s.stop.repr

end Span

inductive Expected where
  | type
  | closeParen
  deriving DecidableEq

def Expected.display : Expected → String
  | type => "a type"
  | closeParen => "`)`"

inductive ParseError.Cause where
  | emptyInput
  | unclosedList
  | unexpectedCloseParen
  | unterminatedString
  | integerOutOfRange (text : String)
  /-- Something follows a complete expression or type. -/
  | trailingInput (found : String)
  | unexpectedChar (found : String)
  /-- In a signature, a lexeme that cannot stand at its place. -/
  | unexpectedToken (expected : Expected) (found : String)
  | unexpectedEnd (expected : Expected)
  /-- A name that starts like a type variable but names none. -/
  | invalidTypeVariable (name : String)
  deriving DecidableEq

/-- A reading error. The span points at what the error is about. -/
structure ParseError where
  cause : ParseError.Cause
  span : Span
  deriving DecidableEq

namespace ParseError

def message (e : ParseError) : String :=
  let place := e.span.display
  match e.cause with
  | .emptyInput => "nothing to parse"
  | .unclosedList => "unclosed `(` opened at " ++ place
  | .unexpectedCloseParen => "unexpected `)` at " ++ place
  | .unterminatedString => "unterminated string literal starting at " ++ place
  | .integerOutOfRange text =>
    "integer literal `" ++ text ++ "` at " ++ place ++ " does not fit in 64 bits"
  | .trailingInput found =>
    "unexpected input `" ++ found ++ "` at " ++ place ++ " after a complete expression"
  | .unexpectedChar found => "unexpected character `" ++ found ++ "` at " ++ place
  | .unexpectedToken expected found =>
    "expected " ++ expected.display ++ ", found `" ++ found ++ "` at " ++ place
  | .unexpectedEnd expected => "expected " ++ expected.display ++ " at end of input"
  | .invalidTypeVariable name => "`" ++ name ++ "` at " ++ place ++ " is not a type variable name"

end ParseError

end Curried
