import Curried.Session

/-!
The read-eval-print loop as a function from the bytes of its input to the text of its output. Every
line is answered on its own; an error is printed and the loop goes on. Lines are trimmed, and split
into words, by white space in the sense of Unicode.
-/

namespace Curried.Text

/-- White space in the sense of Unicode. -/
def isSpace (c : Char) : Bool :=
  let n := c.toNat
  (0x9 ≤ n && n ≤ 0xd) || n == 0x20 || n == 0x85 || n == 0xa0 || n == 0x1680 ||
    (0x2000 ≤ n && n ≤ 0x200a) || n == 0x2028 || n == 0x2029 || n == 0x202f || n == 0x205f ||
    n == 0x3000

def trim (text : List Char) : List Char :=
  ((text.dropWhile isSpace).reverse.dropWhile isSpace).reverse

def trimEnd (text : String) : String :=
  String.ofList (text.toList.reverse.dropWhile isSpace).reverse

/-- The text before the first white space, and the text behind that one character. -/
def splitWord (text : List Char) : List Char × List Char :=
  (text.takeWhile (!isSpace ·), (text.dropWhile (!isSpace ·)).drop 1)

end Curried.Text

namespace Curried.Repl

inductive Line where
  | blank
  | eval (source : String)
  | type (source : String)
  | parse (source : String)
  | builtins
  | help
  | quit
  | unknown (name : String)
  deriving DecidableEq

/-- The command of a line that starts with a colon, by its name and what stands behind it. -/
def command (name rest : String) : Line :=
  if name = "type" ∨ name = "t" then .type rest
  else if name = "parse" ∨ name = "p" then .parse rest
  else if name = "builtins" ∨ name = "b" then .builtins
  else if name = "help" ∨ name = "h" ∨ name = "?" then .help
  else if name = "quit" ∨ name = "q" then .quit
  else .unknown name

/-- Sorts a line, white space at its ends aside. -/
def classify (line : String) : Line :=
  match Text.trim line.toList with
  | [] => .blank
  | ':' :: words =>
    let (name, rest) := Text.splitWord words
    command (String.ofList name) (String.ofList (Text.trim rest))
  | source => .eval (String.ofList source)

def help : String := "Enter an expression such as (+ 1 2) to evaluate it.

Commands:
  :type <expr>    Show the type of an expression
  :parse <expr>   Show the parse tree of an expression
  :builtins       List the registered functions
  :help           Show this message
  :quit           Leave the REPL (end of input also works)"

def report : Except Failure String → String
  | .ok text => text
  | .error e => "error: " ++ e.message

/-- The answer to a line, without the end of the line; blank lines and `:quit` have none. -/
def answer (s : Session) : Line → Option String
  | .blank | .quit => none
  | .eval source => some (report (Outcome.display <$> s.eval source))
  | .type source => some (report (Scheme.display <$> s.typeOf source))
  | .parse source => some (report (Session.tagged source))
  | .builtins => some (Text.trimEnd s.listing)
  | .help => some help
  | .unknown name => some ("error: unknown command `:" ++ name ++ "` (try :help)")

inductive Reply where
  /-- The text is written, and the loop goes on. -/
  | write (text : String)
  | quit
  | fail (cause : Failure)
  deriving DecidableEq

def decode (bytes : List UInt8) : Option String := String.fromUTF8? ⟨bytes.toArray⟩

def notUtf8 : Failure := .io "stream did not contain valid UTF-8"

def reply (s : Session) (line : List UInt8) : Reply :=
  match decode line with
  | none => .fail notUtf8
  | some text =>
    match classify text with
    | .quit => .quit
    | l =>
      match answer s l with
      | some text => .write (text ++ "\n" ++ s.options.prompt)
      | none => .write s.options.prompt

def lineFeed : UInt8 := 10

def carriageReturn : UInt8 := 13

/-- A line whose bytes, the latest first, are followed by a line feed. A carriage return before it
belongs to the line's end. -/
def closeLine : List UInt8 → List UInt8
  | [] => []
  | b :: line => if b = carriageReturn then line.reverse else (b :: line).reverse

/-- The lines of an input whose current line begins with `line`; both `line` and the complete lines
in `seen` have the latest first. -/
def linesFrom : List UInt8 → (line : List UInt8) → (seen : List (List UInt8)) → List (List UInt8)
  | [], line, seen => (if line.isEmpty then seen else line.reverse :: seen).reverse
  | b :: input, line, seen =>
    if b = lineFeed then linesFrom input [] (closeLine line :: seen)
    else linesFrom input (b :: line) seen

/-- The lines of an input, without the line feeds that end them. -/
def lines (input : List UInt8) : List (List UInt8) := linesFrom input [] []

/-- Answers line after line, behind what is already written. -/
def answerAll (s : Session) : List (List UInt8) → (written : String) → String × Option Failure
  | [], written => (written ++ "\n", none)
  | line :: rest, written =>
    match reply s line with
    | .write text => answerAll s rest (written ++ text)
    | .quit => (written ++ "\n", none)
    | .fail cause => (written, some cause)

/-- Runs the loop on an input: all that it writes, and the failure that ends it early. -/
def run (s : Session) (input : List UInt8) : String × Option Failure :=
  answerAll s (lines input) s.options.prompt

end Curried.Repl
