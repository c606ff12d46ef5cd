import Curried.Session

/-!
The command line: what its arguments ask for, and the text that explains them.
-/

namespace Curried

inductive Command where
  | repl (options : Options)
  | eval (source : String) (options : Options)
  | check (source : String)
  | parse (source : String)
  | apply (f x : String)
  | builtins
  | help
  | version
  deriving DecidableEq

namespace CommandLine

/-- What follows `start` in a text that begins with it. -/
def after? (start text : String) : Option String :=
  if start.toList.isPrefixOf text.toList then
    some (String.ofList (text.toList.drop start.toList.length))
  else none

/-- Whether an argument is taken as an option and not as a word. -/
def isOption (arg : String) : Bool := (after? "--" arg).isSome || arg == "-t"

/-- The options with one more set, if `arg` is the name of one. -/
def setOption (o : Options) (arg : String) : Option Options :=
  if arg = "--no-check" then some { o with check := false }
  else if arg = "--types" ∨ arg = "-t" then some { o with showTypes := true }
  else (after? "--prompt=" arg).map fun prompt => { o with prompt := prompt }

def usage (text : String) : Failure := .usage text

/-- Tells options from words, behind those seen so far; the latest word comes first in `words`. -/
def splitFrom (o : Options) (words : List String) :
    List String → Except Failure (Options × List String)
  | [] => .ok (o, words.reverse)
  | arg :: args =>
    if isOption arg then
      match setOption o arg with
      | some o => splitFrom o words args
      | none => .error (usage ("unknown option `" ++ arg ++ "`"))
    else splitFrom o (arg :: words) args

def split (args : List String) : Except Failure (Options × List String) := splitFrom {} [] args

/-- The words as one source; `line` shows the form of the command. -/
def source (words : List String) (line : String) : Except Failure String :=
  if words.isEmpty then .error (usage ("Usage: " ++ line)) else .ok (" ".intercalate words)

/-- A loop whose options are given, and which takes no words. -/
def repl (args : List String) : Except Failure Command := do
  let (options, words) ← split args
  match words with
  | [] => return .repl options
  | extra :: _ => throw (usage ("unexpected argument `" ++ extra ++ "`"))

/-- The command that the arguments behind the program's name ask for. -/
def parse (args : List String) : Except Failure Command :=
  match args with
  | [] => return .repl {}
  | command :: rest =>
    match command with
    | "repl" => repl rest
    | "eval" => do
      let (options, words) ← split rest
      return .eval (← source words "slip eval <expr>") options
    | "check" => do
      let (_, words) ← split rest
      return .check (← source words "slip check <expr>")
    | "parse" => do
      let (_, words) ← split rest
      return .parse (← source words "slip parse <expr>")
    | "apply" =>
      match rest with
      | [f, x] => return .apply f x
      | _ => throw (usage "Usage: slip apply <fn-signature> <arg-signature>")
    | "builtins" => return .builtins
    | "help" | "--help" | "-h" => return .help
    | "version" | "--version" | "-V" => return .version
    | _ =>
      if (after? "-" command).isSome then repl args
      else throw (usage ("unknown command `" ++ command ++ "`"))

def usageText : String := "slip: a tiny curried expression language

Usage: slip [command] [options]

Commands:
  repl                        Start the interactive loop (default)
  eval <expr>                 Type check and evaluate one expression
  check <expr>                Print the type of one expression
  parse <expr>                Print the parse tree of one expression
  apply <fn-sig> <arg-sig>    Apply a signature to an argument signature
  builtins                    List the registered functions
  help                        Show this help message
  version                     Show version information

Options (repl, eval):
  --no-check                  Evaluate without type checking first
  --types, -t                 Print each value's type
  --prompt=<text>             REPL prompt (default: \"> \")

Environment:
  SLIP_LOG, RUST_LOG          Tracing filter, e.g. SLIP_LOG=slip_eval=debug
  SLIP_LOG_TREE               Render traces as an indented span tree
"

end CommandLine

end Curried
