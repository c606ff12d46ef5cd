import Curried.CommandLine
import Curried.Repl

/-!
The whole program as a function from its arguments and its standard input to what it writes and the
code it exits with.
-/

namespace Curried.Program

structure Run where
  code : Nat
  stdout : String
  stderr : String
  deriving DecidableEq

def version : String := "slip 0.1.0"

/-- What is printed for a result, and the failure that is reported instead. -/
def printed : Except Failure String → String × Option Failure
  | .ok text => (text ++ "\n", none)
  | .error e => ("", some e)

/-- Carries out a command: what it prints, and the failure that it ends with. -/
def execute (stdin : List UInt8) : Command → String × Option Failure
  | .repl options => Repl.run (.standard options) stdin
  | .eval source options => printed (Outcome.display <$> (Session.standard options).eval source)
  | .check source => printed (Scheme.display <$> (Session.standard {}).typeOf source)
  | .parse source => printed (Session.tagged source)
  | .apply f x => printed (Scheme.display <$> applySignatures f x)
  | .builtins => ((Session.standard {}).listing, none)
  | .help => (CommandLine.usageText, none)
  | .version => printed (.ok version)

def complaint (e : Failure) : String := "error: " ++ e.message ++ "\n"

def finish : String × Option Failure → Run
  | (stdout, none) => ⟨0, stdout, ""⟩
  | (stdout, some e) => ⟨1, stdout, complaint e⟩

/-- Runs the program. A wrong command line is explained by the usage text. -/
def run (args : List String) (stdin : List UInt8) : Run :=
  match CommandLine.parse args with
  | .ok command => finish (execute stdin command)
  | .error e => ⟨1, "", complaint e ++ "\n" ++ CommandLine.usageText⟩

end Curried.Program
