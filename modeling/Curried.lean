import Curried.Eval.Pool
import Curried.Main
import Curried.Proofs.CommandLine
import Curried.Proofs.Eval.Extend
import Curried.Proofs.Eval.Key
import Curried.Proofs.Eval.Replace
import Curried.Proofs.Eval.Uncurry
import Curried.Proofs.Eval.Unpack
import Curried.Proofs.Eval.Untaken
import Curried.Proofs.Expr.Spine
import Curried.Proofs.Expr.Tagged
import Curried.Proofs.Reader.Located
import Curried.Proofs.Reader.Numeral
import Curried.Proofs.Reader.Parentheses
import Curried.Proofs.Reader.Sequence
import Curried.Proofs.Reader.Variables
import Curried.Proofs.Repl.Trimmed
import Curried.Proofs.Scheme.Justified
import Curried.Proofs.Scheme.Renaming
import Curried.Proofs.Standard.Integers
import Curried.Proofs.Typing.Arguments
import Curried.Proofs.Typing.Fresh
