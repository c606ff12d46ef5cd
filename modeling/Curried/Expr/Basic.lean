/-!
Expressions: literals and lists of expressions. A list that is not empty is a call, its first
element naming what is called; the empty list is the unit.
-/

namespace Curried

/-- The integers of the language, which have 64 bits. -/
abbrev Word := Int64

def Word.ofInt? (n : Int) : Option Word :=
  if Int64.minValue.toInt ≤ n ∧ n ≤ Int64.maxValue.toInt then some (.ofInt n) else none

inductive Literal where
  | int (n : Word)
  | bool (b : Bool)
  | str (s : String)
  /-- A bare word: a function's name at the head of a call, a string constant elsewhere. -/
  | atom (name : String)
  deriving DecidableEq

inductive Expr where
  | leaf (l : Literal)
  | list (items : List Expr)

def Literal.kind : Literal → String
  | int _ => "int"
  | bool _ => "bool"
  | str _ => "str"
  | atom _ => "atom"

/-- A literal as `payload:kind`; a string stands between quotes as it is, without escapes. -/
def Literal.tagged : Literal → String
  | int n => n.toInt.repr ++ ":int"
  | bool b => (if b then "true" else "false") ++ ":bool"
  | str s => "\"" ++ s ++ "\":str"
  | atom name => name ++ ":atom"

namespace Expr

instance : Inhabited Expr := ⟨list []⟩

def int (n : Word) : Expr := leaf (.int n)

def bool (b : Bool) : Expr := leaf (.bool b)

def str (s : String) : Expr := leaf (.str s)

def atom (name : String) : Expr := leaf (.atom name)

def unit : Expr := list []

def call (name : String) (args : List Expr) : Expr := list (atom name :: args)

def kind : Expr → String
  | leaf l => l.kind
  | list _ => "list"

def isUnit : Expr → Bool
  | list [] => true
  | _ => false

def atom? : Expr → Option String
  | leaf (.atom name) => some name
  | _ => none

def items? : Expr → Option (List Expr)
  | list items => some items
  | leaf _ => none

def split? : Expr → Option (Expr × List Expr)
  | list (head :: args) => some (head, args)
  | _ => none

/-- The name that a call's head is, if it is one. -/
def name? (e : Expr) : Option String :=
  e.split?.bind fun (head, _) => head.atom?

theorem sizeOf_lt_of_mem {e : Expr} {items : List Expr} (h : e ∈ items) :
    sizeOf e < sizeOf (list items) := by
  have := List.sizeOf_lt_of_mem h
  simp only [list.sizeOf_spec]
  omega

/-- Induction that may suppose the statement for every element of a list. -/
theorem induction {P : Expr → Prop} (leaf : ∀ l, P (leaf l))
    (list : ∀ items, (∀ e ∈ items, P e) → P (list items)) (e : Expr) : P e := by
  generalize hn : sizeOf e = n
  induction n using Nat.strongRecOn generalizing e with
  | ind n ih =>
    cases e with
    | leaf l => exact leaf l
    | list items => exact list items fun e he => ih _ (hn ▸ sizeOf_lt_of_mem he) e rfl

end Expr

end Curried
