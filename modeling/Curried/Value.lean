import Curried.Expr.Basic
import Curried.Scheme.Basic

/-!
Values: what expressions evaluate to, their types, and the literal expression that each comes from.
-/

namespace Curried

inductive Value where
  | int (n : Word)
  | bool (b : Bool)
  | str (s : String)
  | unit
  deriving DecidableEq

namespace Value

def typeName : Value → String
  | int _ => "Int"
  | bool _ => "Bool"
  | str _ => "String"
  | unit => "Void"

def ty (v : Value) : Ty := .const v.typeName

def scheme (v : Value) : Scheme := ⟨v.ty⟩

/-- Whether a parameter of type `expected` takes the value: a variable takes every value, an arrow
none. -/
def fits (v : Value) : Ty → Bool
  | .var _ => true
  | .const name => name == v.typeName
  | .arrow _ _ => false

def int? : Value → Option Word
  | int n => some n
  | _ => none

def bool? : Value → Option Bool
  | bool b => some b
  | _ => none

def str? : Value → Option String
  | str s => some s
  | _ => none

/-- A value as it is printed; a string stands as it is. -/
def display : Value → String
  | int n => n.toInt.repr
  | bool b => if b then "true" else "false"
  | str s => s
  | unit => "()"

def quote : Value → Expr
  | int n => .int n
  | bool b => .bool b
  | str s => .str s
  | unit => .unit

end Value

/-- What a literal stands for. An atom that is not the head of a call is a string. -/
def Literal.value : Literal → Value
  | int n => .int n
  | bool b => .bool b
  | str s => .str s
  | atom name => .str name

end Curried
