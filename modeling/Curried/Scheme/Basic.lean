import Curried.Ty.Display

/-!
Type schemes: types taken to hold for every choice of their variables. All variables of the type
are quantified, so a scheme is its type; what is its own is the order of the variables, the
renaming with fresh ones, and the written form.
-/

namespace Curried

/-- A type quantified over all its variables. -/
structure Scheme where
  ty : Ty
  deriving DecidableEq

/-- The supply of fresh variables: `next` and all greater numbers are unused. It has no end here.
The program's ends at `2 ^ 32`, and the program is taken as long as it lasts. -/
structure Supply where
  next : TyVar
  deriving DecidableEq

def Supply.fresh (s : Supply) : TyVar × Supply := (s.next, ⟨s.next + 1⟩)

namespace Scheme

def int : Scheme := ⟨.int⟩

def bool : Scheme := ⟨.bool⟩

def string : Scheme := ⟨.string⟩

def void : Scheme := ⟨.void⟩

def insertAscending (v : TyVar) : List TyVar → List TyVar
  | [] => [v]
  | w :: rest => if v ≤ w then v :: w :: rest else w :: insertAscending v rest

/-- The quantified variables in ascending order. -/
def vars (p : Scheme) : List TyVar := p.ty.vars.foldr insertAscending []

def isMono (p : Scheme) : Bool := p.ty.vars.isEmpty

def isFunction (p : Scheme) : Bool := p.ty.isArrow

def arity (p : Scheme) : Nat := p.ty.arity

/-- Renames the variables with fresh ones, the least first. -/
def instantiate (p : Scheme) (s : Supply) : Scheme × Supply :=
  let vars := p.vars
  (⟨p.ty.subst fun v => .var (s.next + vars.idxOf v)⟩, ⟨s.next + vars.length⟩)

/-- The scheme with its variables numbered in the order of their first appearance. -/
def canonical (p : Scheme) : Scheme := ⟨p.ty.canonical⟩

/-- The two schemes are the same but for the numbers of their variables. -/
def sameShape (p q : Scheme) : Bool := p.ty.canonical == q.ty.canonical

/-- The written form, `forall a b. a -> b -> a`; a type without variables stands alone. -/
def display (p : Scheme) : String :=
  let names := (List.range p.ty.vars.length).map TyVar.letters
  if names.isEmpty then p.ty.display
  else "forall" ++ String.join (names.map fun name => " " ++ name) ++ ". " ++ p.ty.display

end Scheme

end Curried
