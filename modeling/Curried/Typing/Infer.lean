import Curried.Ask
import Curried.Expr.Spine
import Curried.Scheme.Apply

/-!
Types of expressions. A literal has the type of its value. A curried call is taken as one call of
its innermost head to its whole spine; the overload of the head is the first one that accepts all
arguments. Types of the arguments are asked for, and `Typing.infer_eq` says that the answer to a
question is the type of the argument.
-/

namespace Curried

/-- The schemes that each name is declared with, in the order of declaration. -/
abbrev Signatures := String → List Scheme

structure Resolution where
  index : Nat
  scheme : Scheme
  deriving DecidableEq

namespace Typing

/-- A result together with the fresh variables that are left, also behind an error. -/
abbrev Typed (α : Type) := Except TypeError α × Supply

/-- A computation that asks for types of expressions, handing over the supply. -/
abbrev Asking (α : Type) := Ask (Expr × Supply) (Typed Scheme) (Typed α)

/-- The first of the candidates, counted from `index`, that accepts the arguments; otherwise what
each of them says. -/
def firstAccepting (args : List Scheme) :
    (index : Nat) → List Scheme → Supply → Except (List TypeError) Resolution × Supply
  | _, [], s => (.error [], s)
  | index, f :: fs, s =>
    match f.applyAll args s with
    | (.ok t, s) => (.ok ⟨index, t⟩, s)
    | (.error e, s) =>
      match firstAccepting args (index + 1) fs s with
      | (.ok r, s) => (.ok r, s)
      | (.error es, s) => (.error (e :: es), s)

/-- The error of a call whose candidates failed with the given errors: that of a single candidate
stands for itself. -/
def refusal (name : String) : List TypeError → TypeError
  | [] => .unknownFunction name
  | [e] => e
  | e :: _ :: _ => .noMatchingOverload name e

/-- The candidate that a call of `name` with arguments of the given types denotes. -/
def choose (name : String) (candidates args : List Scheme) (s : Supply) : Typed Resolution :=
  match firstAccepting args 0 candidates s with
  | (.ok r, s) => (.ok r, s)
  | (.error es, s) => (.error (refusal name es), s)

/-- The types of the arguments from left to right, up to the first error; `seen` holds those that
are known, the latest first. -/
def askArgs : List Expr → (seen : List Scheme) → Supply → Asking (List Scheme)
  | [], seen, s => .done (.ok seen.reverse, s)
  | e :: es, seen, s => .ask (e, s) fun
    | (.ok t, s) => askArgs es (t :: seen) s
    | (.error err, s) => .done (.error err, s)

/-- Goes on with the types of the arguments, if all have one. -/
def withArgs {α : Type} (args : List Expr) (s : Supply)
    (next : List Scheme → Supply → Typed α) : Asking α :=
  (askArgs args [] s).bind fun
    | (.ok ts, s) => .done (next ts s)
    | (.error err, s) => .done (.error err, s)

/-- The overload of `name` for a call with the given arguments. A name without overloads is
reported before its arguments are looked at. -/
def resolveAsking (Γ : Signatures) (name : String) (args : List Expr) (s : Supply) :
    Asking Resolution :=
  match Γ name with
  | [] => .done (.error (.unknownFunction name), s)
  | candidates => withArgs args s (choose name candidates)

/-- The type of an expression in terms of the types of its arguments. -/
def inferAsking (Γ : Signatures) (e : Expr) (s : Supply) : Asking Scheme :=
  match e.form with
  | .value v => .done (.ok v.scheme, s)
  | .call name args => (resolveAsking Γ name args s).bind fun (r, s) => .done (r.map (·.scheme), s)
  | .misapplied head args => withArgs args s head.scheme.applyAll

private theorem all_askArgs {P : Expr → Prop} (args : List Expr) (hP : ∀ e ∈ args, P e)
    (seen : List Scheme) (s : Supply) : (askArgs args seen s).All fun q => P q.1 := by
  induction args generalizing seen s with
  | nil => trivial
  | cons e es ih =>
    refine ⟨hP e (List.mem_cons_self ..), fun r => ?_⟩
    obtain ⟨t | t, s⟩ := r
    · trivial
    · exact ih (fun e he => hP e (List.mem_cons_of_mem _ he)) _ _

private theorem all_withArgs {α : Type} {P : Expr → Prop} (args : List Expr)
    (hP : ∀ e ∈ args, P e) (s : Supply) (next : List Scheme → Supply → Typed α) :
    (withArgs args s next).All fun q => P q.1 := by
  refine Ask.Within.bind (all_askArgs args hP _ s) fun r _ => ?_
  obtain ⟨t | t, s⟩ := r <;> trivial

private theorem all_resolveAsking {P : Expr → Prop} (Γ : Signatures) (name : String)
    (args : List Expr) (hP : ∀ e ∈ args, P e) (s : Supply) :
    (resolveAsking Γ name args s).All fun q => P q.1 := by
  unfold resolveAsking
  split
  · trivial
  · exact all_withArgs args hP s _

/-- Only arguments of an expression are asked about. -/
theorem all_inferAsking (Γ : Signatures) (e : Expr) (s : Supply) :
    (inferAsking Γ e s).All fun q => sizeOf q.1 < sizeOf e := by
  have h (a : Expr) (ha : a ∈ e.form.args) : sizeOf a < sizeOf e := Expr.sizeOf_lt_of_mem_form ha
  unfold inferAsking
  split
  · trivial
  · rename_i name args hf
    exact .bind (all_resolveAsking Γ name args (by simpa [hf, Expr.Form.args] using h) s)
      fun _ _ => trivial
  · rename_i head args hf
    exact all_withArgs args (by simpa [hf, Expr.Form.args] using h) s _

private def inferQuestion (Γ : Signatures) : Expr × Supply → Typed Scheme :=
  Ask.solve (fun q => sizeOf q.1) (fun q => inferAsking Γ q.1 q.2)
    fun q => all_inferAsking Γ q.1 q.2

/-- The type of an expression, with fresh variables from the supply. -/
def infer (Γ : Signatures) (e : Expr) (s : Supply) : Typed Scheme := inferQuestion Γ (e, s)

theorem infer_eq (Γ : Signatures) (e : Expr) (s : Supply) :
    infer Γ e s = (inferAsking Γ e s).run fun q => infer Γ q.1 q.2 :=
  Ask.solve_eq _ _ (e, s)

/-- The overload of `name` for a call with the given arguments. -/
def resolve (Γ : Signatures) (name : String) (args : List Expr) (s : Supply) : Typed Resolution :=
  (resolveAsking Γ name args s).run fun q => infer Γ q.1 q.2

def check (Γ : Signatures) (e : Expr) : Except TypeError Scheme := (infer Γ e ⟨0⟩).1

end Typing

end Curried
