import Curried.Proofs.Eval.Extensional
import Curried.Proofs.Expr.Uncurry
import Curried.Proofs.Standard

/-!
Currying does not show. An expression and what is left of it when every curried call is written out
as a single one have the same type, down to the numbers of its variables, and over functions that
see the values of their arguments only they have the same result (`Standard.uncurry_same`).
-/

namespace Curried

variable {Γ : Signatures} {R : Registry}

namespace Typing

private theorem inferArgs_congr {args args' : List Expr}
    (h : List.Forall₂ (fun a b => infer Γ a = infer Γ b) args args') :
    inferArgs Γ args = inferArgs Γ args' := by
  induction h with
  | nil => rfl
  | cons ha _ ih =>
    funext s
    rw [inferArgs, inferArgs, ha, ih]

private theorem resolve_congr {args args' : List Expr}
    (h : List.Forall₂ (fun a b => infer Γ a = infer Γ b) args args') (name : String) :
    resolve Γ name args = resolve Γ name args' := by
  funext s
  by_cases hΓ : Γ name = []
  · rw [resolve_unknown hΓ, resolve_unknown hΓ]
  · rw [resolve_known hΓ, resolve_known hΓ, inferArgs_congr h]

/-- An expression has the type that it has with all curried calls written out. -/
theorem infer_uncurry (Γ : Signatures) (e : Expr) : infer Γ e.uncurry = infer Γ e := by
  induction e using Expr.argInduction with
  | step e ih =>
    have hargs := (Expr.form_uncurry e).imp (S := fun a b => infer Γ a = infer Γ b)
      fun a ha _ hb => hb ▸ (ih a ha).symm
    generalize hf : e.form = F, hf' : e.uncurry.form = F' at hargs
    funext s
    cases hargs with
    | value => rw [infer_value hf, infer_value hf']
    | @call name _ _ h => rw [infer_call hf, infer_call hf', resolve_congr h]
    | misapplied h => rw [infer_misapplied hf, infer_misapplied hf', inferArgs_congr h]

end Typing

namespace Registry

/-- Over functions that see the values of their arguments only, an expression has the value that it
has with all curried calls written out. -/
theorem eval_uncurry (hR : ∀ f ∈ R.functions, f.Extensional) (e : Expr) :
    R.eval e.uncurry = R.eval e := by
  induction e using Expr.argInduction with
  | step e ih =>
    have hform := Expr.form_uncurry e
    refine (eval_of_form hR (hform.imp fun a ha _ hb => hb ▸ (ih a ha).symm) ?_).symm
    intro name args args' hf hf'
    rw [hf, hf'] at hform
    cases hform with
    | call h =>
      have htypes := h.imp fun a b hb => hb ▸ (Typing.infer_uncurry R.signatures a).symm
      exact resolve_congr (by rw [Typing.resolve_congr htypes])

end Registry

namespace Standard

/-- Currying is invisible: with every curried call written out as a single one, an expression has
the same type or type error and the same value or error as before. -/
theorem uncurry_same (e : Expr) : e.uncurry.Uncurried ∧
    Typing.check registry.signatures e.uncurry = Typing.check registry.signatures e ∧
    registry.eval e.uncurry = registry.eval e := by
  refine ⟨e.uncurried_uncurry, ?_, registry.eval_uncurry (registry_functions ▸ extensional) e⟩
  rw [Typing.check, Typing.check, Typing.infer_uncurry]

end Standard

end Curried
