import Curried.Proofs.Eval.Extensional
import Curried.Proofs.Expr.Context
import Curried.Proofs.Standard

/-!
Replacing an argument by its value. In an expression that has a type every argument that has a value
also has the type of that value, so the literal of the value can stand in its place: no overload
further out is chosen differently, and nothing is evaluated to something else
(`Registry.interchangeable_fill`, `Standard.fill_quote_same`).
-/

namespace Curried

theorem Expr.form_quote (v : Value) : v.quote.form = .value v := by
  cases v <;> rfl

namespace Registry

/-- Neither evaluation nor inference tells the expressions apart, but for the numbers of
variables. -/
structure Interchangeable (R : Registry) (e e' : Expr) : Prop where
  eval : R.eval e = R.eval e'
  typing : Typing.SameTyping R.signatures e e'

variable {R : Registry} {e e' a : Expr} {name : String} {args args' : List Expr} {s : Supply}
  {t : Scheme} {v : Value}

theorem interchangeable_refl (R : Registry) (e : Expr) : R.Interchangeable e e :=
  ⟨rfl, Typing.infer_agree R.signatures e⟩

/-- A call that has a type runs the same function with interchangeable arguments. -/
theorem resolve_of_interchangeable (h : List.Forall₂ R.Interchangeable args args')
    (ht : (Typing.resolve R.signatures name args s).1 = .ok r) :
    R.resolve name args = R.resolve name args' := by
  have hagree : Agree Typing.SameChoice TypeError.SameKind
      (Typing.resolve R.signatures name args s).1 (Typing.resolve R.signatures name args' s).1 :=
    Typing.resolve_agree_of (h.imp fun _ _ => Interchangeable.typing) s s
  obtain ⟨f, hf, hresolve⟩ := resolve_of_typing ht
  rw [ht] at hagree
  obtain ⟨r', hr, hindex, -⟩ := hagree.exists_ok
  obtain ⟨f', hf', hresolve'⟩ := resolve_of_typing hr
  rw [← hindex, hf] at hf'
  rw [hresolve, hresolve', Option.some.inj hf']

/-- An expression that has a type may have its arguments exchanged. -/
theorem interchangeable_of_form (hR : ∀ f ∈ R.functions, f.Extensional)
    (h : Expr.Form.Alike R.Interchangeable e.form e'.form)
    (ht : (Typing.infer R.signatures e s).1 = .ok t) : R.Interchangeable e e' where
  typing := Typing.sameTyping_of_form (h.imp fun _ _ _ => Interchangeable.typing)
  eval := by
    have hargs := h.imp fun _ _ _ => Interchangeable.eval
    refine eval_of_form hR hargs fun name args args' hf hf' => ?_
    rw [hf, hf'] at h
    cases h with
    | call hargs =>
      rw [Typing.infer_call hf] at ht
      obtain ⟨r, _, hr, -⟩ := Typing.andThen_eq_ok.mp ht
      exact resolve_of_interchangeable hargs (congrArg Prod.fst hr)

/-- An expression that has a type and a value may be exchanged for the literal of the value. -/
theorem interchangeable_quote (hR : ∀ f ∈ R.functions, f.Sound)
    (ht : (Typing.infer R.signatures a s).1 = .ok t) (ha : R.eval a = .ok v) :
    R.Interchangeable a v.quote where
  eval := by rw [ha, eval_value (Expr.form_quote v)]
  typing := by
    have hsafe := eval_safe hR ht
    rw [ha] at hsafe
    cases hsafe with
    | ok hv =>
      intro s₁ s₂
      have hagree := Typing.infer_agree R.signatures a s₁ s
      rw [Typing.infer_value (Expr.form_quote v), hv, ← ht]
      exact hagree

/-- In an expression that has a type, an argument at any depth may be replaced by its value. -/
theorem interchangeable_fill (hsound : ∀ f ∈ R.functions, f.Sound)
    (hext : ∀ f ∈ R.functions, f.Extensional) (c : Expr.ArgContext)
    (ht : (Typing.infer R.signatures (c.fill a) s).1 = .ok t) (ha : R.eval a = .ok v) :
    R.Interchangeable (c.fill a) (c.fill v.quote) := by
  generalize he : c.fill a = e at ht
  induction e using Expr.argInduction generalizing c s t with
  | step e ih =>
    subst he
    refine interchangeable_of_form hext ((c.form_fill a v.quote).imp fun x hx y hxy => ?_) ht
    obtain ⟨s', t', hx'⟩ := Typing.exists_infer_of_mem_form ht hx
    cases hxy with
    | same => exact interchangeable_refl R x
    | hole => exact interchangeable_quote hsound hx' ha
    | fill c' => exact ih _ hx c' rfl hx'

end Registry

namespace Standard

/-- Referential transparency: in an expression that has a type, an argument at any depth that has a
value may be replaced by the literal of that value. The expression keeps a type of the same shape,
and evaluates to the same value or fails with the same error. -/
theorem fill_quote_same {c : Expr.ArgContext} {a : Expr} {v : Value} {t : Scheme}
    (ht : Typing.check registry.signatures (c.fill a) = .ok t) (ha : registry.eval a = .ok v) :
    (∃ t', Typing.check registry.signatures (c.fill v.quote) = .ok t' ∧ t.sameShape t') ∧
    registry.eval (c.fill v.quote) = registry.eval (c.fill a) := by
  have h := registry.interchangeable_fill (registry_functions ▸ sound)
    (registry_functions ▸ extensional) c ht ha
  refine ⟨?_, h.eval.symm⟩
  have hagree := h.typing ⟨0⟩ ⟨0⟩
  rw [← Typing.check, ht] at hagree
  generalize ht' : (Typing.infer registry.signatures (c.fill v.quote) ⟨0⟩).1 = r at hagree
  cases hagree with
  | ok hshape => exact ⟨_, ht', hshape⟩

/-- In `((+ (- 5 3)) (/ 1 0))` the value of `(- 5 3)` takes its place, although `+` is overloaded
and the other argument fails. -/
theorem fill_quote_same_plus :
    let c := Expr.ArgContext.inHead (.argument (.atom "+") [] []) [.call "/" [.int 1, .int 0]]
    let a := Expr.call "-" [.int 5, .int 3]
    Typing.check registry.signatures (c.fill a) = .ok .int ∧
    registry.eval a = .ok (.int 2) ∧
    (∃ t', Typing.check registry.signatures (c.fill (.int 2)) = .ok t' ∧ Scheme.int.sameShape t') ∧
    registry.eval (c.fill (.int 2)) = registry.eval (c.fill a) := by
  intro c a
  have hminus : a.form = .call "-" [.int 5, .int 3] := rfl
  have hdiv : (Expr.call "/" [.int 1, .int 0]).form = .call "/" [.int 1, .int 0] := rfl
  have hplus : (c.fill a).form = .call "+" [a, .call "/" [.int 1, .int 0]] := rfl
  have htype {name : String} {e : Expr} {m n : Word} (hf : e.form = .call name [.int m, .int n])
      (hname : registry.signatures name = [⟨binary .int .int⟩]) (s : Supply) :
      Typing.infer registry.signatures e s = (.ok .int, s) := by
    rw [Typing.infer_call hf, Typing.resolve_known (by rw [hname]; simp), hname]
    simp only [Typing.inferArgs, Typing.infer_value (e := .int _) rfl]
    rfl
  have hcheck : Typing.check registry.signatures (c.fill a) = .ok .int := by
    rw [Typing.check, Typing.infer_call hplus, Typing.resolve_known (by decide)]
    simp only [Typing.inferArgs, htype hminus rfl, htype hdiv rfl]
    rfl
  have heval : registry.eval a = .ok (.int 2) := by
    rw [Registry.eval_call hminus rfl, ints, Function.eager, Closure.run_call_eager]
    simp only [Closure.collect, Registry.eval_value (e := .int _) rfl]
    rfl
  exact ⟨hcheck, heval, fill_quote_same hcheck heval⟩

end Standard

end Curried
