import Curried.Proofs.Eval.Safety

/-!
Completeness of inference. Where every function that can be called is eager and does what its
signature says, an expression that has a value also has a type, that of the value
(`check_of_eval`): the arguments were all evaluated, so they have the types of their values, and
those fit the parameters.
-/

namespace Curried

/-- No call in the expression, at any depth, has the name as its innermost head. -/
def Expr.Avoids (name : String) (e : Expr) : Prop :=
  ∀ a, Occurs a e → ∀ args, a.form ≠ .call name args

namespace Expr.Avoids

variable {e a : Expr} {avoided name : String} {args : List Expr}

theorem of_mem (h : e.Avoids avoided) (ha : a ∈ e.form.args) : a.Avoids avoided :=
  fun _ hb => h _ (.argument hb ha)

theorem of_value {v : Value} (hf : e.form = .value v) : e.Avoids avoided := by
  intro a ha args h
  cases ha with
  | whole => cases hf.symm.trans h
  | argument _ hmem =>
    rw [hf] at hmem
    cases hmem

theorem of_call (hf : e.form = .call name args) (hname : name ≠ avoided)
    (hargs : ∀ a ∈ args, a.Avoids avoided) : e.Avoids avoided := by
  intro a ha args' h
  cases ha with
  | whole => exact hname (Form.call.inj (hf.symm.trans h)).1
  | argument ha hmem =>
    rw [hf] at hmem
    exact hargs _ hmem a ha args' h

end Expr.Avoids

/-- Where a call of a typed function has a value, its arguments have values, and the signature
accepts their types and gives that of the value. -/
theorem Function.Typed.of_run_eq_ok {f : Function} {answer : Expr → Result} {args : List Expr}
    {v : Value} (hf : f.Typed) (h : (Closure.call f args).run answer = .ok v) :
    ∃ vs, List.Forall₂ (fun a v => answer a = .ok v) args vs ∧
      (f.signature.applyAll (vs.map (·.scheme)) ⟨0⟩).1 = .ok v.scheme := by
  cases hf with
  | eager hnative =>
    rw [Closure.run_call_eager, bind_eq_ok] at h
    obtain ⟨vs, hvs, h⟩ := h
    split at h
    · rename_i hlen
      obtain ⟨hargs, hfits⟩ := Closure.forall₂_of_collect hvs (Nat.le_of_eq hlen)
      rw [List.take_of_length_le (Nat.le_of_eq hlen.symm)] at hfits
      obtain ⟨t, ht, hsafe⟩ := hnative.result vs hfits
      rw [h] at hsafe
      cases hsafe with
      | ok hv => exact ⟨vs, hargs, hv ▸ ht⟩
    · cases h

namespace Typing

variable {Γ : Signatures} {args : List Expr}

/-- Arguments with constant types have them from every supply. -/
theorem inferArgs_of_check {vs : List Value}
    (h : List.Forall₂ (fun a v => check Γ a = .ok (Value.scheme v)) args vs) (s : Supply) :
    (inferArgs Γ args s).1 = .ok (vs.map (·.scheme)) := by
  induction h generalizing s with
  | nil => rfl
  | @cons a v args vs ha _ ih =>
    have hagree := infer_agree Γ a s ⟨0⟩
    rw [check] at ha
    rw [ha] at hagree
    rw [inferArgs, andThen_eq_ok]
    rcases hinfer : infer Γ a s with ⟨r, s'⟩
    rw [hinfer] at hagree
    cases hagree with
    | ok hshape =>
      obtain rfl := Scheme.eq_const_of_sameShape hshape
      refine ⟨_, s', rfl, andThen_eq_ok.mpr ⟨_, _, Prod.ext (ih s') rfl, rfl⟩⟩

end Typing

namespace Registry

variable {R : Registry} {e : Expr} {name avoided : String} {args : List Expr} {s : Supply}
  {f : Function} {ts : List Scheme} {v : Value}

/-- An expression that has a value also has its type, if it calls typed functions only. -/
theorem check_of_eval (hR : ∀ f ∈ R.functions, f.name ≠ avoided → f.Typed)
    (he : e.Avoids avoided) (h : R.eval e = .ok v) :
    Typing.check R.signatures e = .ok v.scheme := by
  induction e using Expr.formInduction generalizing v with
  | value e w hf =>
    cases (eval_value hf).symm.trans h
    rw [Typing.check, Typing.infer_value hf]
  | misapplied e head args hf ih => cases (eval_misapplied hf).symm.trans h
  | call e name args hf ih =>
    cases hresolve : R.resolve name args with
    | error err => cases (eval_call_error hf hresolve).symm.trans h
    | ok f =>
      rw [eval_call hf hresolve] at h
      have hname : f.name ≠ avoided := by
        rw [name_of_resolve hresolve]
        rintro rfl
        exact he e .whole args hf
      obtain ⟨vs, hvs, happly⟩ := (hR f (mem_functions_of_resolve hresolve) hname).of_run_eq_ok h
      have hchecks : List.Forall₂ (fun a v => Typing.check R.signatures a = .ok v.scheme)
          args vs := by
        have hih : ∀ a ∈ args, ∀ v, R.eval a = .ok v →
            Typing.check R.signatures a = .ok v.scheme :=
          fun a ha v => ih a ha (he.of_mem (by rwa [hf]))
        refine ((List.forall₂_and_left args vs).mpr ⟨hih, hvs⟩).imp ?_
        rintro a v ⟨hcheck, hv⟩
        exact hcheck v hv
      have hts := Typing.inferArgs_of_check hchecks
      obtain ⟨r, hr, hget⟩ := typing_of_resolve hresolve (hts ⟨0⟩) ⟨_, happly⟩
      -- the chosen overload was applied with another supply
      obtain ⟨ts, p, s, hts', hp, happly'⟩ := Typing.resolve_eq_ok hr
      cases (hts ⟨0⟩).symm.trans hts'
      rw [signatures, List.getElem?_map, ← get?_eq, hget] at hp
      cases hp
      have hscheme : r.scheme = v.scheme := Scheme.applyAll_const happly happly'
      rw [Typing.check, Typing.infer_call hf, Typing.andThen_eq_ok]
      exact ⟨r, _, Prod.ext hr rfl, congrArg Except.ok hscheme⟩

end Registry

end Curried
