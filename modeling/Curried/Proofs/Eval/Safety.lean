import Curried.Eval.Basic
import Curried.Proofs.Eval.Overload
import Curried.Proofs.Eval.Sound

/-!
Type safety. In a registry of sound functions, an expression that has a type evaluates to a value of
that type, or fails with an arithmetic error, or with one that a call in it raises by the number of
its arguments or by its head (`Registry.eval_safe`). Where all types are constants nothing of the
latter kind can happen (`Registry.eval_firstOrder`).
-/

namespace Curried

namespace Registry

/-- The errors that evaluating `e` raises by itself: its head names no function, or the function
that it calls takes another number of arguments. -/
inductive Raises (R : Registry) (e : Expr) : EvalError → Prop where
  | misapplied : e.form = .misapplied head args → Raises R e (notCallable head)
  | arity : e.form = .call name args → R.resolve name args = .ok f → args.length ≠ f.arity →
    Raises R e (.arityMismatch f.name f.arity got)

/-- `e` and every argument in it have constant types, and all heads are names. -/
def FirstOrder (R : Registry) (e : Expr) : Prop :=
  ∀ a, Expr.Occurs a e → (∃ type, Typing.check R.signatures a = .ok ⟨.const type⟩) ∧
    ∀ head args, a.form ≠ .misapplied head args

variable {R : Registry} {e : Expr} {name : String} {args : List Expr} {s : Supply} {t : Scheme}

/-- A call that has a type runs a function whose signature gives it that type. -/
theorem infer_call_eq_ok (hf : e.form = .call name args)
    (h : (Typing.infer R.signatures e s).1 = .ok t) :
    ∃ f ts s', f ∈ R.functions ∧ R.resolve name args = .ok f ∧
      (Typing.inferArgs R.signatures args s).1 = .ok ts ∧
      (f.signature.applyAll ts s').1 = .ok t := by
  rw [Typing.infer_call hf] at h
  obtain ⟨r, _, hr, h⟩ := Typing.andThen_eq_ok.mp h
  cases h
  have hr := congrArg Prod.fst hr
  obtain ⟨f, hget, hresolve⟩ := resolve_of_typing hr
  obtain ⟨ts, p, s', hts, hp, happly⟩ := Typing.resolve_eq_ok hr
  rw [get?_eq] at hget
  rw [signatures, List.getElem?_map, hget] at hp
  cases hp
  exact ⟨f, ts, s', (mem_find.mp (List.mem_of_getElem? hget)).1, hresolve, hts, happly⟩

/-- An expression that has a type evaluates to a value of that type, or fails with an arithmetic
error, or with one that an expression in it raises by itself. -/
theorem eval_safe (hR : ∀ f ∈ R.functions, f.Sound)
    (h : (Typing.infer R.signatures e s).1 = .ok t) :
    Result.Safe (fun err => err.IsArithmetic ∨ ∃ a, Expr.Occurs a e ∧ R.Raises a err) t
      (R.eval e) := by
  induction e using Expr.formInduction generalizing s t with
  | value e v hf =>
    rw [Typing.infer_value hf] at h
    simp only [eval_eq R e, evalAsking, hf]
    exact .ok (Except.ok.inj h)
  | misapplied e head args hf ih =>
    simp only [eval_eq R e, evalAsking, hf]
    exact .error (.inr ⟨e, .whole, .misapplied hf⟩)
  | call e name args hf ih =>
    obtain ⟨f, ts, s', hmem, hresolve, hts, happly⟩ := infer_call_eq_ok hf h
    simp only [eval_eq R e, evalAsking, hf, hresolve]
    refine hR f hmem _ _ _ _ _ _ (fun _ => .inl)
      (fun hne _ => .inr ⟨e, .whole, .arity hf hresolve hne⟩) ?_ happly
    -- what an argument raises is raised in the call
    have hsafe : ∀ a ∈ args, ∀ s t, (Typing.infer R.signatures a s).1 = .ok t → Result.Safe
        (fun err => err.IsArithmetic ∨ ∃ b, Expr.Occurs b e ∧ R.Raises b err) t (R.eval a) := by
      intro a ha s t ht
      refine (ih a ha ht).mono fun err herr => herr.imp_right ?_
      rintro ⟨b, hb, hraises⟩
      exact ⟨b, .argument hb (by rwa [hf]), hraises⟩
    have hargs := (List.forall₂_and_left args ts).mpr ⟨hsafe, Typing.forall₂_of_inferArgs hts⟩
    refine hargs.imp ?_
    rintro a t ⟨h, s, ht⟩
    exact h s t ht

theorem FirstOrder.of_value {v : Value} (hf : e.form = .value v) : R.FirstOrder e := by
  intro a ha
  cases ha with
  | whole =>
    refine ⟨⟨v.typeName, ?_⟩, fun _ _ h => by cases hf.symm.trans h⟩
    rw [Typing.check, Typing.infer_value hf]
    rfl
  | argument _ hmem =>
    rw [hf] at hmem
    cases hmem

theorem FirstOrder.of_call (hf : e.form = .call name args) {type : String}
    (htype : Typing.check R.signatures e = .ok ⟨.const type⟩)
    (hargs : ∀ a ∈ args, R.FirstOrder a) : R.FirstOrder e := by
  intro a ha
  cases ha with
  | whole => exact ⟨⟨type, htype⟩, fun _ _ h => by cases hf.symm.trans h⟩
  | argument ha hmem =>
    rw [hf] at hmem
    exact hargs _ hmem a ha

/-- Among constant types a call gives as many arguments as the function takes. -/
theorem FirstOrder.length_eq (harity : ∀ f ∈ R.functions, f.arity = f.signature.arity)
    (h : R.FirstOrder e) (hf : e.form = .call name args) {f : Function}
    (hresolve : R.resolve name args = .ok f) : args.length = f.arity := by
  obtain ⟨⟨type, htype⟩, -⟩ := h e .whole
  obtain ⟨g, ts, s', hmem, hg, hts, happly⟩ := infer_call_eq_ok hf htype
  cases hresolve.symm.trans hg
  have htypes := Typing.forall₂_of_inferArgs hts
  have hconst : ∀ a ∈ args, ∃ type, Typing.check R.signatures a = .ok ⟨.const type⟩ :=
    fun a ha => (h a (.argument .whole (by rwa [hf]))).1
  have hts : List.Forall₂ (fun t _ => (∃ type, t = ⟨.const type⟩) ∧ True) ts args := by
    refine (((List.forall₂_and_left args ts).mpr ⟨hconst, htypes⟩).imp ?_).flip
    intro a t ⟨⟨type, ha⟩, s, ht⟩
    exact ⟨⟨type, Typing.infer_const ha ht⟩, trivial⟩
  rw [harity f hmem, Scheme.applyAll_arity ((List.forall₂_and_left ts args).mp hts).1 happly,
    htypes.length_eq]
  exact (Nat.zero_add _).symm

/-- Progress: where all types are constants, only an operation on integers can fail. -/
theorem eval_firstOrder (hR : ∀ f ∈ R.functions, f.Sound)
    (harity : ∀ f ∈ R.functions, f.arity = f.signature.arity) (h : R.FirstOrder e) :
    ∃ t, Typing.check R.signatures e = .ok t ∧ Result.Safe EvalError.IsArithmetic t (R.eval e) := by
  obtain ⟨⟨type, htype⟩, -⟩ := h e .whole
  have hsafe := eval_safe hR htype
  refine ⟨_, htype, ?_⟩
  generalize R.eval e = r at hsafe
  cases hsafe with
  | ok hv => exact .ok hv
  | error he =>
    rcases he with he | ⟨a, ha, hraises⟩
    · exact .error he
    cases hraises with
    | misapplied hf => exact absurd hf ((h a ha).2 _ _)
    | arity hf hresolve hne =>
      have ha : R.FirstOrder a := fun b hb => h b (hb.trans ha)
      exact absurd (ha.length_eq harity hf hresolve) hne

end Registry

end Curried
