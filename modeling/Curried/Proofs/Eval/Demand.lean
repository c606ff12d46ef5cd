import Curried.Proofs.Eval.Safety

/-!
Which values an evaluation asks for. A strict computation ends with the first error that it gets as
an answer; calls of eager functions are strict, and so are the lazy functions that do not recover
from an error. Over strict and sound functions an error that no function raises by itself comes from
an expression that the evaluation reaches: an expression that has a type fails for a head that names
no function exactly when its evaluation reaches such a head (`eval_notAFunction_iff`).
-/

namespace Curried

namespace Ask

variable {Q Q' ρ α β ε : Type} {answer : Q → ρ} {q : Q}

/-- The question `q` comes up when `answer` answers every question. -/
def Asks (answer : Q → ρ) (q : Q) : Ask Q ρ β → Prop
  | done _ => False
  | ask q' resume => q = q' ∨ (resume (answer q')).Asks answer q

theorem All.of_asks {P : Q → Prop} {c : Ask Q ρ β} (hc : c.All P) (hq : c.Asks answer q) : P q := by
  induction c with
  | done b => exact hq.elim
  | ask q' resume ih =>
    rcases hq with rfl | hq
    · exact hc.1
    · exact ih _ (hc.2 _) hq

/-- Only the answers to questions that come up matter. -/
theorem run_congr_asks {f g : Q → ρ} {c : Ask Q ρ β} (hfg : ∀ q, c.Asks f q → f q = g q) :
    c.run f = c.run g := by
  induction c with
  | done b => rfl
  | ask q resume ih =>
    rw [run_ask, run_ask, ← hfg q (.inl rfl)]
    exact ih _ fun q' hq' => hfg q' (.inr hq')

theorem asks_bind {c : Ask Q ρ α} {f : α → Ask Q ρ β} :
    (c.bind f).Asks answer q ↔ c.Asks answer q ∨ (f (c.run answer)).Asks answer q := by
  induction c with
  | done a => exact (or_iff_right id).symm
  | ask q' resume ih => exact (or_congr_right (ih _)).trans or_assoc.symm

/-- A question that is answered by an error ends the computation with that error. -/
def Strict : Ask Q (Except ε α) (Except ε β) → Prop
  | done _ => True
  | ask _ resume => (∀ e, resume (.error e) = .done (.error e)) ∧ ∀ r, (resume r).Strict

theorem Strict.run_eq_error {answer : Q → Except ε α} {c : Ask Q (Except ε α) (Except ε β)}
    {e : ε} (hc : c.Strict) (hq : c.Asks answer q) (he : answer q = .error e) :
    c.run answer = .error e := by
  induction c with
  | done b => exact hq.elim
  | ask q' resume ih =>
    rw [run_ask]
    rcases hq with rfl | hq
    · rw [he, hc.1 e, run_done]
    · exact ih _ (hc.2 _) hq

/-- A computation that goes on with the results of a strict one, all with the property `T`, is
strict if it passes on errors and is strict on those results. -/
theorem Strict.bind {γ : Type} {T : Except ε β → Prop} {c : Ask Q (Except ε α) (Except ε β)}
    {f : Except ε β → Ask Q (Except ε α) (Except ε γ)} (hc : c.Strict)
    (hT : c.Within (fun _ => True) T) (herror : ∀ e, f (.error e) = .done (.error e))
    (hf : ∀ b, T b → (f b).Strict) : (c.bind f).Strict := by
  induction c with
  | done b => exact hf b hT
  | ask q resume ih =>
    refine ⟨fun e => ?_, fun r => ih r (hc.2 r) (hT.2 r)⟩
    dsimp only
    rw [hc.1 e]
    exact herror e

theorem Strict.mapQuestions (f : Q → Q') {c : Ask Q (Except ε α) (Except ε β)} (hc : c.Strict) :
    (c.mapQuestions f).Strict := by
  induction c with
  | done b => trivial
  | ask q resume ih =>
    refine ⟨fun e => ?_, fun r => ih r (hc.2 r)⟩
    dsimp only
    rw [hc.1 e]
    rfl

end Ask

/-- The function does not recover from an error in an argument. -/
def Function.Strict (f : Function) : Prop :=
  match f.body with
  | .eager _ => True
  | .lazy run => ∀ nodes, (run nodes).Strict

namespace Closure

private theorem strict_apply (c : Closure) (node : Expr) : (c.apply node).Strict := by
  obtain ⟨⟨name, signature, native | run⟩, filled⟩ := c <;> simp only [apply]
  · split
    · trivial
    · refine ⟨fun e => rfl, fun r => ?_⟩
      dsimp only
      split
      · trivial
      · split <;> trivial
  · split <;> trivial

/-- The closures that a computation results in are closures of `f`. -/
private def Of (f : Function) (r : Except EvalError Closure) : Prop :=
  ∀ c, r = .ok c → c.function = f

private theorem of_apply (c : Closure) (node : Expr) :
    (c.apply node).Within (fun _ => True) (Of c.function) := by
  obtain ⟨⟨name, signature, native | run⟩, filled⟩ := c <;> simp only [apply]
  · split
    · simp [Ask.Within, Of]
    · refine ⟨trivial, fun r => ?_⟩
      dsimp only
      split
      · simp [Ask.Within, Of]
      · split <;> simp [Ask.Within, Of]
  · split <;> simp [Ask.Within, Of]

private theorem of_applyAll (args : List Expr) (c : Closure) :
    (c.applyAll args).Within (fun _ => True) (Of c.function) := by
  induction args generalizing c with
  | nil => simp [applyAll, Ask.Within, Of]
  | cons node args ih =>
    refine (of_apply c node).bind fun r hr => ?_
    split
    · rename_i c'
      exact hr c' rfl ▸ ih c'
    · simp [Ask.Within, Of]

private theorem strict_applyAll (args : List Expr) (c : Closure) : (c.applyAll args).Strict := by
  induction args generalizing c with
  | nil => trivial
  | cons node args ih =>
    refine (strict_apply c node).bind (of_apply c node) (fun _ => rfl) fun r _ => ?_
    split
    · exact ih _
    · trivial

private theorem strict_result {c : Closure} (hc : c.function.Strict) : c.result.Strict := by
  unfold result
  split
  · obtain ⟨⟨name, signature, native | run⟩, filled⟩ := c
    · trivial
    · exact (hc filled).mapQuestions _
  · trivial

theorem strict_call {f : Function} (hf : f.Strict) (args : List Expr) : (call f args).Strict := by
  refine (strict_applyAll args _).bind (of_applyAll args _) (fun _ => rfl) fun r hr => ?_
  split
  · rename_i c
    exact strict_result ((hr c rfl : c.function = f) ▸ hf)
  · trivial

end Closure

/-- The result with an error that any function may raise in the place of another one. -/
def Result.orArithmetic : Result → Result
  | .ok v => .ok v
  | .error _ => .error .divisionByZero

theorem Result.safe_orArithmetic {P : EvalError → Prop} {t : Scheme} {r : Result}
    (hP : P .divisionByZero) (h : ∀ v, r = .ok v → v.scheme = t) : Safe P t r.orArithmetic := by
  cases r with
  | ok v => exact .ok (h v rfl)
  | error e => exact .error hP

/-- An error of a call is one of its own, arithmetic or for the number of arguments, or the error
of an argument that it asked for. -/
theorem Function.Sound.error_origin {f : Function} {answer : Expr → Result} {args : List Expr}
    {ts : List Scheme} {s : Supply} {t : Scheme} {err : EvalError} (hf : f.Sound) (hs : f.Strict)
    (hargs : List.Forall₂ (fun a t => ∀ v, answer a = .ok v → v.scheme = t) args ts)
    (happly : (f.signature.applyAll ts s).1 = .ok t)
    (herr : (Closure.call f args).run answer = .error err) :
    (err.IsArithmetic ∨ ∃ got, err = .arityMismatch f.name f.arity got) ∨
      ∃ a, (Closure.call f args).Asks answer a ∧ answer a = .error err := by
  by_cases hfails : ∃ a e, (Closure.call f args).Asks answer a ∧ answer a = .error e
  · obtain ⟨a, e, ha, he⟩ := hfails
    cases ((Closure.strict_call hs args).run_eq_error ha he).symm.trans herr
    exact .inr ⟨a, ha, he⟩
  -- no argument that is asked for fails, so errors of the others may be taken for arithmetic ones
  refine .inl ?_
  have hrun : (Closure.call f args).run answer =
      (Closure.call f args).run fun a => (answer a).orArithmetic := by
    refine Ask.run_congr_asks fun a ha => ?_
    cases hans : answer a with
    | ok v => rfl
    | error e => exact absurd ⟨a, e, ha, hans⟩ hfails
  have hargs' := hargs.imp fun a t h => Result.safe_orArithmetic
    (P := fun err => err.IsArithmetic ∨ ∃ got, err = .arityMismatch f.name f.arity got)
    (.inl .divisionByZero) h
  have hsafe := hf _ _ args ts s t (fun _ => .inl) (fun _ got => .inr ⟨got, rfl⟩) hargs' happly
  rw [← hrun, herr] at hsafe
  cases hsafe with
  | error h => exact h

namespace Registry

/-- `R.Reaches e a`: the evaluation of `e` comes to the value of `a`, which is `e` itself, or an
argument that the evaluation of `e` asks for, or is reached from there. -/
inductive Reaches (R : Registry) : Expr → Expr → Prop where
  | whole : Reaches R e e
  | argument : (R.evalAsking e).Asks R.eval a → Reaches R a b → Reaches R e b

variable {R : Registry} {e a : Expr} {name : String} {args : List Expr} {s : Supply} {t : Scheme}

theorem strict_evalAsking (hR : ∀ f ∈ R.functions, f.Strict) (e : Expr) :
    (R.evalAsking e).Strict := by
  unfold evalAsking
  split
  · trivial
  · trivial
  · split
    · rename_i f hf
      exact Closure.strict_call (hR f (mem_functions_of_resolve hf)) _
    · trivial

/-- Over strict functions an error that the evaluation reaches is the result. -/
theorem eval_eq_error_of_reaches (hR : ∀ f ∈ R.functions, f.Strict) {err : EvalError}
    (h : R.Reaches e a) (ha : R.eval a = .error err) : R.eval e = .error err := by
  induction h with
  | whole => exact ha
  | argument hask _ ih =>
    rw [eval_eq]
    exact (strict_evalAsking hR _).run_eq_error hask (ih ha)

/-- A value that is applied has a type only without arguments. -/
theorem args_eq_nil_of_infer_misapplied {head : Value} (hf : e.form = .misapplied head args)
    (h : (Typing.infer R.signatures e s).1 = .ok t) : args = [] := by
  rw [Typing.infer_misapplied hf] at h
  obtain ⟨ts, s', hts, h⟩ := Typing.andThen_eq_ok.mp h
  have hlen := (Typing.forall₂_of_inferArgs (congrArg Prod.fst hts)).length_eq
  cases ts with
  | nil => exact List.length_eq_zero_iff.mp hlen
  | cons t ts =>
    obtain ⟨q, _, hq, -⟩ := Scheme.applyAll_cons_eq_ok.mp h
    obtain ⟨d, c, σ, harrow, -⟩ := Scheme.apply_eq_ok.mp (congrArg Prod.fst hq)
    cases harrow

/-- An expression that has a type fails for a head that names no function exactly when its
evaluation reaches a value that is applied to no arguments. -/
theorem eval_notAFunction_iff (hsound : ∀ f ∈ R.functions, f.Sound)
    (hstrict : ∀ f ∈ R.functions, f.Strict) (h : (Typing.infer R.signatures e s).1 = .ok t)
    {found : String} : R.eval e = .error (.notAFunction found) ↔
      ∃ a head, R.Reaches e a ∧ a.form = .misapplied head [] ∧ found = head.quote.tagged := by
  constructor
  · intro herr
    induction e using Expr.formInduction generalizing s t with
    | value e v hf => cases (eval_value hf).symm.trans herr
    | misapplied e head args hf ih =>
      obtain rfl := args_eq_nil_of_infer_misapplied hf h
      cases (eval_misapplied hf).symm.trans herr
      exact ⟨e, head, .whole, hf, rfl⟩
    | call e name args hf ih =>
      obtain ⟨f, ts, s', hmem, hresolve, hts, happly⟩ := infer_call_eq_ok hf h
      rw [eval_call hf hresolve] at herr
      have hargs : List.Forall₂ (fun a t => ∀ v, R.eval a = .ok v → v.scheme = t) args ts := by
        refine (Typing.forall₂_of_inferArgs hts).imp fun a t ⟨s, ht⟩ v hv => ?_
        have hsafe := eval_safe hsound ht
        rw [hv] at hsafe
        cases hsafe with
        | ok hvt => exact hvt
      rcases (hsound f hmem).error_origin (hstrict f hmem) hargs happly herr with
        (harith | ⟨got, harity⟩) | ⟨a, hask, ha⟩
      · cases harith
      · cases harity
      · have hmem : a ∈ args := (Closure.all_call f args).of_asks hask
        obtain ⟨s, t, ht⟩ := Typing.exists_infer_of_mem hts hmem
        obtain ⟨b, head, hreach, hb⟩ := ih a hmem ht ha
        exact ⟨b, head, .argument (evalAsking_call hf hresolve ▸ hask) hreach, hb⟩
  · intro ⟨a, head, hreach, hf, hfound⟩
    refine eval_eq_error_of_reaches hstrict hreach ?_
    rw [hfound]
    exact eval_misapplied hf

end Registry

end Curried
