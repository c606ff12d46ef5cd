import Curried.Proofs.Eval.Safety
import Curried.Proofs.Typing.Extend
import Curried.Standard

/-!
Declaring one more function. Under a new key it becomes the last overload of its name, so a name may
go from one function, which evaluation runs as it is, to two, which it tells apart by the types of
the arguments. An expression that has a type does not show this: it keeps its type and its result
(`declare_conservative`).
-/

namespace Curried.Registry

variable {R R' : Registry} {f : Function} {e : Expr} {name : String} {args : List Expr}
  {s : Supply} {t : Scheme}

/-- Every name has its overloads in `R` also in `R'`, in front of all others. -/
def Extend (R R' : Registry) : Prop := ∀ name, R.find name <+: R'.find name

theorem Extend.signatures (h : R.Extend R') : R.signatures.Extend R'.signatures :=
  fun name => (h name).map _

theorem Extend.get? (h : R.Extend R') {i : Nat} (hf : R.get? name i = some f) :
    R'.get? name i = some f := by
  obtain ⟨fs, hfs⟩ := h name
  rw [get?_eq] at hf
  obtain ⟨hi, -⟩ := List.getElem?_eq_some_iff.mp hf
  rw [get?_eq, ← hfs, List.getElem?_append_left hi]
  exact hf

/-- A function under a new key is put at the end. -/
theorem extend_declare (hf : ∀ g ∈ R.functions, g.key ≠ f.key) : R.Extend (R.declare f) := by
  intro name
  have hnew : ∀ g ∈ R.functions, g.ident ≠ f.ident :=
    fun g hg hident => hf g hg (congrArg Prod.snd hident)
  rw [find_eq, find_eq, functions_declare_of_new hnew, List.filter_append]
  exact List.prefix_append ..

/-- A call that has a type runs the same function with more overloads, although that may now be
found by the types of its arguments and not by its name alone. -/
theorem Extend.resolve (hR : R.Extend R')
    (h : Typing.resolve R.signatures name args s = (.ok r, s')) :
    ∃ f, R.resolve name args = .ok f ∧ R'.resolve name args = .ok f := by
  have h' := Typing.resolve_of_keeps hR.signatures
    (fun a _ => Typing.infer_of_extend hR.signatures a) h
  obtain ⟨f, hf, hresolve⟩ := resolve_of_typing (congrArg Prod.fst h)
  obtain ⟨f', hf', hresolve'⟩ := resolve_of_typing (congrArg Prod.fst h')
  obtain rfl := Option.some.inj ((hR.get? hf).symm.trans hf')
  exact ⟨f, hresolve, hresolve'⟩

/-- More overloads do not change what an expression that has a type evaluates to. -/
theorem eval_of_extend (hR : R.Extend R') (h : (Typing.infer R.signatures e s).1 = .ok t) :
    R'.eval e = R.eval e := by
  induction e using Expr.formInduction generalizing s t with
  | value e v hf => rw [eval_value hf, eval_value hf]
  | misapplied e head args hf ih => rw [eval_misapplied hf, eval_misapplied hf]
  | call e name args hf ih =>
    rw [Typing.infer_call hf] at h
    obtain ⟨r, s', hr, -⟩ := Typing.andThen_eq_ok.mp h
    obtain ⟨ts, _, _, hts, -⟩ := Typing.resolve_eq_ok (congrArg Prod.fst hr)
    obtain ⟨f, hresolve, hresolve'⟩ := hR.resolve hr
    have hargs : ∀ a ∈ args, R'.eval a = R.eval a := by
      intro a ha
      obtain ⟨s, t, ht⟩ := Typing.exists_infer_of_mem hts ha
      exact ih a ha ht
    rw [eval_call hf hresolve, eval_call hf hresolve']
    exact Ask.run_congr hargs _ (Closure.all_call f args)

/-- Declaring a function under a new key is a conservative extension: an expression that has a type
keeps it, and evaluates to the same value or fails with the same error. -/
theorem declare_conservative (hf : ∀ g ∈ R.functions, g.key ≠ f.key)
    (h : Typing.check R.signatures e = .ok t) :
    Typing.check (R.declare f).signatures e = .ok t ∧ (R.declare f).eval e = R.eval e := by
  have hR : R.Extend (R.declare f) := extend_declare hf
  refine ⟨?_, eval_of_extend hR h⟩
  have hinfer : Typing.infer R.signatures e ⟨0⟩ = (.ok t, (Typing.infer R.signatures e ⟨0⟩).2) :=
    Prod.ext h rfl
  exact congrArg Prod.fst (Typing.infer_of_extend hR.signatures e _ _ _ hinfer)

/-- `-` goes from one overload to two, before a call of `/` that fails. -/
theorem declare_conservative_minus :
    let concat := Standard.strs "-" .string fun a b => .str (a ++ b)
    let e := Expr.call "-" [.int 1, .call "/" [.int 1, .int 0]]
    (∀ g ∈ Standard.registry.functions, g.key ≠ concat.key) ∧
    Typing.check Standard.registry.signatures e = .ok .int ∧
    Typing.check (Standard.registry.declare concat).signatures e = .ok .int ∧
    (Standard.registry.declare concat).eval e = Standard.registry.eval e := by
  intro concat e
  have hdiv : (Expr.call "/" [.int 1, .int 0]).form = .call "/" [.int 1, .int 0] := rfl
  have hminus : e.form = .call "-" [.int 1, .call "/" [.int 1, .int 0]] := rfl
  have htype (s : Supply) : Typing.infer Standard.registry.signatures
      (.call "/" [.int 1, .int 0]) s = (.ok .int, s) := by
    rw [Typing.infer_call hdiv, Typing.resolve_known (by decide)]
    simp only [Typing.inferArgs, Typing.infer_value (e := .int _) rfl]
    rfl
  have hcheck : Typing.check Standard.registry.signatures e = .ok .int := by
    rw [Typing.check, Typing.infer_call hminus, Typing.resolve_known (by decide)]
    simp only [Typing.inferArgs, Typing.infer_value (e := .int _) rfl, htype]
    rfl
  have hnew : ∀ g ∈ Standard.registry.functions, g.key ≠ concat.key := by decide
  exact ⟨hnew, hcheck, declare_conservative hnew hcheck⟩

end Curried.Registry
