import Curried.Proofs.Eval.Complete
import Curried.Proofs.Eval.Demand
import Curried.Proofs.Eval.Extensional
import Curried.Standard

/-!
The standard functions do what their signatures say (`Standard.sound`), so evaluation of an
expression that has a type over them is safe (`check_safe`); where all types are constants, only an
operation on integers can fail (`eval_of_firstOrder`), and a head that names no function is an error
only when it is applied to nothing (`check_notAFunction_iff`). Without choices every expression that
has a value has a type (`check_eq_of_eval`).
-/

namespace Curried

open EvalError (IsArithmetic)

theorem Value.fits_bool {v : Value} : v.fits .bool ↔ ∃ b, v = .bool b := by
  cases v <;> simp [fits, Ty.bool, typeName]

namespace Standard

variable {name : String}

theorem exact_safe (operation : String) (n : Int) :
    Result.Safe IsArithmetic .int (exact operation n) := by
  unfold exact
  split
  · exact .ok rfl
  · exact .error .integerOverflow

theorem div_safe (a b : Word) : Result.Safe IsArithmetic .int (div a b) := by
  unfold div
  split
  · exact .error .divisionByZero
  · exact exact_safe ..

theorem rem_safe (a b : Word) : Result.Safe IsArithmetic .int (rem a b) := by
  unfold rem
  split
  · exact .error .divisionByZero
  · have hdiv := exact_safe "%" (a.toInt.tdiv b.toInt)
    generalize exact "%" (a.toInt.tdiv b.toInt) = r at hdiv
    cases hdiv with
    | ok => exact exact_safe ..
    | error h => exact .error h

theorem ints_typed {result : String} {body : Word → Word → Result}
    (h : ∀ a b, Result.Safe IsArithmetic ⟨.const result⟩ (body a b)) :
    (ints name (.const result) body).Typed := by
  refine .eager (Native.typed_of_returns ?_ ?_)
  · decide
  · exact h

theorem comparison_typed {holds : Int → Int → Bool} : (comparison name holds).Typed :=
  ints_typed fun _ _ => .ok rfl

theorem bools_typed (body : Bool → Bool → Bool) : (bools name body).Typed := by
  refine .eager (Native.typed_of_returns ?_ ?_)
  · decide
  · intro a b
    exact .ok rfl

theorem strs_typed {result : String} {body : String → String → Value}
    (h : ∀ a b, (body a b).typeName = result) : (strs name (.const result) body).Typed := by
  refine .eager (Native.typed_of_returns ?_ ?_)
  · decide
  · intro a b
    exact .ok (congrArg (fun type => Scheme.mk (.const type)) (h a b))

theorem not_typed :
    (Function.eager "not" (.arrow .bool .bool) ⟨[.bool], fun a => .ok (.bool !a)⟩).Typed := by
  refine .eager (Native.typed_of_returns ?_ ?_)
  · decide
  · intro a
    exact .ok rfl

theorem return_typed :
    (Function.eager "return" (.arrow (.var 0) (.var 0)) ⟨[.any], fun v => .ok v⟩).Typed := by
  refine .eager ⟨.cons (.inl rfl) .nil, ?_⟩
  intro vs hfit
  obtain _ | @⟨_, v, _, _, _, _ | _⟩ := hfit
  exact ⟨v.scheme, rfl, .ok rfl⟩

theorem const_typed : (Function.eager "const" (.function [.var 0, .var 1] (.var 0))
    ⟨[.any, .any], fun v _ => .ok v⟩).Typed := by
  refine .eager ⟨.cons (.inl rfl) (.cons (.inl rfl) .nil), ?_⟩
  intro vs hfit
  obtain _ | @⟨_, v, _, _, _, _ | @⟨_, w, _, _, _, _ | _⟩⟩ := hfit
  exact ⟨v.scheme, rfl, .ok rfl⟩

/-! ## Choice -/

/-- A choice has the type of each branch that has a type of values. -/
theorem choice_type {t₁ t₂ t₃ t : Scheme} {s : Supply} {v : Value}
    (h : (Scheme.applyAll ⟨.function [.bool, .var 0, .var 0] (.var 0)⟩ [t₁, t₂, t₃] s).1 = .ok t)
    (hv : t₂ = v.scheme ∨ t₃ = v.scheme) : t = v.scheme := by
  obtain ⟨q₁, s₁, h₁, h⟩ := Scheme.applyAll_cons_eq_ok.mp h
  obtain ⟨q₂, s₂, h₂, h⟩ := Scheme.applyAll_cons_eq_ok.mp h
  obtain ⟨q₃, s₃, h₃, h⟩ := Scheme.applyAll_cons_eq_ok.mp h
  cases h
  have h₂ := congrArg Prod.fst h₂
  have h₃ := congrArg Prod.fst h₃
  obtain ⟨_, _, θ₁, hty, hq₁⟩ := Scheme.apply_subst (congrArg Prod.fst h₁)
  cases hty
  rcases hv with rfl | rfl
  · obtain ⟨d, c, θ₂, hty, hd, hq₂⟩ := Scheme.apply_const_subst h₂
    obtain ⟨rfl, rfl⟩ := Ty.arrow.inj (hq₁.symm.trans hty)
    obtain ⟨d, c, θ₃, hty, ht⟩ := Scheme.apply_subst h₃
    obtain ⟨rfl, rfl⟩ := Ty.arrow.inj (hq₂.symm.trans hty)
    exact congrArg Scheme.mk (ht.trans (congrArg (Ty.subst θ₃) hd))
  · obtain ⟨d, c, θ₂, hty, hq₂⟩ := Scheme.apply_subst h₂
    obtain ⟨rfl, rfl⟩ := Ty.arrow.inj (hq₁.symm.trans hty)
    obtain ⟨d, c, θ₃, hty, hd, ht⟩ := Scheme.apply_const_subst h₃
    obtain ⟨rfl, rfl⟩ := Ty.arrow.inj (hq₂.symm.trans hty)
    exact congrArg Scheme.mk (ht.trans hd)

theorem run_choice (answer : Expr → Result) (c a b : Expr) :
    (choice [c, a, b]).run (fun i => answer [c, a, b][i]) =
      Param.bool.receive (answer c) >>= fun condition =>
        if condition then answer a else answer b := by
  simp only [choice, Ask.run_ask, Fin.getElem_fin, List.getElem_cons_zero]
  rcases Param.bool.receive (answer c) with e | _ | _ <;> rfl

theorem choice_sound :
    (Function.lazy "if" (.function [.bool, .var 0, .var 0] (.var 0)) choice).Sound := by
  intro P answer args ts s t harith harity hargs happly
  rw [Function.lazy, Closure.run_call_lazy]
  split
  · rename_i hlen
    obtain ⟨c, a, b, rfl⟩ := List.length_eq_three.mp hlen
    obtain _ | ⟨hc, _ | ⟨ha, _ | ⟨hb, _ | _⟩⟩⟩ := hargs
    rw [run_choice]
    generalize answer c = r at hc
    cases hc with
    | error he => exact .error he
    | @ok v hv =>
      have hfits := Scheme.fits_of_applyAll (i := 0) (v := v) rfl (by rw [hv]; rfl) happly
      obtain ⟨condition, rfl⟩ := Value.fits_bool.mp hfits
      cases condition with
      | true =>
        exact ha.retype fun v hv => choice_type happly (.inl hv)
      | false =>
        exact hb.retype fun v hv => choice_type happly (.inr hv)
  · rename_i hlen
    exact .error (harity hlen _)

/-- Every standard function but the choice is eager and does what its signature says. -/
theorem typed_or_choice : ∀ f ∈ functions,
    f.Typed ∨ f = .lazy "if" (.function [.bool, .var 0, .var 0] (.var 0)) choice := by
  simp only [functions, List.forall_mem_append]
  refine ⟨⟨⟨⟨?_, ?_⟩, ?_⟩, ?_⟩, ?_⟩
  · simp only [arithmetic, List.forall_mem_cons]
    exact ⟨.inl (ints_typed fun _ _ => exact_safe ..), .inl (ints_typed fun _ _ => exact_safe ..),
      .inl (ints_typed fun _ _ => exact_safe ..), .inl (ints_typed div_safe),
      .inl (ints_typed rem_safe), nofun⟩
  · simp only [comparisons, List.forall_mem_cons]
    exact ⟨.inl comparison_typed, .inl comparison_typed, .inl comparison_typed,
      .inl comparison_typed, .inl comparison_typed, .inl (bools_typed _),
      .inl (strs_typed fun _ _ => rfl), nofun⟩
  · simp only [logic, List.forall_mem_cons]
    exact ⟨.inl not_typed, .inl (bools_typed _), .inl (bools_typed _), nofun⟩
  · simp only [strings, List.forall_mem_cons]
    exact ⟨.inl (strs_typed fun _ _ => rfl), .inl (strs_typed fun _ _ => rfl), nofun⟩
  · simp only [polymorphic, List.forall_mem_cons]
    exact ⟨.inr trivial, .inl return_typed, .inl const_typed, nofun⟩

/-- Every standard function does what its signature says. -/
theorem sound : ∀ f ∈ functions, f.Sound := by
  intro f hf
  rcases typed_or_choice f hf with h | rfl
  · exact h.sound
  · exact choice_sound

theorem choice_strict (nodes : List Expr) : (choice nodes).Strict := by
  unfold choice
  split
  · refine ⟨fun _ => rfl, fun r => ?_⟩
    dsimp only
    split
    · exact ⟨fun _ => rfl, fun _ => trivial⟩
    · exact ⟨fun _ => rfl, fun _ => trivial⟩
    · trivial
  · trivial

/-- No standard function recovers from an error in an argument. -/
theorem strict : ∀ f ∈ functions, f.Strict := by
  intro f hf
  rcases typed_or_choice f hf with h | rfl
  · cases h
    trivial
  · exact choice_strict

theorem choice_blind :
    (Function.lazy "if" (.function [.bool, .var 0, .var 0] (.var 0)) choice).Blind := by
  intro answer args args' h
  have harity : Scheme.arity ⟨.function [.bool, .var 0, .var 0] (.var 0)⟩ = 3 := rfl
  rw [Function.lazy, Closure.run_call_lazy, Closure.run_call_lazy, harity]
  by_cases hlen : args.length = 3
  · rw [Function.lazy, Closure.call_lazy, harity, if_pos hlen] at h
    rw [if_pos hlen, if_pos (h.length_eq ▸ hlen)]
    obtain ⟨c, a, b, rfl⟩ := List.length_eq_three.mp hlen
    obtain _ | ⟨hc, _ | ⟨ha, _ | ⟨hb, _ | _⟩⟩⟩ := h
    rw [run_choice, run_choice, ← hc (.inl rfl)]
    rcases hr : Param.bool.receive (answer c) with e | _ | _
    · rfl
    · exact hb (.inr (by simp [hr, Ask.mapQuestions, Ask.Asks]))
    · exact ha (.inr (by simp [hr, Ask.mapQuestions, Ask.Asks]))
  · rw [if_neg hlen, if_neg (h.length_eq ▸ hlen), h.length_eq]

/-- No standard function sees more of its arguments than the values of those that it asks for. -/
theorem blind : ∀ f ∈ functions, f.Blind := by
  intro f hf
  rcases typed_or_choice f hf with h | rfl
  · cases h
    exact Function.blind_eager _ _ _
  · exact choice_blind

/-- Every standard function sees the values of its arguments only. -/
theorem extensional : ∀ f ∈ functions, f.Extensional :=
  fun f hf => (blind f hf).extensional

theorem typed_of_ne : ∀ f ∈ functions, f.name ≠ "if" → f.Typed := by
  intro f hf hname
  rcases typed_or_choice f hf with h | rfl
  · exact h
  · exact absurd rfl hname

theorem arity_eq : ∀ f ∈ functions, f.arity = f.signature.arity := by decide

/-- No function is declared over another one. -/
theorem registry_functions : registry.functions = functions := rfl

/-- Type safety: an expression that has a type evaluates to a value of that type, or fails in an
operation on integers, with a wrong number of arguments, or at a head that names no function. -/
theorem check_safe {e : Expr} {t : Scheme} (h : Typing.check registry.signatures e = .ok t) :
    (∃ v, registry.eval e = .ok v ∧ t = v.scheme) ∨
    ∃ err, registry.eval e = .error err ∧
      (err = .divisionByZero ∨ (∃ operation, err = .integerOverflow operation) ∨
        (∃ name expected got, err = .arityMismatch name expected got) ∨
        ∃ found, err = .notAFunction found) := by
  have hsafe := registry.eval_safe (registry_functions ▸ sound) h
  generalize registry.eval e = r at hsafe
  cases hsafe with
  | ok hv => exact .inl ⟨_, rfl, hv.symm⟩
  | error he =>
    refine .inr ⟨_, rfl, ?_⟩
    rcases he with he | ⟨a, -, hraises⟩
    · cases he with
      | divisionByZero => exact .inl rfl
      | integerOverflow => exact .inr (.inl ⟨_, rfl⟩)
    · cases hraises with
      | misapplied => exact .inr (.inr (.inr ⟨_, rfl⟩))
      | arity => exact .inr (.inr (.inl ⟨_, _, _, rfl⟩))

/-- The type of `(return (+ 1) 2)` rules out that its evaluation fails for a type, although it gives
`return` one argument more than that takes. -/
theorem check_safe_return :
    Typing.check registry.signatures (.call "return" [.call "+" [.int 1], .int 2]) = .ok .int ∧
    ∀ expected found, registry.eval (.call "return" [.call "+" [.int 1], .int 2]) ≠
      .error (.typeMismatch expected found) := by
  have hplus (s : Supply) : Typing.infer registry.signatures (.call "+" [.int 1]) s =
      (.ok ⟨.arrow .int .int⟩, s) := by
    have hf : (Expr.call "+" [.int 1]).form = .call "+" [.int 1] := rfl
    rw [Typing.infer_call hf, Typing.resolve_known (by decide)]
    simp only [Typing.inferArgs, Typing.infer_value (e := .int _) rfl]
    rfl
  have hf : (Expr.call "return" [.call "+" [.int 1], .int 2]).form =
    .call "return" [.call "+" [.int 1], .int 2] := rfl
  have hcheck : Typing.check registry.signatures
      (.call "return" [.call "+" [.int 1], .int 2]) = .ok .int := by
    rw [Typing.check, Typing.infer_call hf, Typing.resolve_known (by decide)]
    simp only [Typing.inferArgs, hplus, Typing.infer_value (e := .int _) rfl]
    rfl
  refine ⟨hcheck, fun expected found herr => ?_⟩
  rcases check_safe hcheck with ⟨v, hv, -⟩ | ⟨err, herr', h⟩
  · cases hv.symm.trans herr
  · cases herr.symm.trans herr'
    simp at h

/-- Progress: if an expression and all arguments in it have constant types and all heads are names,
it evaluates to a value of its type, or an operation on integers fails. -/
theorem eval_of_firstOrder {e : Expr} (h : registry.FirstOrder e) :
    (∃ v, registry.eval e = .ok v ∧ Typing.check registry.signatures e = .ok v.scheme) ∨
    ∃ err, registry.eval e = .error err ∧
      (err = .divisionByZero ∨ ∃ operation, err = .integerOverflow operation) := by
  obtain ⟨t, ht, hsafe⟩ := registry.eval_firstOrder (registry_functions ▸ sound)
    (registry_functions ▸ arity_eq) h
  generalize registry.eval e = r at hsafe
  cases hsafe with
  | ok hv => exact .inl ⟨_, rfl, hv ▸ ht⟩
  | error he =>
    refine .inr ⟨_, rfl, ?_⟩
    cases he with
    | divisionByZero => exact .inl rfl
    | integerOverflow => exact .inr ⟨_, rfl⟩

/-- `(/ 1 0)` is of first order. -/
theorem eval_of_firstOrder_div : registry.FirstOrder (.call "/" [.int 1, .int 0]) ∧
    ∀ name expected got, registry.eval (.call "/" [.int 1, .int 0]) ≠
      .error (.arityMismatch name expected got) := by
  have hf : (Expr.call "/" [.int 1, .int 0]).form = .call "/" [.int 1, .int 0] := rfl
  have htype : Typing.check registry.signatures (.call "/" [.int 1, .int 0]) = .ok .int := by
    rw [Typing.check, Typing.infer_call hf, Typing.resolve_known (by decide)]
    simp only [Typing.inferArgs, Typing.infer_value (e := .int _) rfl]
    rfl
  have hfirst : registry.FirstOrder (.call "/" [.int 1, .int 0]) := by
    refine .of_call hf htype fun a ha => ?_
    simp only [List.mem_cons, List.not_mem_nil, or_false] at ha
    rcases ha with rfl | rfl
    · exact .of_value rfl
    · exact .of_value rfl
  refine ⟨hfirst, fun name expected got herr => ?_⟩
  rcases eval_of_firstOrder hfirst with ⟨v, hv, -⟩ | ⟨err, herr', h⟩
  · cases hv.symm.trans herr
  · cases herr.symm.trans herr'
    simp at h

/-! ## Heads that name no function -/

/-- An expression that has a type fails for a head that names no function exactly when its
evaluation reaches a literal or the unit applied to no arguments. -/
theorem check_notAFunction_iff {e : Expr} {t : Scheme}
    (h : Typing.check registry.signatures e = .ok t) {found : String} :
    registry.eval e = .error (.notAFunction found) ↔
      ∃ a head, registry.Reaches e a ∧ a.form = .misapplied head [] ∧
        found = head.quote.tagged :=
  registry.eval_notAFunction_iff (registry_functions ▸ sound) (registry_functions ▸ strict) h

/-- The evaluation of `(not (true))` reaches `(true)`. -/
theorem check_notAFunction_iff_not :
    Typing.check registry.signatures (.call "not" [.list [.bool true]]) = .ok .bool ∧
    registry.eval (.call "not" [.list [.bool true]]) = .error (.notAFunction "true:bool") := by
  have hf : (Expr.call "not" [.list [.bool true]]).form = .call "not" [.list [.bool true]] := rfl
  have htype (s : Supply) :
      Typing.infer registry.signatures (.list [.bool true]) s = (.ok .bool, s) := by
    rw [Typing.infer_misapplied (show (Expr.list [.bool true]).form = .misapplied (.bool true) []
      from rfl)]
    rfl
  have hcheck : Typing.check registry.signatures (.call "not" [.list [.bool true]]) =
      .ok .bool := by
    rw [Typing.check, Typing.infer_call hf, Typing.resolve_known (by decide)]
    simp only [Typing.inferArgs, htype]
    rfl
  refine ⟨hcheck, (check_notAFunction_iff hcheck).mpr ⟨.list [.bool true], .bool true, ?_, rfl, ?_⟩⟩
  · refine .argument (a := .list [.bool true]) ?_ .whole
    rw [Registry.evalAsking_call hf rfl]
    exact .inl rfl
  · simp [Value.quote, Expr.bool, Literal.tagged]

/-- `(1)` has the type of its head, but no value: the head names no function. -/
theorem check_literal_application :
    Typing.check registry.signatures (.list [.int 1]) = .ok .int ∧
    registry.eval (.list [.int 1]) = .error (.notAFunction "1:int") := by
  have hf : (Expr.list [.int 1]).form = .misapplied (.int 1) [] := rfl
  constructor
  · rw [Typing.check, Typing.infer_misapplied hf]
    rfl
  · rw [Registry.eval_misapplied hf, Registry.notCallable]
    simp only [Value.quote, Expr.int, Expr.tagged_leaf]
    decide

/-! ## Completeness -/

/-- An expression that has a value also has its type, if it makes no choice: a choice may have the
value of one branch although the other branch, or the two together, have no type. -/
theorem check_eq_of_eval {e : Expr} {v : Value} (he : e.Avoids "if")
    (h : registry.eval e = .ok v) : Typing.check registry.signatures e = .ok v.scheme :=
  registry.check_of_eval (registry_functions ▸ typed_of_ne) he h

/-- `((+ "a") b)` runs the second overload of `+`, on a string and an atom. -/
theorem check_eq_of_eval_plus :
    (Expr.list [.call "+" [.str "a"], .atom "b"]).Avoids "if" ∧
    registry.eval (.list [.call "+" [.str "a"], .atom "b"]) = .ok (.str "ab") ∧
    Typing.check registry.signatures (.list [.call "+" [.str "a"], .atom "b"]) = .ok .string := by
  have hf : (Expr.list [.call "+" [.str "a"], .atom "b"]).form =
    .call "+" [.str "a", .atom "b"] := rfl
  have havoids : (Expr.list [.call "+" [.str "a"], .atom "b"]).Avoids "if" := by
    refine .of_call hf (by decide) fun a ha => ?_
    simp only [List.mem_cons, List.not_mem_nil, or_false] at ha
    rcases ha with rfl | rfl
    · exact .of_value rfl
    · exact .of_value rfl
  have hresolve : registry.resolve "+" [.str "a", .atom "b"] =
      .ok (strs "+" .string fun a b => .str (a ++ b)) := by
    rw [Registry.resolve_overloaded (by decide), Typing.resolve_known (by decide)]
    simp only [Typing.inferArgs, Typing.infer_value (e := .str _) rfl,
      Typing.infer_value (e := .atom _) rfl]
    rfl
  have heval : registry.eval (.list [.call "+" [.str "a"], .atom "b"]) = .ok (.str "ab") := by
    rw [Registry.eval_call hf hresolve, strs, Function.eager, Closure.run_call_eager]
    simp only [Closure.collect, Registry.eval_value (e := .str _) rfl,
      Registry.eval_value (e := .atom _) rfl]
    rfl
  exact ⟨havoids, heval, check_eq_of_eval havoids heval⟩

end Standard

end Curried
