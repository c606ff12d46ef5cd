import Mathlib.Data.List.Forall2
import Curried.Eval.Closure
import Curried.Proofs.Except

/-!
What a call does with its arguments. An eager function takes them in order, each evaluated to the
type of its parameter (`collect`), and fails behind the first that does not work out; a lazy one
only counts them. A call that gives too few arguments or too many fails when it has come so far.
-/

namespace Curried

theorem Value.require_eq_ok {v w : Value} {t : Ty} :
    v.require t = .ok w ↔ v.fits t ∧ v = w := by
  rw [require]
  split <;> simp_all

namespace Closure

variable {answer : Expr → Result} {name : String} {signature : Scheme}

/-- The values of the arguments, in order, each with the type of its parameter. Arguments without a
parameter are not looked at. -/
def collect (answer : Expr → Result) : List Param → List Expr → Except EvalError (List Value)
  | p :: ps, node :: nodes => do
    let v ← (← answer node).require p.ty
    return v :: (← collect answer ps nodes)
  | _, _ => .ok []

@[simp] theorem collect_nil (ps : List Param) : collect answer ps [] = .ok [] := by
  cases ps <;> rfl

theorem run_applyAll_eager {native : Native} (args : List Expr) {values : List Value}
    (h : values.length ≤ native.params.length) :
    ((⟨⟨name, signature, .eager native⟩, values⟩ : Closure).applyAll args).run answer =
      collect answer (native.params.drop values.length) args >>= fun vs =>
        if values.length + args.length ≤ native.params.length then
          .ok ⟨⟨name, signature, .eager native⟩, values ++ vs⟩
        else .error (.arityMismatch name native.params.length (native.params.length + 1)) := by
  induction args generalizing values with
  | nil => simp [applyAll, h]
  | cons node nodes ih =>
    rw [applyAll, Ask.run_bind]
    cases hp : native.params[values.length]? with
    | none =>
      have hfull : values.length = native.params.length :=
        Nat.le_antisymm h (List.getElem?_eq_none_iff.mp hp)
      simp [apply, saturated, Function.arity, hfull, collect]
    | some p =>
      obtain ⟨hlt, rfl⟩ := List.getElem?_eq_some_iff.mp hp
      simp only [apply, hp, Ask.run_ask, List.drop_eq_getElem_cons hlt, collect]
      rcases answer node with e | v
      · rfl
      rcases hv : v.require native.params[values.length].ty with e | w
      · simp [hv]
      · simp only [hv, Ask.run_done, ok_bind]
        rw [ih (by rw [List.length_append]; exact hlt)]
        simp [Nat.add_assoc, Nat.add_comm 1]

theorem collect_cons_eq_ok {p : Param} {ps : List Param} {node : Expr} {nodes : List Expr}
    {vs : List Value} : collect answer (p :: ps) (node :: nodes) = .ok vs ↔
      ∃ v ws, answer node = .ok v ∧ v.fits p.ty ∧ collect answer ps nodes = .ok ws ∧
        vs = v :: ws := by
  simp only [collect, bind_eq_ok, Value.require_eq_ok]
  constructor
  · intro h
    obtain ⟨v, hv, _, ⟨hfits, rfl⟩, ws, hws, h⟩ := h
    cases h
    exact ⟨v, ws, hv, hfits, hws, rfl⟩
  · intro h
    obtain ⟨v, ws, hv, hfits, hws, rfl⟩ := h
    exact ⟨v, hv, v, ⟨hfits, rfl⟩, ws, hws, rfl⟩

theorem length_collect {ps : List Param} {args : List Expr} {vs : List Value}
    (h : collect answer ps args = .ok vs) : vs.length = min args.length ps.length := by
  induction ps generalizing args vs with
  | nil =>
    cases h
    simp
  | cons p ps ih =>
    cases args with
    | nil =>
      cases h
      simp
    | cons node nodes =>
      obtain ⟨v, ws, -, -, hws, rfl⟩ := collect_cons_eq_ok.mp h
      rw [List.length_cons, ih hws, List.length_cons, List.length_cons, Nat.succ_min_succ]

/-- What is collected is the values of the arguments, each fit for its parameter. -/
theorem forall₂_of_collect {ps : List Param} {args : List Expr} {vs : List Value}
    (h : collect answer ps args = .ok vs) (hle : args.length ≤ ps.length) :
    List.Forall₂ (fun a v => answer a = .ok v) args vs ∧
      List.Forall₂ (fun p v => Value.fits v p.ty) (ps.take args.length) vs := by
  induction ps generalizing args vs with
  | nil =>
    obtain rfl := List.length_eq_zero_iff.mp (Nat.le_zero.mp hle)
    cases h
    exact ⟨.nil, .nil⟩
  | cons p ps ih =>
    cases args with
    | nil =>
      cases h
      exact ⟨.nil, .nil⟩
    | cons a args =>
      obtain ⟨v, ws, hv, hfits, hws, rfl⟩ := collect_cons_eq_ok.mp h
      obtain ⟨hargs, hps⟩ := ih hws (Nat.le_of_succ_le_succ hle)
      exact ⟨.cons hv hargs, .cons hfits hps⟩

theorem result_of_filled {c : Closure} (h : c.filled.length = c.function.arity) :
    c.result = c.function.run c.filled := if_pos h

theorem result_of_unfilled {c : Closure} (h : c.filled.length ≠ c.function.arity) :
    c.result = .done (.error (.arityMismatch c.function.name c.function.arity c.filled.length)) :=
  if_neg h

/-- An eager call evaluates its arguments in order and then, if it has as many as the function
takes, computes the result from their values. -/
theorem run_call_eager (answer : Expr → Result) (name : String) (signature : Scheme)
    (native : Native) (args : List Expr) :
    (call ⟨name, signature, .eager native⟩ args).run answer =
      collect answer native.params args >>= fun vs =>
        if args.length = native.params.length then native.call vs
        else .error (.arityMismatch name native.params.length
          (min args.length (native.params.length + 1))) := by
  rw [call, Ask.run_bind, new, run_applyAll_eager args (Nat.zero_le _), List.length_nil,
    List.drop_zero, Nat.zero_add]
  rcases hvs : collect answer native.params args with e | vs
  · rfl
  have hlen := length_collect hvs
  simp only [ok_bind, List.nil_append]
  rcases Nat.lt_trichotomy args.length native.params.length with hlt | heq | hgt
  · rw [if_pos (Nat.le_of_lt hlt), if_neg (Nat.ne_of_lt hlt)]
    have hvs : vs.length = min args.length (native.params.length + 1) := by omega
    rw [← hvs]
    have hne : vs.length ≠ native.params.length := by omega
    exact congrArg (Ask.run answer) (result_of_unfilled hne)
  · rw [if_pos (Nat.le_of_eq heq), if_pos heq]
    have heq : vs.length = native.params.length := by omega
    exact congrArg (Ask.run answer) (result_of_filled heq)
  · rw [if_neg (Nat.not_le_of_lt hgt), if_neg (Nat.ne_of_gt hgt), Nat.min_eq_right hgt]
    rfl

theorem applyAll_lazy {run : (nodes : List Expr) → Ask (Fin nodes.length) Result Result}
    (args : List Expr) {nodes : List Expr} (h : nodes.length ≤ signature.arity) :
    (⟨⟨name, signature, .lazy run⟩, nodes⟩ : Closure).applyAll args =
      .done (if nodes.length + args.length ≤ signature.arity then
        .ok ⟨⟨name, signature, .lazy run⟩, nodes ++ args⟩
      else .error (.arityMismatch name signature.arity (signature.arity + 1))) := by
  induction args generalizing nodes with
  | nil => simp [applyAll, h]
  | cons node rest ih =>
    rw [applyAll, apply]
    by_cases hlt : nodes.length < signature.arity
    · rw [if_pos hlt]
      refine (ih (by rw [List.length_append]; exact hlt)).trans ?_
      simp [Nat.add_assoc, Nat.add_comm 1]
    · rw [if_neg hlt, if_neg (by rw [List.length_cons]; omega)]
      have hfull : nodes.length = signature.arity := Nat.le_antisymm h (Nat.le_of_not_lt hlt)
      simp [saturated, Function.arity, hfull, Ask.bind]

/-- A lazy call is the function's own computation on the argument expressions, if these are as many
as the function takes. -/
theorem call_lazy (name : String) (signature : Scheme)
    (run : (nodes : List Expr) → Ask (Fin nodes.length) Result Result) (args : List Expr) :
    call ⟨name, signature, .lazy run⟩ args =
      if args.length = signature.arity then (run args).mapQuestions fun i => args[i]
      else .done (.error (.arityMismatch name signature.arity
        (min args.length (signature.arity + 1)))) := by
  rw [call, new, applyAll_lazy args (Nat.zero_le _), List.length_nil, Nat.zero_add, List.nil_append]
  rcases Nat.lt_trichotomy args.length signature.arity with hlt | heq | hgt
  · rw [if_pos (Nat.le_of_lt hlt), if_neg (Nat.ne_of_lt hlt), Nat.min_eq_left (by omega)]
    exact result_of_unfilled (Nat.ne_of_lt hlt)
  · rw [if_pos (Nat.le_of_eq heq), if_pos heq]
    exact result_of_filled heq
  · rw [if_neg (Nat.not_le_of_lt hgt), if_neg (Nat.ne_of_gt hgt), Nat.min_eq_right hgt]
    rfl

/-- A lazy call computes its result from the argument expressions, if it has as many as the
function takes. -/
theorem run_call_lazy (answer : Expr → Result) (name : String) (signature : Scheme)
    (run : (nodes : List Expr) → Ask (Fin nodes.length) Result Result) (args : List Expr) :
    (call ⟨name, signature, .lazy run⟩ args).run answer =
      if args.length = signature.arity then (run args).run fun i => answer args[i]
      else .error (.arityMismatch name signature.arity
        (min args.length (signature.arity + 1))) := by
  rw [call_lazy]
  split
  · exact Ask.run_mapQuestions ..
  · rfl

end Closure

end Curried
