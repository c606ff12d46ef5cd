import Curried.Proofs.Eval.Pool
import Curried.Proofs.Standard

/-!
From the values that a closure holds to the arguments that its native takes. Values are unpacked one
after the other, and that works out exactly for the values of some arguments
(`Arguments.unpack_eq_ok`). Those of a closure that has all its arguments are such values, for a
closure takes only what fits its parameters: so unpacking never fails behind a closure
(`Pool.history_unpacks`).
-/

namespace Curried

/-- One argument for each parameter. -/
inductive Arguments : List Param → Type where
  | nil : Arguments []
  | cons {p : Param} {ps : List Param} (a : p.Carrier) (as : Arguments ps) : Arguments (p :: ps)

/-- The value that is given for an argument. -/
def Param.embed : (p : Param) → p.Carrier → Value
  | int, n => .int n
  | bool, b => .bool b
  | str, s => .str s
  | any, v => v

def Arguments.values : Arguments ps → List Value
  | nil => []
  | @cons p _ a as => p.embed a :: as.values

/-- The function on all its arguments. -/
def Curry.on : Curry ps → Arguments ps → Result
  | r, .nil => r
  | f, .cons a as => on (f a) as

/-- The arguments that a list of values is for the parameters; `got` of `expected` arguments were
there before. Values left over are ignored. -/
def Arguments.unpack (expected got : Nat) :
    (ps : List Param) → List Value → Except EvalError (Arguments ps)
  | [], _ => .ok .nil
  | _ :: _, [] => .error (.arityMismatch "" expected got)
  | p :: ps, v :: vs => do
    let a ← p.accept v
    return .cons a (← unpack expected (got + 1) ps vs)

variable {p : Param} {ps : List Param} {v : Value} {vs : List Value} {expected got : Nat}

/-- A function gets all its arguments before it does anything. -/
theorem Curry.feed_eq (expected got : Nat) (f : Curry ps) (vs : List Value) :
    feed expected got ps f vs = Arguments.unpack expected got ps vs >>= f.on := by
  induction ps generalizing got vs with
  | nil => rfl
  | cons p ps ih =>
    cases vs with
    | nil => rfl
    | cons v vs =>
      rw [feed, Arguments.unpack]
      rcases p.accept v with e | a
      · rfl
      dsimp only [ok_bind]
      rw [ih]
      rcases Arguments.unpack expected (got + 1) ps vs with e | as <;> rfl

theorem Param.accept_eq_ok {a : p.Carrier} : p.accept v = .ok a ↔ p.embed a = v := by
  cases p with
  | any => rw [accept, Except.ok.injEq, embed, eq_comm]
  | int | bool | str => cases v <;> simp [accept, embed, eq_comm]

theorem Param.fits_iff : v.fits p.ty ↔ ∃ a, p.embed a = v := by
  constructor
  · intro h
    obtain ⟨a, ha⟩ := accept_of_fits h
    exact ⟨a, accept_eq_ok.mp ha⟩
  · rintro ⟨a, rfl⟩
    cases p <;> rfl

/-- Unpacking gives the arguments whose values come first. -/
theorem Arguments.unpack_eq_ok {as : Arguments ps} :
    unpack expected got ps vs = .ok as ↔ as.values <+: vs := by
  induction as generalizing got vs with
  | nil => exact iff_of_true rfl List.nil_prefix
  | cons a as ih =>
    cases vs with
    | nil => simp [unpack, Arguments.values]
    | cons v vs =>
      rw [unpack, Arguments.values, List.cons_prefix_cons, ← @ih vs (got + 1),
        ← Param.accept_eq_ok]
      simp only [bind_eq_ok]
      constructor
      · rintro ⟨b, hb, bs, hbs, h⟩
        cases h
        exact ⟨hb, hbs⟩
      · rintro ⟨ha, has⟩
        exact ⟨a, ha, as, has, rfl⟩

/-- The values of arguments are those that fit the parameters. -/
theorem Arguments.exists_values_iff :
    (∃ as : Arguments ps, as.values = vs) ↔
      List.Forall₂ (fun p v => Value.fits v p.ty) ps vs := by
  constructor
  · rintro ⟨as, rfl⟩
    induction as with
    | nil => exact .nil
    | cons a as ih => exact .cons (Param.fits_iff.mpr ⟨a, rfl⟩) ih
  · intro h
    induction h with
    | nil => exact ⟨.nil, rfl⟩
    | cons hv _ ih =>
      obtain ⟨a, rfl⟩ := Param.fits_iff.mp hv
      obtain ⟨as, rfl⟩ := ih
      exact ⟨.cons a as, rfl⟩

theorem Arguments.unpack_values (expected got : Nat) (as : Arguments ps) :
    unpack expected got ps as.values = .ok as := unpack_eq_ok.mpr List.prefix_rfl

theorem Native.call_values (native : Native) (as : Arguments native.params) :
    native.call as.values = native.body.on as := by
  rw [call, Curry.feed_eq, Arguments.unpack_values, ok_bind]

/-- The values of an eager closure with all its arguments are those of arguments for its native. -/
theorem Closure.Given.exists_values {R : Registry} {name : String} {signature : Scheme}
    {native : Native} {values : List Value} {nodes : List Expr}
    (h : (⟨⟨name, signature, .eager native⟩, values⟩ : Closure).Given R nodes)
    (hfull : values.length = native.params.length) :
    ∃ args : Arguments native.params, args.values = values := by
  have hlen : nodes.length = native.params.length := h.length_filled.symm.trans hfull
  have hfits := h.forall₂.2
  rw [List.take_of_length_le (Nat.le_of_eq hlen.symm)] at hfits
  exact Arguments.exists_values_iff.mpr hfits

namespace Pool

open Standard in
/-- After any requests, an eager closure that has all its arguments unpacks them without an error,
and its result is that of its native on them; they are what the expressions that were applied to it
and to what it is a copy of evaluate to, in this order. A choice that has all its arguments has the
three that it looks for. -/
theorem history_unpacks (R : Registry) (requests : List Request) (i : Nat) :
    let h := history R requests
    (∀ name signature native values,
      h.pool[i]? = some ⟨⟨name, signature, .eager native⟩, values⟩ →
      values.length = native.params.length →
      ∃ nodes, ∃ args : Arguments native.params,
        lineage h.log i = some (⟨name, signature, .eager native⟩, nodes) ∧
        List.Forall₂ (fun node v => R.eval node = .ok v) nodes args.values ∧
        Arguments.unpack native.params.length 0 native.params values = .ok args ∧
        answer R h.pool (.result i) = (.returned (native.body.on args), h.pool)) ∧
    ∀ nodes,
      h.pool[i]? = some ⟨.lazy "if" (.function [.bool, .var 0, .var 0] (.var 0)) choice, nodes⟩ →
      nodes.length = 3 →
      ∃ c a b, nodes = [c, a, b] ∧ answer R h.pool (.result i) =
        (.returned (Param.bool.receive (R.eval c) >>= fun condition =>
          if condition then R.eval a else R.eval b), h.pool) := by
  intro h
  constructor
  · intro name signature native values hi hfull
    obtain ⟨nodes, hlineage, hgiven⟩ := History.tracks R requests i _ hi
    obtain ⟨args, rfl⟩ := hgiven.exists_values hfull
    refine ⟨nodes, args, hlineage, hgiven.forall₂.1, Arguments.unpack_values .., ?_⟩
    rw [answer_result hi, Closure.result_of_filled hfull, Function.run, Ask.run_done,
      Native.call_values]
  · intro nodes hi hfull
    obtain ⟨c, a, b, rfl⟩ := List.length_eq_three.mp hfull
    refine ⟨c, a, b, rfl, ?_⟩
    rw [answer_result hi, Closure.result_of_filled hfull]
    exact congrArg (fun r => (Reply.returned r, h.pool))
      ((Ask.run_mapQuestions ..).trans (run_choice R.eval c a b))

open Standard in
/-- A function of two arguments that was declared with the type of one, and a choice whose second
branch has no value. -/
theorem history_unpacks_declared :
    let f : Function := .eager "f" (.arrow .int .int) ⟨[.str, .any], fun _ v => .ok v⟩
    let g : Function := .lazy "if" (.function [.bool, .var 0, .var 0] (.var 0)) choice
    let h := history registry [.new f, .new g, .apply 0 (.str "a"), .apply 1 (.bool true),
      .apply 0 (.int 1), .apply 1 (.int 2), .apply 1 (.list [.int 3])]
    h.pool = [⟨f, [Value.str "a", .int 1]⟩, ⟨g, [Expr.bool true, .int 2, .list [.int 3]]⟩] ∧
    answer registry h.pool (.result 0) = (.returned (.ok (.int 1)), h.pool) ∧
    answer registry h.pool (.result 1) = (.returned (.ok (.int 2)), h.pool) := by
  intro f g h
  have hstr : registry.eval (.str "a") = .ok (.str "a") := Registry.eval_value rfl
  have hint (n : Word) : registry.eval (.int n) = .ok (.int n) := Registry.eval_value rfl
  have htrue : registry.eval (.bool true) = .ok (.bool true) := Registry.eval_value rfl
  have hpool : h.pool = [⟨f, [Value.str "a", .int 1]⟩,
      ⟨g, [Expr.bool true, .int 2, .list [.int 3]]⟩] := by
    have harity : Scheme.arity ⟨.function [.bool, .var 0, .var 0] (.var 0)⟩ = 3 := rfl
    simp [h, f, g, history, History.next, answer, Closure.run_fill, Closure.apply, Closure.new,
      Function.eager, Function.lazy, Value.require, Value.fits, Param.ty, Ty.string, Value.typeName,
      hstr, hint, harity]
  refine ⟨hpool, ?_, ?_⟩
  · have hi : h.pool[0]? = some ⟨f, [Value.str "a", .int 1]⟩ := by
      rw [hpool]
      rfl
    obtain ⟨_, args, -, -, hargs, hanswer⟩ := (history_unpacks registry _ 0).1 _ _ _ _ hi rfl
    cases hargs
    exact hanswer
  · have hi : h.pool[1]? = some ⟨g, [Expr.bool true, .int 2, .list [.int 3]]⟩ := by
      rw [hpool]
      rfl
    obtain ⟨c, a, b, hnodes, hanswer⟩ := (history_unpacks registry _ 1).2 _ hi rfl
    cases hnodes
    rw [htrue, hint] at hanswer
    exact hanswer

end Pool

end Curried
