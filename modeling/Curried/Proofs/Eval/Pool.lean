import Mathlib.Data.List.Forall2
import Mathlib.Data.List.Induction
import Curried.Eval.Pool
import Curried.Proofs.Eval.Call
import Curried.Standard

/-!
What becomes of closures in use. Whatever is asked of a pool, each closure in it is the one that its
own lineage makes of a new closure (`History.tracks`): the arguments that it and the closures that
it is a copy of have taken, and nothing else that went on in the pool. So it replies to every
request as its lineage says (`Pool.history_conforms`).
-/

namespace Curried

namespace Function

/-- The function takes the argument for its parameter number `k`: an eager one if the argument has a
value that fits the parameter, a lazy one in any case. -/
def Takes (R : Registry) (k : Nat) (node : Expr) : Function → Prop
  | ⟨_, _, .eager native⟩ => ∃ p v, native.params[k]? = some p ∧ R.eval node = .ok v ∧ v.fits p.ty
  | ⟨_, _, .lazy _⟩ => True

/-- `f.Makes R nodes r`: for these arguments the function has the result `r`, an eager one that of
its native on their values in this order, a lazy one that of its own computation on the expressions
in this order. -/
def Makes (R : Registry) (nodes : List Expr) (r : Result) : Function → Prop
  | ⟨_, _, .eager native⟩ =>
    ∃ values, List.Forall₂ (fun node v => R.eval node = .ok v) nodes values ∧ r = native.call values
  | ⟨_, _, .lazy run⟩ => r = (run nodes).run fun i => R.eval (nodes.get i)

end Function

namespace Closure

variable {R : Registry} {c c' : Closure} {name : String} {signature : Scheme} {native : Native}
  {run : (nodes : List Expr) → Ask (Fin nodes.length) Result Result} {node : Expr}
  {nodes kept : List Expr} {values : List Value}

/-! ## One more argument -/

/-- A closure with all its arguments takes no more, whatever they are. -/
theorem apply_of_full (h : c.function.arity ≤ c.filled.length) (node : Expr) :
    c.apply node = .done (.error c.saturated) := by
  obtain ⟨⟨name, signature, native | run⟩, filled⟩ := c
  · rw [apply, List.getElem?_eq_none_iff.mpr h]
  · exact if_neg (Nat.not_lt.mpr h)

/-- Filling a closure in its place applies it; where that fails, the closure stays as it is. -/
theorem run_fill (R : Registry) (node : Expr) (c : Closure) :
    (fill R node).run.run c =
      match (c.apply node).run R.eval with
      | .ok c' => (.ok (), c')
      | .error e => (.error e, c) := by
  have hget : (get : ExceptT EvalError (StateM Closure) Closure).run.run c = pure (.ok c, c) := rfl
  rw [fill, ExceptT.run_bind, StateT.run_bind, hget, pure_bind]
  dsimp only
  by_cases hfull : c.function.arity ≤ c.filled.length
  · rw [if_pos hfull, apply_of_full hfull]
    rfl
  rw [if_neg hfull]
  obtain ⟨⟨name, signature, native | run⟩, filled⟩ := c
  · have hlt : filled.length < native.params.length := Nat.lt_of_not_le hfull
    simp only [apply, List.getElem?_eq_getElem hlt, Ask.run_ask, Registry.evalTo]
    rcases R.eval node with e | v
    · rfl
    dsimp only [ok_bind]
    rcases v.require native.params[filled.length].ty with e | w
    · rfl
    · rfl
  · have hlt : filled.length < signature.arity := Nat.lt_of_not_le hfull
    rw [apply, if_pos hlt]
    rfl

/-- An argument is taken if there is a parameter left and the function takes it there. -/
theorem exists_apply_iff (hlt : c.filled.length < c.function.arity) :
    (∃ c', (c.apply node).run R.eval = .ok c') ↔ c.function.Takes R c.filled.length node := by
  obtain ⟨⟨name, signature, native | run⟩, filled⟩ := c
  · have hlt : filled.length < native.params.length := hlt
    simp only [apply, Function.Takes, List.getElem?_eq_getElem hlt, Ask.run_ask]
    rcases R.eval node with e | v
    · simp
    · by_cases hfits : v.fits native.params[filled.length].ty
      · simp [Value.require, hfits]
      · simp [Value.require, hfits]
  · have hlt : filled.length < signature.arity := hlt
    simp [apply, Function.Takes, hlt]

theorem function_of_apply (h : (c.apply node).run R.eval = .ok c') : c'.function = c.function := by
  obtain ⟨⟨name, signature, native | run⟩, filled⟩ := c
  · rw [apply] at h
    split at h
    · cases h
    · rw [Ask.run_ask] at h
      dsimp only at h
      split at h
      · cases h
      · split at h
        · cases h
        · cases h
          rfl
  · rw [apply] at h
    split at h
    · cases h
      rfl
    · cases h

theorem run_applyAll_append (answer : Expr → Result) (c : Closure) (xs ys : List Expr) :
    (c.applyAll (xs ++ ys)).run answer =
      (c.applyAll xs).run answer >>= fun c => (c.applyAll ys).run answer := by
  induction xs generalizing c with
  | nil => rfl
  | cons x xs ih =>
    rw [List.cons_append, applyAll, applyAll, Ask.run_bind, Ask.run_bind]
    rcases (c.apply x).run answer with e | c'
    · rfl
    · exact ih c'

theorem run_applyAll_singleton (answer : Expr → Result) (c : Closure) (node : Expr) :
    (c.applyAll [node]).run answer = (c.apply node).run answer := by
  rw [applyAll, Ask.run_bind]
  rcases (c.apply node).run answer with e | c'
  · rfl
  · rfl

/-! ## A closure by itself -/

/-- The closure is what a new one of its function becomes that is given the arguments one after the
other and takes each of them. -/
def Given (R : Registry) (c : Closure) (nodes : List Expr) : Prop :=
  ((new c.function).applyAll nodes).run R.eval = .ok c

theorem given_new (R : Registry) (f : Function) : (new f).Given R [] := rfl

theorem Given.apply (h : c.Given R nodes) (happly : (c.apply node).run R.eval = .ok c') :
    c'.Given R (nodes ++ [node]) := by
  rw [Given, function_of_apply happly, run_applyAll_append, h, ok_bind, run_applyAll_singleton,
    happly]

theorem given_eager_iff : (⟨⟨name, signature, .eager native⟩, values⟩ : Closure).Given R nodes ↔
    collect R.eval native.params nodes = .ok values ∧ nodes.length ≤ native.params.length := by
  rw [Given, new, run_applyAll_eager nodes (Nat.zero_le _), bind_eq_ok]
  simp only [List.length_nil, Nat.zero_add, List.drop_zero, List.nil_append]
  constructor
  · rintro ⟨vs, hvs, h⟩
    split at h
    · next hle =>
      cases h
      exact ⟨hvs, hle⟩
    · cases h
  · rintro ⟨hvs, hle⟩
    exact ⟨values, hvs, if_pos hle⟩

theorem given_lazy_iff : (⟨⟨name, signature, .lazy run⟩, kept⟩ : Closure).Given R nodes ↔
    kept = nodes ∧ nodes.length ≤ signature.arity := by
  rw [Given, new, applyAll_lazy nodes (Nat.zero_le _)]
  simp only [List.length_nil, Nat.zero_add, List.nil_append, Ask.run_done]
  constructor
  · intro h
    split at h
    · next hle =>
      cases h
      exact ⟨rfl, hle⟩
    · cases h
  · rintro ⟨rfl, hle⟩
    exact if_pos hle

theorem Given.length_filled (h : c.Given R nodes) : c.filled.length = nodes.length := by
  obtain ⟨⟨name, signature, native | run⟩, filled⟩ := c
  · obtain ⟨hcollect, hle⟩ := given_eager_iff.mp h
    exact (length_collect hcollect).trans (Nat.min_eq_left hle)
  · rw [(given_lazy_iff.mp h).1]

theorem Given.le_arity (h : c.Given R nodes) : nodes.length ≤ c.function.arity := by
  obtain ⟨⟨name, signature, native | run⟩, filled⟩ := c
  · exact (given_eager_iff.mp h).2
  · exact (given_lazy_iff.mp h).2

/-- The arguments of an eager closure have the values that it holds, and these fit the parameters
that they are for. -/
theorem Given.forall₂ (h : (⟨⟨name, signature, .eager native⟩, values⟩ : Closure).Given R nodes) :
    List.Forall₂ (fun node v => R.eval node = .ok v) nodes values ∧
      List.Forall₂ (fun p v => Value.fits v p.ty) (native.params.take nodes.length) values := by
  obtain ⟨hcollect, hle⟩ := given_eager_iff.mp h
  exact forall₂_of_collect hcollect hle

/-- With all its arguments, a closure has the result that its function makes of them. -/
theorem Given.makes (h : c.Given R nodes) (hfull : c.filled.length = c.function.arity) :
    c.function.Makes R nodes (c.result.run R.eval) := by
  rw [result_of_filled hfull]
  obtain ⟨⟨name, signature, native | run⟩, filled⟩ := c
  · exact ⟨filled, h.forall₂.1, rfl⟩
  · obtain rfl := (given_lazy_iff.mp h).1
    exact Ask.run_mapQuestions ..

end Closure

namespace Pool

/-! ## What a request does -/

/-- The closure that a request is about, unless it makes a new one from a function. -/
def Request.id? : Request → Option Nat
  | .new _ => none
  | .clone id | .apply id _ | .result id => some id

/-- `Effect R pool request reply pool'`: the request gets the reply and leaves the pool `pool'`. -/
inductive Effect (R : Registry) (pool : Pool) : Request → Reply → Pool → Prop where
  | new : Effect R pool (.new f) (.made pool.length) (pool ++ [.new f])
  | clone {i : Nat} : pool[i]? = some c →
    Effect R pool (.clone i) (.made pool.length) (pool ++ [c])
  | apply {i : Nat} {node : Expr} {c c' : Closure} : pool[i]? = some c →
    (c.apply node).run R.eval = .ok c' →
    Effect R pool (.apply i node) (.applied (.ok ())) (pool.set i c')
  | refused {i : Nat} {c : Closure} : pool[i]? = some c → (c.apply node).run R.eval = .error e →
    Effect R pool (.apply i node) (.applied (.error e)) pool
  | result {i : Nat} {c : Closure} : pool[i]? = some c →
    Effect R pool (.result i) (.returned (c.result.run R.eval)) pool
  | missing {i : Nat} : request.id? = some i → pool[i]? = none →
    Effect R pool request .missing pool

variable {R : Registry} {pool : Pool} {c c' : Closure}

theorem answer_apply {i : Nat} (h : pool[i]? = some c) (node : Expr) :
    answer R pool (.apply i node) =
      match (c.apply node).run R.eval with
      | .ok c' => (.applied (.ok ()), pool.set i c')
      | .error e => (.applied (.error e), pool) := by
  simp only [answer, h, Closure.run_fill]
  rcases (c.apply node).run R.eval with e | c'
  · obtain ⟨hi, rfl⟩ := List.getElem?_eq_some_iff.mp h
    dsimp only
    rw [List.set_getElem_self]
  · rfl

theorem answer_result {i : Nat} (h : pool[i]? = some c) :
    answer R pool (.result i) = (.returned (c.result.run R.eval), pool) := by
  simp only [answer, h]

theorem effect (R : Registry) (pool : Pool) (request : Request) :
    Effect R pool request (answer R pool request).1 (answer R pool request).2 := by
  cases request with
  | new f => exact .new
  | clone i =>
    cases h : pool[i]? with
    | none => simpa only [answer, h] using .missing rfl h
    | some c => simpa only [answer, h] using .clone h
  | apply i node =>
    cases h : pool[i]? with
    | none => simpa only [answer, h] using .missing rfl h
    | some c =>
      rw [answer_apply h]
      cases happly : (c.apply node).run R.eval with
      | error e => exact .refused h happly
      | ok c' => exact .apply h happly
  | result i =>
    cases h : pool[i]? with
    | none => simpa only [answer, h] using .missing rfl h
    | some c =>
      rw [answer_result h]
      exact .result h

/-! ## Histories -/

/-- Requests with the replies to them, the latest first. -/
abbrev Log := List (Request × Reply)

/-- Where the closure with a number comes from, as a log tells it: the function of the new closure
that it goes back to, and the arguments that were applied with success on the way, to it or to what
it is a copy of. -/
def lineage : Log → Nat → Option (Function × List Expr)
  | [], _ => none
  | (.new f, .made id) :: log, i => if i = id then some (f, []) else lineage log i
  | (.clone source, .made id) :: log, i => lineage log (if i = id then source else i)
  | (.apply id node, .applied (.ok ())) :: log, i =>
    if i = id then (lineage log i).map fun (f, nodes) => (f, nodes ++ [node]) else lineage log i
  | _ :: log, i => lineage log i

/-- A pool in use, and the log of its use. -/
structure History where
  pool : Pool
  log : Log

def History.next (R : Registry) (h : History) (request : Request) : History :=
  let (reply, pool) := answer R h.pool request
  ⟨pool, (request, reply) :: h.log⟩

/-- What a sequence of requests makes of the empty pool. -/
def history (R : Registry) (requests : List Request) : History :=
  requests.foldl (History.next R) ⟨[], []⟩

theorem history_concat (R : Registry) (requests : List Request) (request : Request) :
    history R (requests ++ [request]) = (history R requests).next R request :=
  List.foldl_concat ..

/-- Every closure is what its lineage alone makes of a new one. -/
def History.Tracks (R : Registry) (h : History) : Prop :=
  ∀ i c, h.pool[i]? = some c →
    ∃ nodes, lineage h.log i = some (c.function, nodes) ∧ c.Given R nodes

theorem eq_or_of_getElem?_concat {i : Nat} (h : (pool ++ [c'])[i]? = some c) :
    i ≠ pool.length ∧ pool[i]? = some c ∨ i = pool.length ∧ c = c' := by
  rw [List.getElem?_append] at h
  split at h
  · next hlt => exact .inl ⟨Nat.ne_of_lt hlt, h⟩
  · obtain ⟨hi, rfl⟩ := List.getElem?_eq_some_iff.mp h
    rw [List.length_singleton] at hi
    exact .inr ⟨by omega, List.getElem_singleton _⟩

theorem lineage_missing (request : Request) (log : Log) (i : Nat) :
    lineage ((request, .missing) :: log) i = lineage log i := by
  cases request <;> rfl

theorem History.Tracks.next {h : History} (ht : h.Tracks R) (request : Request) :
    (h.next R request).Tracks R := by
  obtain ⟨pool, log⟩ := h
  intro i c hc
  have heffect := effect R pool request
  simp only [History.next] at hc ⊢
  generalize (answer R pool request).1 = reply at heffect hc ⊢
  generalize (answer R pool request).2 = pool' at heffect hc ⊢
  cases heffect with
  | @new f =>
    rcases eq_or_of_getElem?_concat hc with ⟨hne, hc⟩ | ⟨rfl, rfl⟩
    · simpa only [lineage, if_neg hne] using ht i c hc
    · exact ⟨[], if_pos rfl, Closure.given_new R f⟩
  | clone hid =>
    rcases eq_or_of_getElem?_concat hc with ⟨hne, hc⟩ | ⟨rfl, rfl⟩
    · simpa only [lineage, if_neg hne] using ht i c hc
    · simpa only [lineage, if_pos] using ht _ c hid
  | @apply id node c₀ c₁ hid happly =>
    rcases Decidable.eq_or_ne i id with rfl | hne
    · obtain ⟨nodes, hlineage, hgiven⟩ := ht i c₀ hid
      rw [List.getElem?_set_self (List.getElem?_eq_some_iff.mp hid).1] at hc
      cases hc
      refine ⟨nodes ++ [node], ?_, hgiven.apply happly⟩
      rw [lineage, if_pos rfl, hlineage, Closure.function_of_apply happly, Option.map_some]
    · rw [List.getElem?_set_ne (Ne.symm hne)] at hc
      simpa only [lineage, if_neg hne] using ht i c hc
  | refused => exact ht i c hc
  | result => exact ht i c hc
  | missing =>
    rw [lineage_missing]
    exact ht i c hc

theorem History.tracks (R : Registry) (requests : List Request) :
    (history R requests).Tracks R := by
  induction requests using List.reverseRecOn with
  | nil => exact nofun
  | append_singleton requests request ih =>
    rw [history_concat]
    exact ih.next request

/-! ## How a closure replies -/

/-- How closure number `i` of a pool replies to requests if it is `c` and has taken the arguments
`nodes`, counting those of the closures that it is a copy of. -/
structure Conforms (R : Registry) (pool : Pool) (i : Nat) (c : Closure) (nodes : List Expr) :
    Prop where
  filled : c.filled.length = nodes.length
  le_arity : nodes.length ≤ c.function.arity
  state : c.state = if nodes.length = c.function.arity then .total else .unfilled nodes.length
  /-- It is as if nothing else went on in the pool. -/
  given : c.Given R nodes
  takes : nodes.length < c.function.arity → ∀ node,
    ((answer R pool (.apply i node)).1 = .applied (.ok ()) ↔ c.function.Takes R nodes.length node)
  /-- Where it does not take an argument, nothing changes. -/
  refused : ∀ node e, (answer R pool (.apply i node)).1 = .applied (.error e) →
    (answer R pool (.apply i node)).2 = pool
  /-- With all its arguments it takes no more. -/
  saturated : nodes.length = c.function.arity → ∀ node, answer R pool (.apply i node) =
    (.applied (.error (.arityMismatch c.function.name c.function.arity (c.function.arity + 1))),
      pool)
  unfinished : nodes.length < c.function.arity → answer R pool (.result i) =
    (.returned (.error (.arityMismatch c.function.name c.function.arity nodes.length)), pool)
  finished : nodes.length = c.function.arity →
    ∃ r, answer R pool (.result i) = (.returned r, pool) ∧ c.function.Makes R nodes r
  /-- Only an argument of its own changes it. -/
  others : ∀ request, (∀ node, request ≠ .apply i node) → (answer R pool request).2[i]? = some c

theorem getElem?_answer {i : Nat} (hi : pool[i]? = some c) {request : Request}
    (hrequest : ∀ node, request ≠ .apply i node) : (answer R pool request).2[i]? = some c := by
  have hlt := (List.getElem?_eq_some_iff.mp hi).1
  have heffect := effect R pool request
  generalize (answer R pool request).1 = reply at heffect
  generalize (answer R pool request).2 = pool' at heffect ⊢
  cases heffect with
  | new | clone => rw [List.getElem?_append_left hlt, hi]
  | @apply j node =>
    have hne : j ≠ i := by
      rintro rfl
      exact hrequest node rfl
    rw [List.getElem?_set_ne hne, hi]
  | refused | result | missing => exact hi

theorem conforms_of_given {i : Nat} {nodes : List Expr} (hi : pool[i]? = some c)
    (h : c.Given R nodes) : Conforms R pool i c nodes where
  filled := h.length_filled
  le_arity := h.le_arity
  state := by
    rw [Closure.state, h.length_filled]
    rcases Nat.lt_or_eq_of_le h.le_arity with hlt | heq
    · rw [if_pos hlt, if_neg (Nat.ne_of_lt hlt)]
    · rw [if_neg (Nat.not_lt_of_ge (Nat.le_of_eq heq.symm)), if_pos heq]
  given := h
  takes hlt node := by
    rw [← h.length_filled] at hlt ⊢
    rw [answer_apply hi, ← Closure.exists_apply_iff hlt]
    rcases (c.apply node).run R.eval with e | c' <;> simp
  refused node e he := by
    rw [answer_apply hi] at he ⊢
    generalize (c.apply node).run R.eval = r at he ⊢
    cases r with
    | error => rfl
    | ok => cases he
  saturated hfull node := by
    have hfilled : c.filled.length = c.function.arity := h.length_filled.trans hfull
    rw [answer_apply hi, Closure.apply_of_full (Nat.le_of_eq hfilled.symm), Closure.saturated,
      hfilled]
    rfl
  unfinished hlt := by
    have hne : c.filled.length ≠ c.function.arity := h.length_filled ▸ Nat.ne_of_lt hlt
    rw [answer_result hi, Closure.result_of_unfilled hne, h.length_filled]
    rfl
  finished hfull := ⟨_, answer_result hi, h.makes (h.length_filled.trans hfull)⟩
  others _ := getElem?_answer hi

/-- After any requests, a closure holds what was applied with success to it and to what it is a copy
of, in this order, and replies accordingly. -/
theorem history_conforms (R : Registry) (requests : List Request) {i : Nat} {c : Closure}
    (h : (history R requests).pool[i]? = some c) :
    ∃ nodes, lineage (history R requests).log i = some (c.function, nodes) ∧
      Conforms R (history R requests).pool i c nodes := by
  obtain ⟨nodes, hlineage, hgiven⟩ := History.tracks R requests i c h
  exact ⟨nodes, hlineage, conforms_of_given h hgiven⟩

open Standard in
/-- A sum and a copy of it. The copy refuses `true`, takes `2`, and then takes no more, while the
sum that it was copied from still waits for its second argument. -/
theorem history_conforms_copy :
    let h := history registry [.new (ints "+" .int add), .apply 0 (.int 1), .clone 0,
      .apply 1 (.bool true), .apply 1 (.int 2)]
    h.pool[0]? = some ⟨ints "+" .int add, [Value.int 1]⟩ ∧
    h.pool[1]? = some ⟨ints "+" .int add, [Value.int 1, .int 2]⟩ ∧
    answer registry h.pool (.result 0) = (.returned (.error (.arityMismatch "+" 2 1)), h.pool) ∧
    ∀ node, answer registry h.pool (.apply 1 node) =
      (.applied (.error (.arityMismatch "+" 2 3)), h.pool) := by
  intro h
  have hone : registry.eval (.int 1) = .ok (.int 1) := Registry.eval_value rfl
  have htwo : registry.eval (.int 2) = .ok (.int 2) := Registry.eval_value rfl
  have htrue : registry.eval (.bool true) = .ok (.bool true) := Registry.eval_value rfl
  have hpool : h.pool = [⟨ints "+" .int add, [Value.int 1]⟩,
      ⟨ints "+" .int add, [Value.int 1, .int 2]⟩] := by
    simp [h, history, History.next, answer, Closure.run_fill, Closure.apply, Closure.new, ints,
      Function.eager, Value.require, Value.fits, Param.ty, Ty.int, Value.typeName, hone, htwo,
      htrue]
  have hsum : h.pool[0]? = some ⟨ints "+" .int add, [Value.int 1]⟩ := by rw [hpool]; rfl
  have hcopy : h.pool[1]? = some ⟨ints "+" .int add, [Value.int 1, .int 2]⟩ := by rw [hpool]; rfl
  obtain ⟨_, -, hsumConforms⟩ := history_conforms registry _ hsum
  obtain ⟨_, -, hcopyConforms⟩ := history_conforms registry _ hcopy
  refine ⟨hsum, hcopy, ?_, hcopyConforms.saturated hcopyConforms.filled.symm⟩
  have hlt := hsumConforms.unfinished (hsumConforms.filled ▸ Nat.lt_succ_self 1)
  rwa [← hsumConforms.filled] at hlt

end Pool

end Curried
