import Mathlib.Order.Bounds.Defs
import Curried.Proofs.Expr.Form

/-!
Curried calls taken apart. The innermost call of an expression and the argument groups around it,
wrapped around it again, are the expression, and there are as many groups as there are heads to go
down to, each a call itself (`innermost_lossless`). Typing and evaluation go by the form of an
expression, and that is the form of its innermost call applied to the groups in their order
(`form_eq_formBefore_innermost`).
-/

namespace Curried.Expr

/-- The expression as the head of a call with the first group, that call as the head of one with the
second, and so on. -/
def wrap (e : Expr) (groups : List (List Expr)) : Expr :=
  groups.foldl (fun head args => list (head :: args)) e

/-- `Enters e head`: `e` is a call of `head`, which is a call itself. -/
inductive Enters : Expr → Expr → Prop where
  | intro : Enters (list (list (first :: own) :: args)) (list (first :: own))

/-- `Descends n e head`: down from `e` to its head `n` times, each time to a call, leads to
`head`. -/
inductive Descends : Nat → Expr → Expr → Prop where
  | here : Descends 0 e e
  | down : Enters e head → Descends n head c → Descends (n + 1) e c

variable {e c c' : Expr} {groups : List (List Expr)} {m n : Nat}

/-- No way down is longer than one that cannot be continued. -/
theorem Descends.le (h : Descends n e c) (hstuck : ∀ head, ¬Enters c head)
    (h' : Descends m e c') : m ≤ n := by
  induction h generalizing m with
  | here =>
    cases h' with
    | here => exact Nat.le_refl 0
    | down henters _ => exact absurd henters (hstuck _)
  | down henters _ ih =>
    cases h' with
    | here => exact Nat.zero_le _
    | down henters' h' =>
      -- A call has one head, so both ways begin alike.
      cases henters
      cases henters'
      exact Nat.succ_le_succ (ih hstuck h')

/-! ## Going down with the groups collected so far -/

theorem wrap_peel (e : Expr) (outer : List (List Expr)) :
    (e.peel outer).1.wrap (e.peel outer).2 = e.wrap outer := by
  fun_induction peel e outer with
  | case1 head own args outer ih => exact ih
  | case2 => rfl

theorem not_enters_peel (e : Expr) (outer : List (List Expr)) (head : Expr) :
    ¬Enters (e.peel outer).1 head := by
  fun_induction peel e outer with
  | case1 _ _ _ _ ih => exact ih
  | case2 e outer hstuck =>
    rintro ⟨⟩
    exact hstuck _ _ _ rfl

/-- Each step down puts one group in front of those collected before. -/
theorem exists_descends_peel (e : Expr) (outer : List (List Expr)) :
    ∃ n, (e.peel outer).2.length = n + outer.length ∧ Descends n e (e.peel outer).1 := by
  fun_induction peel e outer with
  | case1 head own args outer ih =>
    obtain ⟨n, hlength, hdescends⟩ := ih
    refine ⟨n + 1, ?_, .down .intro hdescends⟩
    rw [hlength, List.length_cons, Nat.add_assoc, Nat.add_comm 1]
  | case2 => exact ⟨0, (Nat.zero_add _).symm, .here⟩

theorem formBefore_peel (e : Expr) (outer : List (List Expr)) :
    (e.peel outer).1.formBefore (e.peel outer).2.flatten = e.formBefore outer.flatten := by
  fun_induction peel e outer with
  | case1 head own args outer ih =>
    rw [ih, List.flatten_cons, ← formBefore_curried rfl]
  | case2 => rfl

/-! ## The innermost call -/

/-- A curried call has the form of its innermost call, applied to the groups around that in their
order. -/
theorem form_eq_formBefore_innermost (e : Expr) :
    e.form = e.innermost.1.formBefore e.innermost.2.flatten :=
  (formBefore_peel e []).symm

/-- Nothing is lost with the innermost call `c` and the groups around it: they are the expression
again when wrapped around `c` one by one, the head of `c` is no call, and there are as many groups
as steps down to a head that is a call. -/
theorem innermost_lossless (h : e.innermost = (c, groups)) :
    c.wrap groups = e ∧ (∀ head, ¬Enters c head) ∧
      IsGreatest {n | ∃ head, Descends n e head} groups.length := by
  obtain ⟨rfl, rfl⟩ := Prod.mk.inj h
  obtain ⟨n, hlength, hdescends⟩ := exists_descends_peel e []
  obtain rfl : e.innermost.2.length = n := hlength
  have hstuck := not_enters_peel e []
  refine ⟨wrap_peel e [], hstuck, ⟨_, hdescends⟩, ?_⟩
  rintro m ⟨head, h'⟩
  exact hdescends.le hstuck h'

/-- In `((((const) 1)) 2 3)`, one of the three groups around `(const)` is empty. -/
theorem innermost_lossless_const :
    let c := call "const" []
    let groups := [[int 1], [], [int 2, int 3]]
    let e := list [list [list [c, int 1]], int 2, int 3]
    e.innermost = (c, groups) ∧ c.wrap groups = e ∧ (∀ head, ¬Enters c head) ∧
      IsGreatest {n | ∃ head, Descends n e head} 3 := by
  intro c groups e
  have h : e.innermost = (c, groups) := rfl
  exact ⟨h, innermost_lossless h⟩

end Curried.Expr
