/-!
Computations that put questions and go on with the answers, and the recursion that answers every
question by the same kind of computation. `Ask.solve` runs that recursion with a stack of waiting
computations of its own, so the depth of the questions is bounded by memory alone. Its main
statement, `Ask.solve_eq`, says that it is plain recursion all the same: the solution at `x` is the
layer at `x` with each question replaced by the solution there.
-/

namespace Curried

/-- A computation of a `β` that may put questions of type `Q`, each answered by a `ρ`. -/
inductive Ask (Q ρ β : Type) where
  | done (result : β)
  | ask (question : Q) (resume : ρ → Ask Q ρ β)

namespace Ask

variable {Q Q' ρ α β : Type}

def bind : Ask Q ρ α → (α → Ask Q ρ β) → Ask Q ρ β
  | done a, f => f a
  | ask q resume, f => ask q fun r => (resume r).bind f

/-- The result when `answer` answers every question. -/
def run (answer : Q → ρ) : Ask Q ρ β → β
  | done b => b
  | ask q resume => (resume (answer q)).run answer

/-- Whatever the answers, every question that comes up has the property `P`, and every result the
property `T`. -/
def Within (P : Q → Prop) (T : β → Prop) : Ask Q ρ β → Prop
  | done b => T b
  | ask q resume => P q ∧ ∀ r, (resume r).Within P T

abbrev All (P : Q → Prop) (c : Ask Q ρ β) : Prop := c.Within P fun _ => True

def mapQuestions (f : Q → Q') : Ask Q ρ β → Ask Q' ρ β
  | done b => done b
  | ask q resume => ask (f q) fun r => (resume r).mapQuestions f

def attach {P : Q → Prop} : (c : Ask Q ρ β) → c.All P → Ask {q // P q} ρ β
  | done b, _ => done b
  | ask q resume, h => ask ⟨q, h.1⟩ fun r => (resume r).attach (h.2 r)

@[simp] theorem run_done (answer : Q → ρ) (b : β) : (done b : Ask Q ρ β).run answer = b := rfl

@[simp] theorem run_ask (answer : Q → ρ) (q : Q) (resume : ρ → Ask Q ρ β) :
    (ask q resume).run answer = (resume (answer q)).run answer := rfl

@[simp] theorem run_bind (answer : Q → ρ) (c : Ask Q ρ α) (f : α → Ask Q ρ β) :
    (c.bind f).run answer = (f (c.run answer)).run answer := by
  induction c with
  | done a => rfl
  | ask q resume ih => exact ih _

@[simp] theorem run_mapQuestions (answer : Q' → ρ) (f : Q → Q') (c : Ask Q ρ β) :
    (c.mapQuestions f).run answer = c.run fun q => answer (f q) := by
  induction c with
  | done b => rfl
  | ask q resume ih => exact ih _

/-- Only the answers to questions that can come up matter. -/
theorem run_congr {P : Q → Prop} {f g : Q → ρ} (hfg : ∀ q, P q → f q = g q) (c : Ask Q ρ β)
    (hc : c.All P) : c.run f = c.run g := by
  induction c with
  | done b => rfl
  | ask q resume ih => rw [run_ask, run_ask, hfg q hc.1]; exact ih _ (hc.2 _)

@[simp] theorem run_attach {P : Q → Prop} (answer : Q → ρ) (c : Ask Q ρ β) (hc : c.All P) :
    (c.attach hc).run (fun q => answer q.1) = c.run answer := by
  induction c with
  | done b => rfl
  | ask q resume ih => exact ih _ (hc.2 _)

theorem Within.mono {P P' : Q → Prop} {T T' : β → Prop} {c : Ask Q ρ β} (hc : c.Within P T)
    (hP : ∀ q, P q → P' q) (hT : ∀ b, T b → T' b) : c.Within P' T' := by
  induction c with
  | done b => exact hT b hc
  | ask q resume ih => exact ⟨hP q hc.1, fun r => ih r (hc.2 r)⟩

theorem Within.bind {P : Q → Prop} {T : α → Prop} {U : β → Prop} {c : Ask Q ρ α}
    {f : α → Ask Q ρ β} (hc : c.Within P T) (hf : ∀ a, T a → (f a).Within P U) :
    (c.bind f).Within P U := by
  induction c with
  | done a => exact hf a hc
  | ask q resume ih => exact ⟨hc.1, fun r => ih r (hc.2 r)⟩

theorem all_mapQuestions {P : Q' → Prop} {f : Q → Q'} (hf : ∀ q, P (f q)) (c : Ask Q ρ β) :
    (c.mapQuestions f).All P := by
  induction c with
  | done b => trivial
  | ask q resume ih => exact ⟨hf q, ih⟩

/-! ## Recursion on questions of smaller size -/

section Solve

variable {X : Type} {size : X → Nat}

/-- A computation about `x` that asks about smaller things only. -/
abbrev Below (size : X → Nat) (ρ : Type) (x : X) : Type :=
  Ask {y // size y < size x} ρ ρ

/-- A computation that waits for an answer. -/
structure Frame (size : X → Nat) (ρ : Type) where
  subject : X
  resume : ρ → Below size ρ subject

/-- A moment of the recursion: a computation at work, or an answer on its way to the computation
that waits for it. -/
inductive Moment (size : X → Nat) (ρ : Type) where
  | working (subject : X) (rest : Below size ρ subject) (waiting : List (Frame size ρ))
  | answering (answer : ρ) (waiting : List (Frame size ρ))

def Moment.next (layer : (x : X) → Below size ρ x) : Moment size ρ → Moment size ρ ⊕ ρ
  | working _ (done r) waiting => .inl (answering r waiting)
  | working x (ask q resume) waiting => .inl (working q.1 (layer q.1) (⟨x, resume⟩ :: waiting))
  | answering r (⟨x, resume⟩ :: waiting) => .inl (working x (resume r) waiting)
  | answering r [] => .inr r

/-- `Follows layer m' m`: the moment `m'` comes right after `m`. -/
def Follows (layer : (x : X) → Below size ρ x) (m' m : Moment size ρ) : Prop :=
  m.next layer = .inl m'

private theorem acc_answering_nil (layer : (x : X) → Below size ρ x) (r : ρ) :
    Acc (Follows layer) (.answering r []) :=
  ⟨_, fun _ h => nomatch h⟩

private theorem acc_working (layer : (x : X) → Below size ρ x) (x : X) (c : Below size ρ x)
    (waiting : List (Frame size ρ)) (hw : ∀ r, Acc (Follows layer) (.answering r waiting)) :
    Acc (Follows layer) (.working x c waiting) := by
  generalize hn : size x = n
  induction n using Nat.strongRecOn generalizing x waiting with
  | ind n ihn =>
    induction c with
    | done r =>
      refine ⟨_, fun m h => ?_⟩
      cases h
      exact hw r
    | ask q resume ihc =>
      refine ⟨_, fun m h => ?_⟩
      cases h
      refine ihn _ (hn ▸ q.2) q.1 (layer q.1) _ (fun r => ⟨_, fun m h => ?_⟩) rfl
      cases h
      exact ihc r

private theorem acc_answering (layer : (x : X) → Below size ρ x) (waiting : List (Frame size ρ))
    (r : ρ) : Acc (Follows layer) (.answering r waiting) := by
  induction waiting generalizing r with
  | nil => exact acc_answering_nil layer r
  | cons f waiting ih =>
    refine ⟨_, fun m h => ?_⟩
    cases h
    exact acc_working layer _ _ _ ih

/-- No recursion goes on for ever: questions get smaller and each computation is finite. -/
theorem follows_wf (layer : (x : X) → Below size ρ x) : WellFounded (Follows layer) :=
  ⟨fun m => match m with
    | .working x c waiting => acc_working layer x c waiting (acc_answering layer waiting)
    | .answering r waiting => acc_answering layer waiting r⟩

def exec (layer : (x : X) → Below size ρ x) (m : Moment size ρ) : ρ :=
  match _h : m.next layer with
  | .inl m' => exec layer m'
  | .inr r => r
termination_by (follows_wf layer).wrap m
decreasing_by assumption

private theorem exec_next {layer : (x : X) → Below size ρ x} {m m' : Moment size ρ}
    (h : m.next layer = .inl m') : exec layer m = exec layer m' := by
  rw [exec]
  split
  · rename_i m'' h'
    cases h.symm.trans h'
    rfl
  · rename_i r h'
    cases h.symm.trans h'

/-- The answer about `x` when `layer` says how each answer comes from those to smaller questions. -/
def solveBelow (layer : (x : X) → Below size ρ x) (x : X) : ρ :=
  exec layer (.working x (layer x) [])

/-- What waits does not change what is being worked out. -/
private theorem exec_working (layer : (x : X) → Below size ρ x) (n : Nat) (x : X)
    (hn : size x = n) (c : Below size ρ x) (waiting : List (Frame size ρ)) :
    exec layer (.working x c waiting) =
      exec layer (.answering (c.run fun q => solveBelow layer q.1) waiting) := by
  induction n using Nat.strongRecOn generalizing x waiting with
  | ind n ihn =>
    induction c with
    | done r => exact exec_next rfl
    | ask q resume ihc =>
      have ihq := ihn _ (hn ▸ q.2) q.1 rfl (layer q.1)
      have hq : solveBelow layer q.1 = (layer q.1).run fun q => solveBelow layer q.1 := by
        rw [solveBelow, ihq, exec]
        rfl
      rw [exec_next rfl, ihq, exec_next rfl, run_ask, hq]
      exact ihc _

/-- The answer about `x` when `layer` says how each answer comes from those to other questions,
all of them smaller. -/
def solve (size : X → Nat) (layer : X → Ask X ρ ρ)
    (smaller : ∀ x, (layer x).All (size · < size x)) (x : X) : ρ :=
  solveBelow (fun x => (layer x).attach (smaller x)) x

/-- The solution is the recursion that `layer` describes. -/
theorem solve_eq (layer : X → Ask X ρ ρ) (smaller : ∀ x, (layer x).All (size · < size x)) (x : X) :
    solve size layer smaller x = (layer x).run (solve size layer smaller) := by
  rw [solve, solveBelow, exec_working _ _ _ rfl, exec]
  exact run_attach (solve size layer smaller) _ _

end Solve

end Ask

end Curried
