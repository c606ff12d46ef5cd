import Curried.Proofs.Except
import Curried.Proofs.Reader.Places
import Curried.Proofs.Typing.Infer
import Curried.Session

/-!
Sessions and what they read. What a session says about a source depends on what is read and, if
nothing is, on the cause (`Session.eval_unplaced_congr`).
-/

namespace Curried

/-- The failure without the place of a reading error. -/
def Failure.unplaced : Failure → Failure
  | .parse cause => .parse cause.unplaced
  | failure => failure

namespace Session

variable {s : Session} {source source' : String} {e : Expr} {l : Literal} {err : ParseError}

theorem eval_of_error (h : Expr.parse source = .error err) :
    s.eval source = .error (.parse err) := by
  rw [eval, read, h]
  rfl

theorem eval_of_parse (h : Expr.parse source = .ok e) : s.eval source =
    (if s.options.check then some <$> s.check e else .ok none) >>= fun scheme =>
      (s.registry.eval e).mapError .eval >>= fun value =>
        .ok ⟨value, scheme, s.options.showTypes⟩ := by
  rw [eval, read, h]
  cases s.options.check <;> rfl

theorem check_ne_parse (e : Expr) (err : ParseError) : s.check e ≠ .error (.parse err) := by
  intro herr
  obtain ⟨cause, -, hcause⟩ := mapError_eq_error.mp herr
  cases hcause

/-- What has been read is not reported as unreadable. -/
theorem eval_ne_parse (h : Expr.parse source = .ok e) (err : ParseError) :
    s.eval source ≠ .error (.parse err) := by
  rw [eval_of_parse h]
  intro herr
  rcases bind_eq_error.mp herr with htype | ⟨scheme, -, herr⟩
  · split at htype
    · cases hcheck : s.check e with
      | ok => rw [hcheck] at htype; cases htype
      | error failure =>
        rw [hcheck] at htype
        cases htype
        exact check_ne_parse e err hcheck
    · cases htype
  · rcases bind_eq_error.mp herr with hvalue | ⟨value, -, herr⟩
    · obtain ⟨cause, -, hcause⟩ := mapError_eq_error.mp hvalue
      cases hcause
    · cases herr

theorem eval_literal (h : Expr.parse source = .ok (.leaf l)) : s.eval source =
    .ok ⟨l.value, if s.options.check then some l.value.scheme else none, s.options.showTypes⟩ := by
  have hform : (Expr.leaf l).form = .value l.value := rfl
  have hcheck : s.check (.leaf l) = .ok l.value.scheme := by
    rw [check, Typing.check, Typing.infer_value hform]
    rfl
  rw [eval_of_parse h, Registry.eval_value hform, hcheck]
  cases s.options.check <;> rfl

/-- What a session says about a source depends on what is read, and on why it is not. -/
theorem eval_unplaced_congr (h : (Expr.parse source).mapError ParseError.unplaced =
    (Expr.parse source').mapError ParseError.unplaced) :
    (s.eval source).mapError Failure.unplaced = (s.eval source').mapError Failure.unplaced := by
  cases hparse : Expr.parse source with
  | ok e =>
    cases hparse' : Expr.parse source' with
    | ok e' =>
      rw [hparse, hparse'] at h
      obtain rfl : e = e' := Except.ok.inj h
      rw [eval_of_parse hparse, eval_of_parse hparse']
    | error => rw [hparse, hparse'] at h; cases h
  | error err =>
    cases hparse' : Expr.parse source' with
    | ok => rw [hparse, hparse'] at h; cases h
    | error err' =>
      rw [hparse, hparse'] at h
      rw [eval_of_error hparse, eval_of_error hparse']
      exact congrArg (fun e => Except.error (Failure.parse e)) (Except.error.inj h)

/-- It makes a difference whether anything is read. -/
theorem eval_unplaced_ne (h : Expr.parse source = .ok e) (h' : Expr.parse source' = .error err) :
    (s.eval source).mapError Failure.unplaced ≠ (s.eval source').mapError Failure.unplaced := by
  rw [eval_of_error h']
  intro heq
  obtain ⟨failure, hfailure, hcause⟩ := mapError_eq_error.mp heq
  cases failure with
  | parse cause => exact eval_ne_parse h cause hfailure
  | type | eval | io | usage => cases hcause

theorem refusedAlike_of_eval (h : Expr.parse source = .error err)
    (heq : (s.eval source).mapError Failure.unplaced = (s.eval source').mapError Failure.unplaced) :
    Expr.RefusedAlike source source' := by
  cases h' : Expr.parse source' with
  | ok e => exact absurd heq.symm (eval_unplaced_ne h' h)
  | error err' =>
    rw [eval_of_error h, eval_of_error h'] at heq
    have hfailure := Failure.parse.inj (Except.error.inj heq)
    have hcause : err.unplaced.cause = err'.unplaced.cause := congrArg ParseError.cause hfailure
    exact ⟨err, err', h, h', hcause⟩

end Session

end Curried
