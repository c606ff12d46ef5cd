import Curried.Proofs.Except
import Curried.Proofs.Reader.Expr

/-!
Reading does not depend on where tokens stand. If all of their places are changed in the same way,
so is the place of the error, and nothing else (`Reader.readOne_mapSpan`). So the tokens without
their places decide what is read, and which error there is apart from its place
(`Expr.parse_unplaced_congr`).
-/

namespace Curried

namespace ParseError

def mapSpan (f : Span → Span) (e : ParseError) : ParseError := { e with span := f e.span }

/-- The error without its place. -/
def unplaced : ParseError → ParseError := mapSpan fun _ => .point 0

end ParseError

def Token.mapSpan (f : Span → Span) (t : Token) : Token := { t with span := f t.span }

namespace Reader

def OpenList.mapSpan (f : Span → Span) (l : OpenList) : OpenList := { l with paren := f l.paren }

def Progress.mapSpan (f : Span → Span) : Progress → Progress
  | .within stack => .within (stack.map (OpenList.mapSpan f))
  | .complete e => .complete e

variable {f : Span → Span} {text : String} {span : Span} {token : Token} {tokens : List Token}
  {stack : List OpenList} {e : Expr} {seen : List Expr} {length length' : Nat}

theorem literal_mapSpan : literal text (f span) =
    (literal text span).mapError (ParseError.mapSpan f) := by
  unfold literal
  split_ifs
  · rfl
  · rfl
  · split
    · rfl
    · split <;> rfl

theorem addTo_mapSpan : addTo (stack.map (OpenList.mapSpan f)) e = (addTo stack e).mapSpan f := by
  cases stack <;> rfl

theorem step_mapSpan : step (stack.map (OpenList.mapSpan f)) (token.mapSpan f) =
    ((step stack token).map (Progress.mapSpan f)).mapError (ParseError.mapSpan f) := by
  obtain ⟨kind, span⟩ := token
  cases kind with
  | openParen => rfl
  | closeParen =>
    cases stack with
    | nil => rfl
    | cons l outer => exact congrArg Except.ok addTo_mapSpan
  | str => exact congrArg Except.ok addTo_mapSpan
  | atom text =>
    simp only [step, Token.mapSpan, literal_mapSpan]
    cases literal text span with
    | ok => exact congrArg Except.ok addTo_mapSpan
    | error => rfl

/-- The end of the source is the place of one error, so it changes with the other places. -/
theorem readOne_mapSpan (hlength : f (.point length) = .point length') :
    readOne length' (tokens.map (Token.mapSpan f)) (stack.map (OpenList.mapSpan f)) =
      (readOne length tokens stack).mapError (ParseError.mapSpan f) := by
  induction tokens generalizing stack with
  | nil =>
    cases stack with
    | nil =>
      simp only [List.map_nil, readOne, ← hlength]
      rfl
    | cons => rfl
  | cons token rest ih =>
    rw [List.map_cons, readOne, readOne, step_mapSpan]
    cases step stack token with
    | error => rfl
    | ok progress =>
      cases progress with
      | within stack => exact ih
      | complete e => cases rest <;> rfl

theorem readAll_mapSpan :
    readAll (tokens.map (Token.mapSpan f)) (stack.map (OpenList.mapSpan f)) seen =
      (readAll tokens stack seen).mapError (ParseError.mapSpan f) := by
  induction tokens generalizing stack seen with
  | nil => cases stack <;> rfl
  | cons token rest ih =>
    rw [List.map_cons, readAll, readAll, step_mapSpan]
    cases step stack token with
    | error => rfl
    | ok progress =>
      cases progress with
      | within stack => exact ih
      -- no list is open, so none has to be changed
      | complete e => exact @ih [] (e :: seen)

/-- Apart from its place, an error depends on the kinds of the tokens. -/
theorem readOne_unplaced : (readOne length tokens []).mapError ParseError.unplaced =
    readOne 0 ((tokens.map Token.kind).map (⟨·, .point 0⟩)) [] := by
  rw [List.map_map]
  exact (@readOne_mapSpan _ tokens [] length 0 rfl).symm

end Reader

theorem Token.cause_of_scan {source : String} {e : ParseError} (h : scan source = .error e) :
    e.cause = .unterminatedString := by
  unfold scan Scan.finish at h
  split at h <;> cases h
  all_goals rfl

theorem Expr.parse_unplaced_of_scan {source : String} {e : ParseError}
    (h : Token.scan source = .error e) :
    (parse source).mapError ParseError.unplaced = .error ⟨.unterminatedString, .point 0⟩ := by
  rw [parse, h, ← Token.cause_of_scan h]
  rfl

/-- Sources with the same tokens are read as the same expression, or refused for the same cause. -/
theorem Expr.parse_unplaced_congr {source source' : String}
    (h : ∀ ks, Token.Lexes source.toList ks ↔ Token.Lexes source'.toList ks) :
    (parse source).mapError ParseError.unplaced = (parse source').mapError ParseError.unplaced := by
  cases hscan : Token.scan source with
  | ok tokens =>
    obtain ⟨tokens', hscan', hkinds⟩ :=
      Token.lexes_iff.mp ((h _).mp (Token.lexes_iff.mpr ⟨tokens, hscan, rfl⟩))
    simp only [parse, hscan, hscan', Reader.readOne_unplaced, hkinds]
  | error e =>
    cases hscan' : Token.scan source' with
    | ok tokens =>
      obtain ⟨_, hscan'', -⟩ :=
        Token.lexes_iff.mp ((h _).mpr (Token.lexes_iff.mpr ⟨tokens, hscan', rfl⟩))
      cases hscan.symm.trans hscan''
    | error e' => rw [parse_unplaced_of_scan hscan, parse_unplaced_of_scan hscan']

/-- Neither of the sources is an expression, and the cause is the same. -/
def Expr.RefusedAlike (source source' : String) : Prop := ∃ err err',
  parse source = .error err ∧ parse source' = .error err' ∧ err.cause = err'.cause

theorem Expr.refusedAlike_iff {source source' : String} : RefusedAlike source source' ↔
    (∃ err, parse source = .error err) ∧
      (parse source).mapError ParseError.unplaced =
        (parse source').mapError ParseError.unplaced := by
  constructor
  · rintro ⟨err, err', h, h', hcause⟩
    refine ⟨⟨err, h⟩, ?_⟩
    rw [h, h']
    exact congrArg (fun cause => Except.error (ParseError.mk cause (.point 0))) hcause
  · rintro ⟨⟨err, h⟩, heq⟩
    rw [h] at heq
    obtain ⟨err', h', hunplaced⟩ := mapError_eq_error.mp heq.symm
    exact ⟨err, err', h, h', (congrArg ParseError.cause hunplaced).symm⟩

end Curried
