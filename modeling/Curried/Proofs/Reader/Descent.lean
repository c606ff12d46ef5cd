import Curried.Proofs.Except
import Curried.Proofs.Reader.Expr

/-!
Reading by recursive descent. `Descent.one` and `Descent.all` follow the grammar: an expression is
an atom, a string or a list, and a list reads its elements until it is closed. They come to the same
expressions and the same errors as reading with a stack of open lists, and the error is the first
one from left to right (`descent_eq`). Descent either derives what it reads or finds such an error
(`Refused`), and from the tokens up to there the stack is known (`Pending.runs`).
-/

namespace Curried.Reader

namespace Descent

/-- What is left of the tokens once some are read. It is shorter, so descent can go on with it. -/
abbrev Behind (tokens : List Token) := { rest : List Token // rest.length < tokens.length }

mutual

/-- Reads the expression at the front of the tokens. -/
def expr (length : Nat) (tokens : List Token) : Except ParseError (Expr × Behind tokens) :=
  match tokens with
  | [] => .error ⟨.emptyInput, .point length⟩
  | token :: rest =>
    match token.kind with
    | .openParen => do
      let (es, behind) ← items length token.span rest
      return (.list es, ⟨behind, Nat.lt_succ_of_lt behind.2⟩)
    | .closeParen => .error ⟨.unexpectedCloseParen, token.span⟩
    | .str text => return (.str text, ⟨rest, Nat.lt_succ_self _⟩)
    | .atom text => do
      let l ← literal text token.span
      return (.leaf l, ⟨rest, Nat.lt_succ_self _⟩)
termination_by (tokens.length, 0)

/-- Reads the elements of a list up to its end; its parenthesis is at `paren`. -/
def items (length : Nat) (paren : Span) (tokens : List Token) :
    Except ParseError (List Expr × Behind tokens) :=
  match tokens with
  | [] => .error ⟨.unclosedList, paren⟩
  | token :: rest =>
    if token.kind = .closeParen then return ([], ⟨rest, Nat.lt_succ_self _⟩)
    else do
      let (e, behind) ← expr length (token :: rest)
      let (es, behind') ← items length paren behind
      return (e :: es, ⟨behind', Nat.lt_trans behind'.2 behind.2⟩)
termination_by (tokens.length, 1)
decreasing_by
  · exact .right _ Nat.zero_lt_one
  · exact .left _ _ behind.2

end

/-- Reads one expression, behind which nothing may stand. -/
def one (length : Nat) (tokens : List Token) : Except ParseError Expr := do
  let (e, behind) ← expr length tokens
  match behind.1 with
  | [] => return e
  | extra :: _ => .error ⟨.trailingInput (describe extra.kind), extra.span⟩

/-- Reads expressions as long as there are tokens. -/
def all (length : Nat) (tokens : List Token) : Except ParseError (List Expr) :=
  match tokens with
  | [] => return []
  | token :: rest => do
    let (e, behind) ← expr length (token :: rest)
    let es ← all length behind
    return e :: es
termination_by tokens.length
decreasing_by exact behind.2

end Descent

/-- `Pending tokens parens`: the tokens are the parentheses `parens`, given from the innermost to
the outermost, each with complete expressions behind it. So nothing closes these parentheses, and
every other one is closed. -/
inductive Pending : List Token → List Token → Prop where
  | nil : Pending [] []
  | cons : Pending before outer → paren.kind = .openParen →
    DerivesAll (content.map Token.kind) es → Pending (before ++ paren :: content) (paren :: outer)

/-- `Refused tokens err`: no expression at the front of the tokens is complete, and from left to
right, the error is the first. -/
inductive Refused : List Token → ParseError → Prop where
  | closeParen : token.kind = .closeParen →
    Refused (token :: rest) ⟨.unexpectedCloseParen, token.span⟩
  | outOfRange : Pending before parens → token.kind = .atom text →
    Numeral text.toList n → (∀ w : Word, w.toInt ≠ n) →
    Refused (before ++ token :: rest) ⟨.integerOutOfRange text, token.span⟩
  | unclosed : Pending tokens (paren :: outer) → Refused tokens ⟨.unclosedList, paren.span⟩

/-- What is wrong with tokens that are not one expression; `length` is that of the source. -/
inductive NotOne (length : Nat) : List Token → ParseError → Prop where
  | empty : NotOne length [] ⟨.emptyInput, .point length⟩
  | refused : Refused tokens err → NotOne length tokens err
  | trailing : Derives (before.map Token.kind) e →
    NotOne length (before ++ extra :: rest) ⟨.trailingInput (describe extra.kind), extra.span⟩

/-- What is wrong with tokens that are not expressions, one after the other. -/
inductive NotAll : List Token → ParseError → Prop where
  | refused : Refused tokens err → NotAll tokens err
  | later : Derives (before.map Token.kind) e → NotAll tokens err → NotAll (before ++ tokens) err

/-- `Stops tokens stack err`: with these open lists, the error is at the next token, or at the end
if there is none. -/
inductive Stops : List Token → List OpenList → ParseError → Prop where
  | unclosed : Stops [] (l :: outer) ⟨.unclosedList, l.paren⟩
  | token : step stack token = .error err → Stops (token :: rest) stack err

variable {length : Nat} {tokens before rest parens : List Token} {token paren : Token}
  {stack : List OpenList} {l : OpenList} {e : Expr} {seen es : List Expr} {err : ParseError}

/-! ## The first error ends reading with a stack -/

theorem Pending.runs (h : Pending tokens parens) : ∃ stack, Runs tokens [] stack ∧
    stack.map OpenList.paren = parens.map Token.span := by
  induction h with
  | nil => exact ⟨[], .nil, rfl⟩
  | cons _ hparen hcontent ih =>
    obtain ⟨stack, hruns, hstack⟩ := ih
    refine ⟨_, hruns.append (.cons (step_openParen hparen) (hcontent.runs rfl ⟨_, []⟩ stack)), ?_⟩
    rw [List.map_cons, List.map_cons, hstack]

theorem Refused.stops (h : Refused tokens err) :
    ∃ before rest stack, tokens = before ++ rest ∧ Runs before [] stack ∧ Stops rest stack err := by
  cases h with
  | closeParen hkind =>
    exact ⟨[], _, [], rfl, .nil, .token (by rw [step.eq_def, hkind])⟩
  | outOfRange hbefore hkind hnumeral hrange =>
    obtain ⟨stack, hruns, -⟩ := hbefore.runs
    refine ⟨_, _, stack, rfl, hruns, .token ?_⟩
    rw [step.eq_def, hkind]
    simp only [literal_eq_error_iff.mpr ⟨⟨_, hnumeral, hrange⟩, rfl⟩]
  | unclosed h =>
    obtain ⟨stack, hruns, hstack⟩ := h.runs
    obtain ⟨l, outer, rfl, hl, -⟩ := List.map_eq_cons_iff.mp hstack
    exact ⟨_, [], _, (List.append_nil _).symm, hruns, hl ▸ .unclosed⟩

theorem Stops.readOne (h : Stops tokens stack err) : readOne length tokens stack = .error err := by
  cases h with
  | unclosed => rfl
  | token hstep => rw [Reader.readOne, hstep]

theorem Stops.readAll (h : Stops tokens stack err) : readAll tokens stack seen = .error err := by
  cases h with
  | unclosed => rfl
  | token hstep => rw [Reader.readAll, hstep]

theorem NotOne.readOne (h : NotOne length tokens err) :
    readOne length tokens [] = .error err := by
  cases h with
  | empty => rfl
  | refused h =>
    obtain ⟨before, rest, stack, rfl, hruns, hstops⟩ := h.stops
    rw [hruns.readOne, hstops.readOne]
  | trailing he =>
    obtain ⟨init, last, stack, rfl, hruns, hlast⟩ := he.runs rfl []
    rw [List.append_assoc, hruns.readOne, List.singleton_append, Reader.readOne, hlast]
    rfl

theorem NotAll.readAll (h : NotAll tokens err) : readAll tokens [] seen = .error err := by
  induction h generalizing seen with
  | refused h =>
    obtain ⟨before, rest, stack, rfl, hruns, hstops⟩ := h.stops
    rw [hruns.readAll, hstops.readAll]
  | later he _ ih =>
    obtain ⟨init, last, stack, rfl, hruns, hlast⟩ := he.runs rfl []
    rw [List.append_assoc, hruns.readAll, List.singleton_append, Reader.readAll, hlast]
    exact ih

/-! ## Descent finds the first error -/

theorem Pending.append (h : Pending tokens (paren :: parens))
    (he : Derives (rest.map Token.kind) e) : Pending (tokens ++ rest) (paren :: parens) := by
  cases h with
  | cons hbefore hparen hcontent =>
    rw [List.append_assoc, List.cons_append]
    have hmore := hcontent.append (.singleton he)
    exact .cons hbefore hparen (List.map_append ▸ hmore)

namespace Descent

/-! An expression and the elements of a list call each other as in the definition, so the measure is
that of the definition: the tokens that are left, and elements above expressions. -/

mutual

/-- What descent reads derives the expression. -/
theorem derives_of_expr {tokens : List Token} {e : Expr} {behind : Behind tokens}
    (h : expr length tokens = .ok (e, behind)) :
    ∃ front, tokens = front ++ behind.1 ∧ Derives (front.map Token.kind) e := by
  match tokens with
  | [] => rw [expr] at h; cases h
  | token :: rest =>
    rw [expr] at h
    split at h
    · next hkind =>
      obtain ⟨⟨es, behind'⟩, hitems, h⟩ := bind_eq_ok.mp h
      cases h
      obtain ⟨front, close, hrest, hclose, hes⟩ := derivesAll_of_items hitems
      refine ⟨token :: (front ++ [close]), by simpa using hrest, ?_⟩
      simpa [hkind, hclose] using Derives.list hes
    · cases h
    · next text hkind =>
      cases h
      exact ⟨[token], rfl, by simpa [hkind] using Derives.str text⟩
    · next text hkind =>
      obtain ⟨l, hl, h⟩ := bind_eq_ok.mp h
      cases h
      exact ⟨[token], rfl, by simpa [hkind] using Derives.atom (literal_eq_ok_iff.mp hl)⟩
termination_by (tokens.length, 0)

theorem derivesAll_of_items {paren : Span} {tokens : List Token} {es : List Expr}
    {behind : Behind tokens} (h : items length paren tokens = .ok (es, behind)) :
    ∃ front close, tokens = front ++ close :: behind.1 ∧ close.kind = .closeParen ∧
      DerivesAll (front.map Token.kind) es := by
  match tokens with
  | [] => rw [items] at h; cases h
  | token :: rest =>
    rw [items] at h
    split at h
    · next hkind =>
      cases h
      exact ⟨[], token, rfl, hkind, .nil⟩
    · obtain ⟨⟨e, behind'⟩, hexpr, h⟩ := bind_eq_ok.mp h
      obtain ⟨⟨es', behind''⟩, hitems, h⟩ := bind_eq_ok.mp h
      cases h
      obtain ⟨front, htokens, he⟩ := derives_of_expr hexpr
      obtain ⟨front', close, hbehind, hclose, hes⟩ := derivesAll_of_items hitems
      refine ⟨front ++ front', close, ?_, hclose, List.map_append ▸ .cons he hes⟩
      calc token :: rest = front ++ behind'.1 := htokens
        _ = front ++ (front' ++ close :: behind''.1) := congrArg (front ++ ·) hbehind
        _ = front ++ front' ++ close :: behind''.1 := (List.append_assoc ..).symm
termination_by (tokens.length, 1)
decreasing_by
  · exact .right _ Nat.zero_lt_one
  · exact .left _ _ behind'.2

end

mutual

/-- Where descent fails, the tokens are refused, together with those that opened the lists around
them. -/
theorem refused_of_expr {before parens : List Token} {token : Token} {rest : List Token}
    {err : ParseError} (hbefore : Pending before parens)
    (hclose : token.kind = .closeParen → parens = [])
    (h : expr length (token :: rest) = .error err) : Refused (before ++ token :: rest) err := by
  rw [expr] at h
  split at h
  · next hkind =>
    rcases bind_eq_error.mp h with h | ⟨_, -, h⟩
    · rw [List.append_cons]
      exact refused_of_items (.cons hbefore hkind .nil) h
    · cases h
  · next hkind =>
    cases h
    cases hclose hkind
    cases hbefore
    exact .closeParen hkind
  · cases h
  · next text hkind =>
    rcases bind_eq_error.mp h with h | ⟨_, -, h⟩
    · obtain ⟨⟨n, hnumeral, hrange⟩, rfl⟩ := literal_eq_error_iff.mp h
      exact .outOfRange hbefore hkind hnumeral hrange
    · cases h
termination_by (rest.length + 1, 0)

theorem refused_of_items {before outer tokens : List Token} {paren : Token} {err : ParseError}
    (hbefore : Pending before (paren :: outer)) (h : items length paren.span tokens = .error err) :
    Refused (before ++ tokens) err := by
  match tokens with
  | [] =>
    rw [items] at h
    cases h
    rw [List.append_nil]
    exact .unclosed hbefore
  | token :: rest =>
    rw [items] at h
    split at h
    · cases h
    · next hkind =>
      rcases bind_eq_error.mp h with h | ⟨⟨e, behind⟩, hexpr, h⟩
      -- A closing parenthesis would have ended the list, so no element starts with one.
      · exact refused_of_expr hbefore (fun hclose => absurd hclose hkind) h
      · rcases bind_eq_error.mp h with h | ⟨_, -, h⟩
        -- The element that was read joins those behind the innermost parenthesis.
        · obtain ⟨front, htokens, he⟩ := derives_of_expr hexpr
          rw [htokens, ← List.append_assoc]
          exact refused_of_items (hbefore.append he) h
        · cases h
termination_by (tokens.length, 1)
decreasing_by
  · exact .right _ Nat.zero_lt_one
  · exact .left _ _ behind.2

end

/-- What is read as one expression derives it, and other tokens are refused or go on behind one. -/
theorem one_cases (length : Nat) (tokens : List Token) :
    (∃ e, one length tokens = .ok e ∧ Derives (tokens.map Token.kind) e) ∨
      ∃ err, one length tokens = .error err ∧ NotOne length tokens err := by
  cases hexpr : expr length tokens with
  | error err =>
    refine .inr ⟨err, by rw [one, hexpr, error_bind], ?_⟩
    cases tokens with
    | nil =>
      rw [expr] at hexpr
      cases hexpr
      exact .empty
    | cons token rest => exact .refused (refused_of_expr .nil (fun _ => rfl) hexpr)
  | ok read =>
    obtain ⟨e, behind, hlt⟩ := read
    obtain ⟨front, htokens, he⟩ := derives_of_expr hexpr
    rw [one, hexpr, ok_bind]
    cases behind with
    | nil =>
      refine .inl ⟨e, rfl, ?_⟩
      rwa [htokens, List.append_nil]
    | cons extra rest =>
      refine .inr ⟨_, rfl, ?_⟩
      rw [htokens]
      exact .trailing he

/-- What is read as several expressions derives them, and other tokens are refused behind some. -/
theorem all_cases (length : Nat) (tokens : List Token) :
    (∃ es, all length tokens = .ok es ∧ DerivesAll (tokens.map Token.kind) es) ∨
      ∃ err, all length tokens = .error err ∧ NotAll tokens err := by
  match tokens with
  | [] => exact .inl ⟨[], by rw [all]; rfl, .nil⟩
  | token :: rest =>
    cases hexpr : expr length (token :: rest) with
    | error err =>
      refine .inr ⟨err, by rw [all, hexpr, error_bind], ?_⟩
      exact .refused (refused_of_expr .nil (fun _ => rfl) hexpr)
    | ok read =>
      obtain ⟨e, behind⟩ := read
      obtain ⟨front, htokens, he⟩ := derives_of_expr hexpr
      rw [all, hexpr, ok_bind]
      rcases all_cases length behind.1 with ⟨es, hall, hes⟩ | ⟨err, hall, herr⟩
      · refine .inl ⟨e :: es, by simp only [hall]; rfl, ?_⟩
        rw [htokens, List.map_append]
        exact .cons he hes
      · refine .inr ⟨err, by simp only [hall]; rfl, ?_⟩
        rw [htokens]
        exact .later he herr
termination_by tokens.length
decreasing_by exact behind.2

end Descent

theorem readOne_eq_error_iff :
    readOne length tokens [] = .error err ↔ NotOne length tokens err := by
  refine ⟨fun h => ?_, NotOne.readOne⟩
  rcases Descent.one_cases length tokens with ⟨e, -, he⟩ | ⟨err', -, herr⟩
  · cases h.symm.trans (readOne_eq_ok_iff.mpr he)
  · cases h.symm.trans herr.readOne
    exact herr

theorem readAll_eq_error_iff : readAll tokens [] [] = .error err ↔ NotAll tokens err := by
  refine ⟨fun h => ?_, NotAll.readAll⟩
  rcases Descent.all_cases 0 tokens with ⟨es, -, hes⟩ | ⟨err', -, herr⟩
  · cases h.symm.trans (readAll_eq_ok_iff.mpr hes)
  · cases h.symm.trans herr.readAll
    exact herr

/-- Recursive descent and the stack of open lists come to the same result or to the same error, for
one expression and for several. An error is the first from left to right: in front of it are
complete expressions and the parentheses that are still open, and at the end it blames the innermost
of these. -/
theorem descent_eq (length : Nat) (tokens : List Token) :
    (Descent.one length tokens = readOne length tokens [] ∧
      ∀ err, readOne length tokens [] = .error err ↔ NotOne length tokens err) ∧
    (Descent.all length tokens = readAll tokens [] [] ∧
      ∀ err, readAll tokens [] [] = .error err ↔ NotAll tokens err) := by
  refine ⟨⟨?_, fun err => readOne_eq_error_iff⟩, ?_, fun err => readAll_eq_error_iff⟩
  · rcases Descent.one_cases length tokens with ⟨e, hone, he⟩ | ⟨err, hone, herr⟩
    · exact hone.trans (readOne_eq_ok_iff.mpr he).symm
    · exact hone.trans herr.readOne.symm
  · rcases Descent.all_cases length tokens with ⟨es, hall, hes⟩ | ⟨err, hall, herr⟩
    · exact hall.trans (readAll_eq_ok_iff.mpr hes).symm
    · exact hall.trans herr.readAll.symm

end Curried.Reader
