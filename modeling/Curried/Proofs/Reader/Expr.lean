import Mathlib.Data.List.Basic
import Curried.Proofs.Reader.Literal
import Curried.Proofs.Reader.Token

/-!
The grammar of expressions. `Derives` says which expression a list of tokens is, and reading finds
it exactly when there is one (`readOne_eq_ok_iff`, `readAll_eq_ok_iff`). On the one hand, the stack
of open lists holds what the tokens that led to it derive so far (`Opened`). On the other, reading
the tokens of a derivation leaves the lists around it open (`Runs`).
-/

namespace Curried.Reader

mutual

/-- `Derives ks e`: the tokens `ks` are the expression `e`. -/
inductive Derives : List Token.Kind → Expr → Prop where
  | str (text : String) : Derives [.str text] (.str text)
  | atom : Denotes text l → Derives [.atom text] (.leaf l)
  | list : DerivesAll ks es → Derives (.openParen :: (ks ++ [.closeParen])) (.list es)

/-- `DerivesAll ks es`: the tokens `ks` are the expressions `es`, one after the other. -/
inductive DerivesAll : List Token.Kind → List Expr → Prop where
  | nil : DerivesAll [] []
  | cons : Derives ks e → DerivesAll ks' es → DerivesAll (ks ++ ks') (e :: es)

end

/-- `Opened ks stack`: the tokens `ks` open the lists of `stack`, from the outermost to the
innermost, and give them the elements that they have so far. -/
inductive Opened : List Token.Kind → List OpenList → Prop where
  | nil : Opened [] []
  | cons {l : OpenList} : Opened before outer → DerivesAll ks l.items.reverse →
      Opened (before ++ .openParen :: ks) (l :: outer)

/-- What the tokens `ks` are that lead to this point. -/
def Progress.Reached (ks : List Token.Kind) : Progress → Prop
  | .within stack => Opened ks stack
  | .complete e => Derives ks e

/-- `Runs tokens stack stack'`: the tokens lead from the one stack to the other, and a list is open
behind each of them. -/
inductive Runs : List Token → List OpenList → List OpenList → Prop where
  | nil : Runs [] stack stack
  | cons : step stack token = .ok (.within stack') → Runs tokens stack' stack'' →
      Runs (token :: tokens) stack stack''

theorem DerivesAll.append {ks ks' : List Token.Kind} {es es' : List Expr} (h : DerivesAll ks es)
    (h' : DerivesAll ks' es') : DerivesAll (ks ++ ks') (es ++ es') := by
  cases h with
  | nil => exact h'
  | cons he hes =>
    rw [List.append_assoc]
    exact .cons he (hes.append h')

variable {ks ks' : List Token.Kind} {e e' : Expr} {es es' seen : List Expr}
  {stack stack' stack'' outer : List OpenList} {l : OpenList} {tokens tokens' rest : List Token}
  {token : Token} {progress : Progress} {length : Nat}

theorem DerivesAll.singleton (h : Derives ks e) : DerivesAll ks [e] :=
  List.append_nil ks ▸ .cons h .nil

/-! ## What is read is derived -/

theorem addTo_reached (hstack : Opened ks stack) (h : Derives ks' e) :
    (addTo stack e).Reached (ks ++ ks') := by
  cases hstack with
  | nil => exact h
  | cons houter hitems =>
    rw [List.append_assoc, List.cons_append]
    exact .cons houter (List.reverse_cons ▸ hitems.append (.singleton h))

/-- One step derives a longer part of the tokens. -/
theorem step_reached (hstack : Opened ks stack) (h : step stack token = .ok progress) :
    progress.Reached (ks ++ [token.kind]) := by
  unfold step at h
  split at h
  · next hkind =>
    cases h
    exact hkind ▸ .cons hstack .nil
  · cases h
  · next l outer hkind =>
    -- The innermost list is complete, so it is an element of the list around it.
    cases h
    cases hstack with
    | cons houter hitems =>
      rw [List.append_assoc, hkind]
      exact addTo_reached houter (.list hitems)
  · next text hkind =>
    cases h
    exact addTo_reached hstack (hkind ▸ .str text)
  · next text hkind =>
    split at h
    · next l hl =>
      cases h
      exact addTo_reached hstack (hkind ▸ .atom (literal_eq_ok_iff.mp hl))
    · cases h

theorem derives_of_readOne (hstack : Opened ks stack) (h : readOne length tokens stack = .ok e) :
    Derives (ks ++ tokens.map Token.kind) e := by
  induction tokens generalizing ks stack with
  | nil => cases stack <;> cases h
  | cons token rest ih =>
    rw [readOne] at h
    rw [List.map_cons, List.append_cons]
    split at h
    · cases h
    · next stack hstep => exact ih (step_reached hstack hstep) h
    · next e' hstep =>
      split at h
      · cases h
        rw [List.map_nil, List.append_nil]
        exact step_reached hstack hstep
      · cases h

theorem derivesAll_of_readAll (hstack : Opened ks stack) (h : readAll tokens stack seen = .ok es) :
    ∃ es', es = seen.reverse ++ es' ∧ DerivesAll (ks ++ tokens.map Token.kind) es' := by
  induction tokens generalizing ks stack seen with
  | nil =>
    cases hstack with
    | nil =>
      cases h
      exact ⟨[], by simp, .nil⟩
    | cons => cases h
  | cons token rest ih =>
    rw [readAll] at h
    rw [List.map_cons, List.append_cons]
    split at h
    · cases h
    · next stack hstep => exact ih (step_reached hstack hstep) h
    · next e hstep =>
      -- What follows a complete expression is derived on its own.
      obtain ⟨es', rfl, hes⟩ := ih .nil h
      exact ⟨e :: es', by simp, .cons (step_reached hstack hstep) hes⟩

/-! ## What is derived is read -/

theorem Runs.append (h : Runs tokens stack stack') (h' : Runs tokens' stack' stack'') :
    Runs (tokens ++ tokens') stack stack'' := by
  induction h with
  | nil => exact h'
  | cons hstep _ ih => exact .cons hstep (ih h')

theorem Runs.readOne (h : Runs tokens stack stack') :
    readOne length (tokens ++ rest) stack = readOne length rest stack' := by
  induction h with
  | nil => rfl
  | cons hstep _ ih =>
    rw [List.cons_append, Reader.readOne, hstep]
    exact ih

theorem Runs.readAll (h : Runs tokens stack stack') :
    readAll (tokens ++ rest) stack seen = readAll rest stack' seen := by
  induction h with
  | nil => rfl
  | cons hstep _ ih =>
    rw [List.cons_append, Reader.readAll, hstep]
    exact ih

theorem step_openParen (h : token.kind = .openParen) :
    step stack token = .ok (.within (⟨token.span, []⟩ :: stack)) := by
  rw [step.eq_def, h]

theorem step_closeParen (h : token.kind = .closeParen) :
    step (l :: outer) token = .ok (addTo outer (.list l.items.reverse)) := by
  rw [step.eq_def, h]

theorem step_str {text : String} (h : token.kind = .str text) :
    step stack token = .ok (addTo stack (.str text)) := by
  rw [step.eq_def, h]

theorem step_atom {text : String} {a : Literal} (h : token.kind = .atom text)
    (ha : Denotes text a) : step stack token = .ok (addTo stack (.leaf a)) := by
  rw [step.eq_def, h]
  simp only [literal_eq_ok_iff.mpr ha]

mutual

/-- The tokens of an expression lead to its last one, which adds the expression to the list around
it. -/
theorem Derives.runs {ks : List Token.Kind} {e : Expr} {tokens : List Token} (h : Derives ks e)
    (htokens : tokens.map Token.kind = ks) (stack : List OpenList) :
    ∃ init last stack', tokens = init ++ [last] ∧ Runs init stack stack' ∧
      step stack' last = .ok (addTo stack e) := by
  cases h with
  | str text =>
    obtain ⟨token, rfl, hkind⟩ := List.map_eq_singleton_iff.mp htokens
    exact ⟨[], token, stack, rfl, .nil, step_str hkind⟩
  | atom ha =>
    obtain ⟨token, rfl, hkind⟩ := List.map_eq_singleton_iff.mp htokens
    exact ⟨[], token, stack, rfl, .nil, step_atom hkind ha⟩
  | list hes =>
    obtain ⟨first, tokens, rfl, hfirst, htokens⟩ := List.map_eq_cons_iff.mp htokens
    obtain ⟨inner, close, rfl, hinner, hclose⟩ := List.map_eq_append_iff.mp htokens
    obtain ⟨last, rfl, hlast⟩ := List.map_eq_singleton_iff.mp hclose
    have hruns := hes.runs hinner ⟨first.span, []⟩ stack
    refine ⟨first :: inner, last, _, rfl, .cons (step_openParen hfirst) hruns, ?_⟩
    rw [step_closeParen hlast]
    simp

/-- The tokens of some expressions add them to the list around them. -/
theorem DerivesAll.runs {ks : List Token.Kind} {es : List Expr} {tokens : List Token}
    (h : DerivesAll ks es) (htokens : tokens.map Token.kind = ks) (l : OpenList)
    (outer : List OpenList) :
    Runs tokens (l :: outer) ({ l with items := es.reverse ++ l.items } :: outer) := by
  cases h with
  | nil =>
    cases List.map_eq_nil_iff.mp htokens
    exact .nil
  | @cons _ e _ _ he hes =>
    obtain ⟨first, others, rfl, hfirst, hothers⟩ := List.map_eq_append_iff.mp htokens
    obtain ⟨init, last, stack, rfl, hinit, hlast⟩ := he.runs hfirst (l :: outer)
    have htail := hes.runs hothers { l with items := e :: l.items } outer
    simpa using (hinit.append (.cons hlast .nil)).append htail

end

theorem readOne_of_derives (h : Derives (tokens.map Token.kind) e) :
    readOne length tokens [] = .ok e := by
  obtain ⟨init, last, stack, rfl, hinit, hlast⟩ := h.runs rfl []
  rw [hinit.readOne, readOne, hlast]
  rfl

/-- Expressions that are complete leave what follows them to be read on its own. -/
theorem DerivesAll.readAll (h : DerivesAll ks es) (htokens : tokens.map Token.kind = ks) :
    readAll (tokens ++ rest) [] seen = readAll rest [] (es.reverse ++ seen) := by
  induction es generalizing ks tokens seen with
  | nil =>
    cases h
    cases List.map_eq_nil_iff.mp htokens
    rfl
  | cons e es ih =>
    cases h with
    | cons he hes =>
      obtain ⟨first, others, rfl, hfirst, hothers⟩ := List.map_eq_append_iff.mp htokens
      obtain ⟨init, last, stack, rfl, hinit, hlast⟩ := he.runs hfirst []
      have hrest : Reader.readAll (others ++ rest) [] (e :: seen) =
          Reader.readAll rest [] (es.reverse ++ e :: seen) := ih hes hothers
      rw [List.append_assoc, List.append_assoc, hinit.readAll, List.singleton_append,
        Reader.readAll, hlast]
      simpa [addTo] using hrest

/-- Reading a list of tokens gives the expression that they are. -/
theorem readOne_eq_ok_iff :
    readOne length tokens [] = .ok e ↔ Derives (tokens.map Token.kind) e :=
  ⟨derives_of_readOne .nil, readOne_of_derives⟩

theorem readAll_eq_ok_iff :
    readAll tokens [] [] = .ok es ↔ DerivesAll (tokens.map Token.kind) es := by
  constructor
  · intro h
    obtain ⟨es', rfl, h⟩ := derivesAll_of_readAll .nil h
    exact h
  · intro h
    have hread : readAll (tokens ++ []) [] [] = readAll [] [] (es.reverse ++ []) := h.readAll rfl
    rwa [List.append_nil, List.append_nil, readAll, List.reverse_reverse] at hread

theorem exists_tokens (ks : List Token.Kind) : ∃ tokens : List Token, tokens.map Token.kind = ks :=
  ⟨ks.map fun k => ⟨k, .point 0⟩, by simp [Function.comp_def]⟩

/-- Tokens are one expression at most. -/
theorem Derives.unique (h : Derives ks e) (h' : Derives ks e') : e = e' := by
  obtain ⟨tokens, rfl⟩ := exists_tokens ks
  have hread : readOne 0 tokens [] = .ok e := readOne_of_derives h
  exact Except.ok.inj (hread.symm.trans (readOne_of_derives h'))

theorem DerivesAll.unique (h : DerivesAll ks es) (h' : DerivesAll ks es') : es = es' := by
  obtain ⟨tokens, rfl⟩ := exists_tokens ks
  exact Except.ok.inj ((readAll_eq_ok_iff.mpr h).symm.trans (readAll_eq_ok_iff.mpr h'))

end Curried.Reader

namespace Curried

/-- A source is read as the expression that its tokens derive. -/
theorem Expr.parse_eq_ok_iff {source : String} {e : Expr} : Expr.parse source = .ok e ↔
    ∃ ks, Token.Lexes source.toList ks ∧ Reader.Derives ks e := by
  simp only [Token.lexes_iff, Expr.parse]
  constructor
  · intro h
    split at h
    · next tokens hscan => exact ⟨_, ⟨tokens, hscan, rfl⟩, Reader.readOne_eq_ok_iff.mp h⟩
    · cases h
  · rintro ⟨_, ⟨tokens, hscan, rfl⟩, h⟩
    rw [hscan]
    exact Reader.readOne_eq_ok_iff.mpr h

/-- For a source that has tokens, reading is decided by the grammar: these are the only tokens that
the source consists of, it reads as an expression exactly if they are that expression, and as
several ones exactly if they are those, one after the other. No tokens are two expressions. -/
theorem Expr.parse_iff_derives {source : String} {tokens : List Token}
    (h : Token.scan source = .ok tokens) :
    (∀ ks, Token.Lexes source.toList ks ↔ ks = tokens.map Token.kind) ∧
    (∀ e, Expr.parse source = .ok e ↔ Reader.Derives (tokens.map Token.kind) e) ∧
    (∀ es, Expr.parseAll source = .ok es ↔ Reader.DerivesAll (tokens.map Token.kind) es) ∧
    (∀ ks e e', Reader.Derives ks e → Reader.Derives ks e' → e = e') ∧
    (∀ ks es es', Reader.DerivesAll ks es → Reader.DerivesAll ks es' → es = es') := by
  refine ⟨fun ks => ?_, fun e => ?_, fun es => ?_, fun ks e e' => Reader.Derives.unique,
    fun ks es es' => Reader.DerivesAll.unique⟩
  · simp [Token.lexes_iff, h, eq_comm]
  · rw [Expr.parse, h]
    exact Reader.readOne_eq_ok_iff
  · rw [Expr.parseAll, h]
    exact Reader.readAll_eq_ok_iff

/-- `(f "a\n" -7)` is a call with a string of two characters and a negative integer. -/
theorem Expr.parse_iff_derives_call :
    Token.scan "(f \"a\\n\" -7)" = .ok [⟨.openParen, ⟨0, 1⟩⟩, ⟨.atom "f", ⟨1, 2⟩⟩,
      ⟨.str "a\n", ⟨3, 8⟩⟩, ⟨.atom "-7", ⟨9, 11⟩⟩, ⟨.closeParen, ⟨11, 12⟩⟩] ∧
    Reader.Derives [.openParen, .atom "f", .str "a\n", .atom "-7", .closeParen]
      (.call "f" [.str "a\n", .int (-7)]) ∧
    Expr.parse "(f \"a\\n\" -7)" = .ok (.call "f" [.str "a\n", .int (-7)]) := by
  have hscan : Token.scan "(f \"a\\n\" -7)" = .ok [⟨.openParen, ⟨0, 1⟩⟩, ⟨.atom "f", ⟨1, 2⟩⟩,
      ⟨.str "a\n", ⟨3, 8⟩⟩, ⟨.atom "-7", ⟨9, 11⟩⟩, ⟨.closeParen, ⟨11, 12⟩⟩] := by rfl
  have hname : Reader.Denotes "f" (.atom "f") :=
    .atom (by decide) (by decide) (Reader.integer?_eq_none_iff.mp (by decide))
  have hint : Reader.Denotes "-7" (.int (-7)) := .int (Reader.integer?_eq_some_iff.mp (by decide))
  have hderives : Reader.Derives [.openParen, .atom "f", .str "a\n", .atom "-7", .closeParen]
      (.call "f" [.str "a\n", .int (-7)]) :=
    .list (.cons (.atom hname) (.cons (.str _) (.cons (.atom hint) .nil)))
  exact ⟨hscan, hderives, ((parse_iff_derives hscan).2.1 _).mpr hderives⟩

end Curried
