import Mathlib.Data.List.Basic
import Curried.Reader.Signature
import Curried.Proofs.Except
import Curried.Proofs.Reader.Lexeme
import Curried.Proofs.Ty.Letters

/-!
The grammar of signatures. `Signs` and `Operand` say which type a list of symbols is, with the arrow
to the right and any parentheses, and a source is read as the type that its symbols are
(`Ty.parse_eq_ok_iff`). A signature that is under way holds what its symbols are so far
(`Signature.Reached`); the symbols of an operand lead to it whatever waits around it
(`Operand.run`).
-/

namespace Curried

namespace Reader

open Lexeme (Symbol)

/-- `Names name t`: alone, the name is the type `t`. One that starts with a lowercase letter has to
spell a variable. -/
inductive Names : String → Ty → Prop where
  | var : TyVar.Spells name.toList v → v < TyVar.limit → Names name (.var v)
  | const : ¬name.toList.head?.any Char.isLower → Names name (.const name)

mutual

/-- `Signs ks t`: the symbols `ks` are the type `t`. -/
inductive Signs : List Symbol → Ty → Prop where
  | operand : Operand ks t → Signs ks t
  | arrow : Operand ks d → Signs ks' c → Signs (ks ++ .arrow :: ks') (.arrow d c)

/-- `Operand ks t`: the symbols `ks` are the type `t`, and may stand in front of an arrow. -/
inductive Operand : List Symbol → Ty → Prop where
  | name : Names name t → Operand [.name name] t
  | parens : Signs ks t → Operand (.openParen :: (ks ++ [.closeParen])) t

end

namespace Signature

/-- `Moves s k s'`: the symbol `k` leads from the one signature to the other. -/
inductive Moves : Signature → Symbol → Signature → Prop where
  | name : Names name t → Moves ⟨none, ds, dss⟩ (.name name) ⟨some t, ds, dss⟩
  | openParen : Moves ⟨none, ds, dss⟩ .openParen ⟨none, [], ds :: dss⟩
  | arrow : Moves ⟨some t, ds, dss⟩ .arrow ⟨none, t :: ds, dss⟩
  | closeParen :
      Moves ⟨some t, ds, ds' :: dss⟩ .closeParen ⟨some (Signature.arrows ds t), ds', dss⟩

/-- `Run s ks s'`: the symbols `ks` lead from the one signature to the other. -/
inductive Run : Signature → List Symbol → Signature → Prop where
  | nil : Run s [] s
  | cons : Moves s k s' → Run s' ks s'' → Run s (k :: ks) s''

/-- `Waits ks ds`: the symbols `ks` are the operands `ds`, the latest first, each with an arrow
behind it. -/
inductive Waits : List Symbol → List Ty → Prop where
  | nil : Waits [] []
  | cons : Waits ks ds → Operand ks' d → Waits (ks ++ (ks' ++ [.arrow])) (d :: ds)

/-- `Opened ks dss`: the symbols `ks` are, for each open parenthesis, the domains that wait outside
of it and the parenthesis. -/
inductive Opened : List Symbol → List (List Ty) → Prop where
  | nil : Opened [] []
  | cons : Opened ks dss → Waits ks' ds → Opened (ks ++ (ks' ++ [.openParen])) (ds :: dss)

/-- What the symbols `ks` are that lead to this point: what is open, what waits inside the innermost
parenthesis, and the operand if there is one. -/
inductive Reached : List Symbol → Signature → Prop where
  | waiting : Opened outer dss → Waits ks ds → Reached (outer ++ ks) ⟨none, ds, dss⟩
  | operand : Opened outer dss → Waits ks ds → Operand ks' t →
      Reached (outer ++ (ks ++ ks')) ⟨some t, ds, dss⟩

end Signature

variable {name : String} {span : Span} {t : Ty} {ks ks' : List Symbol} {k : Symbol} {l : Lexeme}
  {lexemes : List Lexeme} {s s' s'' : Signature} {ds : List Ty} {dss : List (List Ty)}
  {length : Nat}

/-! ## What a lexeme leads to -/

theorem head?_isLower_of_spells {cs : List Char} {v : TyVar} (h : TyVar.Spells cs v) :
    cs.head?.any Char.isLower := by
  cases cs with
  | nil => exact absurd rfl h.ne_nil
  | cons c cs => exact h.isLower c List.mem_cons_self

/-- A name is read as the type that it is, and as nothing if it is none. -/
theorem typeOfName_eq_ok_iff : typeOfName name span = .ok t ↔ Names name t := by
  unfold typeOfName
  constructor
  · intro h
    split_ifs at h with hname
    · split at h
      · next v hv =>
        cases h
        obtain ⟨hspells, hlt⟩ := TyVar.ofLetters?_eq_some_iff.mp hv
        exact .var hspells hlt
      · cases h
    · cases h
      exact .const hname
  · intro h
    cases h with
    | var hspells hlt =>
      rw [if_pos (head?_isLower_of_spells hspells),
        TyVar.ofLetters?_eq_some_iff.mpr ⟨hspells, hlt⟩]
    | const hname => rw [if_neg hname]

namespace Signature

@[simp] theorem arrows_nil (t : Ty) : arrows [] t = t := rfl

@[simp] theorem arrows_cons (d : Ty) (ds : List Ty) (t : Ty) :
    arrows (d :: ds) t = arrows ds (.arrow d t) := rfl

/-- A lexeme leads where its symbol does, and nowhere else. -/
theorem step_eq_ok_iff : step s l = .ok s' ↔ Moves s l.symbol s' := by
  obtain ⟨operand, ds, dss⟩ := s
  constructor
  · intro h
    unfold step at h
    split at h
    · next hoperand hkind =>
      cases hoperand
      split at h
      · next t ht =>
        cases h
        rw [Lexeme.symbol_eq_name_iff.mpr ⟨hkind, rfl⟩]
        exact .name (typeOfName_eq_ok_iff.mp ht)
      · cases h
    · next hoperand hkind =>
      cases hoperand
      cases h
      rw [Lexeme.symbol_eq_openParen_iff.mpr hkind]
      exact .openParen
    · cases h
    · next hoperand hkind =>
      cases hoperand
      cases h
      rw [Lexeme.symbol_eq_arrow_iff.mpr hkind]
      exact .arrow
    · next hoperand hkind haround =>
      cases hoperand
      cases haround
      cases h
      rw [Lexeme.symbol_eq_closeParen_iff.mpr hkind]
      exact .closeParen
    · cases h
    · cases h
  · intro h
    generalize hk : l.symbol = k at h
    cases h with
    | name ht =>
      obtain ⟨hkind, rfl⟩ := Lexeme.symbol_eq_name_iff.mp hk
      simp only [step, hkind, typeOfName_eq_ok_iff.mpr ht]
    | openParen => simp only [step, Lexeme.symbol_eq_openParen_iff.mp hk]
    | arrow => simp only [step, Lexeme.symbol_eq_arrow_iff.mp hk]
    | closeParen => simp only [step, Lexeme.symbol_eq_closeParen_iff.mp hk]

theorem foldlM_step_eq_ok_iff :
    lexemes.foldlM step s = .ok s' ↔ Run s (lexemes.map Lexeme.symbol) s' := by
  induction lexemes generalizing s with
  | nil =>
    rw [List.foldlM_nil, List.map_nil]
    constructor
    · intro h
      cases h
      exact .nil
    · intro h
      cases h
      rfl
  | cons l lexemes ih =>
    rw [List.foldlM_cons, List.map_cons]
    simp only [bind_eq_ok, step_eq_ok_iff, ih]
    constructor
    · rintro ⟨_, hmove, hrun⟩
      exact .cons hmove hrun
    · intro h
      cases h with
      | cons hmove hrun => exact ⟨_, hmove, hrun⟩

/-! ## What is read is derived -/

theorem Waits.signs (h : Waits ks ds) (ht : Signs ks' t) : Signs (ks ++ ks') (arrows ds t) := by
  induction h generalizing ks' t with
  | nil => exact ht
  | cons _ hd ih => simpa using ih (.arrow hd ht)

theorem Moves.reached (hs : Reached ks s) (h : Moves s k s') : Reached (ks ++ [k]) s' := by
  cases hs with
  | waiting houter hwaits =>
    cases h with
    | name ht => simpa using Reached.operand houter hwaits (.name ht)
    | openParen => simpa using Reached.waiting (.cons houter hwaits) .nil
  | operand houter hwaits ht =>
    cases h with
    | arrow => simpa using Reached.waiting houter (.cons hwaits ht)
    | closeParen =>
      -- What waits inside the parentheses and the operand are the type between them.
      cases houter with
      | cons houter hwaits' =>
        simpa using Reached.operand houter hwaits' (.parens (hwaits.signs (.operand ht)))

theorem Run.reached (hs : Reached ks s) (h : Run s ks' s') : Reached (ks ++ ks') s' := by
  induction h generalizing ks with
  | nil => rwa [List.append_nil]
  | cons hmove _ ih =>
    rw [List.append_cons]
    exact ih (hmove.reached hs)

theorem Reached.signs (hs : Reached ks s) (h : finish length s = .ok t) : Signs ks t := by
  cases hs with
  | waiting => cases h
  | operand houter hwaits ht =>
    cases houter with
    | nil =>
      cases h
      exact hwaits.signs (.operand ht)
    | cons => cases h

/-! ## What is derived is read -/

theorem Run.append (h : Run s ks s') (h' : Run s' ks' s'') : Run s (ks ++ ks') s'' := by
  induction h with
  | nil => exact h'
  | cons hmove _ ih => exact .cons hmove (ih h')

end Signature

open Signature

mutual

/-- The symbols of an operand lead to it, whatever waits. -/
theorem Operand.run {ks : List Symbol} {t : Ty} (h : Operand ks t) (ds : List Ty)
    (dss : List (List Ty)) : Run ⟨none, ds, dss⟩ ks ⟨some t, ds, dss⟩ := by
  match h with
  | .name ht => exact .cons (.name ht) .nil
  | .parens ht =>
    obtain ⟨t', ds', hrun, harrows⟩ := ht.run [] (ds :: dss)
    have hclose : Moves ⟨some t', ds', ds :: dss⟩ .closeParen ⟨some t, ds, dss⟩ := by
      rw [← arrows_nil t, harrows]
      exact .closeParen
    exact .cons .openParen (hrun.append (.cons hclose .nil))

/-- The symbols of a type lead to its last operand, and the domains in front of that wait. -/
theorem Signs.run {ks : List Symbol} {t : Ty} (h : Signs ks t) (ds : List Ty)
    (dss : List (List Ty)) :
    ∃ t' ds', Run ⟨none, ds, dss⟩ ks ⟨some t', ds', dss⟩ ∧ arrows ds t = arrows ds' t' := by
  match h with
  | .operand ht => exact ⟨_, _, ht.run ds dss, rfl⟩
  | .arrow hd hc =>
    obtain ⟨t', ds', hrun, harrows⟩ := hc.run (_ :: ds) dss
    exact ⟨t', ds', (hd.run ds dss).append (.cons .arrow hrun), harrows⟩

end

/-- The symbols that are a type are those that lead to a signature that comes to it. -/
theorem signs_iff_run (length : Nat) :
    Signs ks t ↔ ∃ s, Run start ks s ∧ finish length s = .ok t := by
  constructor
  · intro h
    obtain ⟨t', ds', hrun, harrows⟩ := h.run [] []
    exact ⟨_, hrun, congrArg Except.ok harrows.symm⟩
  · rintro ⟨s, hrun, hs⟩
    exact (hrun.reached (.waiting .nil .nil)).signs hs

/-- Reading a list of lexemes gives the type that their symbols are. -/
theorem readType_eq_ok_iff :
    readType length lexemes = .ok t ↔ Signs (lexemes.map Lexeme.symbol) t := by
  have hread : readType length lexemes = .ok t ↔
      lexemes.foldlM Signature.step start >>= finish length = .ok t := by
    -- Without lexemes there is no operand, so both sides fail.
    cases lexemes with
    | nil => exact ⟨nofun, nofun⟩
    | cons => rfl
  simp only [hread, bind_eq_ok, foldlM_step_eq_ok_iff, signs_iff_run length]

end Reader

/-- A source is read as the type that its symbols are. -/
theorem Ty.parse_eq_ok_iff {source : String} {t : Ty} : Ty.parse source = .ok t ↔
    ∃ ks, Lexeme.Lexes source.toList ks ∧ Reader.Signs ks t := by
  simp only [Ty.parse, bind_eq_ok, Reader.readType_eq_ok_iff, Lexeme.lexes_iff]
  constructor
  · rintro ⟨lexemes, hscan, h⟩
    exact ⟨_, ⟨lexemes, hscan, rfl⟩, h⟩
  · rintro ⟨_, ⟨lexemes, hscan, rfl⟩, h⟩
    exact ⟨lexemes, hscan, h⟩

end Curried
