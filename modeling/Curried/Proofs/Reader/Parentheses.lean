import Curried.Proofs.Reader.Signature

/-!
What a signature says is clear. Its symbols are one type at most (`Signs.unique`), for a symbol
leads from one signature to one other at most. Parentheses around an operand, or around a type with
no arrow behind it, add nothing (`signs_parens_iff`): the domains inside of them wait for the same
codomain as without them. So the type of a source depends neither on such parentheses nor on its
layout (`Ty.parse_grammar`).
-/

namespace Curried

open Lexeme (Symbol)

namespace Reader

open Signature

variable {name : String} {t t' d : Ty} {pre ks ks' post : List Symbol} {k : Symbol}
  {s s' s'' : Signature} {ds ds' : List Ty} {dss : List (List Ty)}

/-! ## One type at most -/

theorem Names.unique (h : Names name t) (h' : Names name t') : t = t' := by
  have ht := (@typeOfName_eq_ok_iff _ (.point 0) _).mpr h
  have ht' := (@typeOfName_eq_ok_iff _ (.point 0) _).mpr h'
  exact Except.ok.inj (ht.symm.trans ht')

namespace Signature

theorem Moves.unique (h : Moves s k s') (h' : Moves s k s'') : s' = s'' := by
  cases h with
  | name ht =>
    cases h' with
    | name ht' => rw [ht.unique ht']
  | openParen | arrow | closeParen =>
    cases h'
    rfl

theorem Run.unique (h : Run s ks s') (h' : Run s ks s'') : s' = s'' := by
  induction h with
  | nil =>
    cases h'
    rfl
  | cons hmove _ ih =>
    cases h' with
    | cons hmove' hrun' =>
      cases hmove.unique hmove'
      exact ih hrun'

theorem run_append_iff :
    Run s (ks ++ ks') s'' ↔ ∃ s', Run s ks s' ∧ Run s' ks' s'' := by
  refine ⟨fun h => ?_, fun ⟨s', h, h'⟩ => h.append h'⟩
  induction ks generalizing s with
  | nil => exact ⟨s, .nil, h⟩
  | cons k ks ih =>
    cases h with
    | cons hmove hrun =>
      obtain ⟨s', h, h'⟩ := ih hrun
      exact ⟨s', .cons hmove h, h'⟩

end Signature

/-- The symbols of a signature are one type at most. -/
theorem Signs.unique (h : Signs ks t) (h' : Signs ks t') : t = t' := by
  obtain ⟨s, hrun, hs⟩ := (signs_iff_run 0).mp h
  obtain ⟨s', hrun', hs'⟩ := (signs_iff_run 0).mp h'
  cases hrun.unique hrun'
  exact Except.ok.inj (hs.symm.trans hs')

/-! ## Parentheses -/

namespace Signature

/-- `Comes s ks t`: from this signature on, the symbols `ks` lead to the type `t`. -/
def Comes (s : Signature) (ks : List Symbol) (t : Ty) : Prop :=
  ∃ s', Run s ks s' ∧ finish 0 s' = .ok t

theorem comes_append_iff :
    Comes s (ks ++ ks') t ↔ ∃ s', Run s ks s' ∧ Comes s' ks' t := by
  simp only [Comes, run_append_iff]
  constructor
  · rintro ⟨s'', ⟨s', h, h'⟩, hs''⟩
    exact ⟨s', h, s'', h', hs''⟩
  · rintro ⟨s', h, s'', h', hs''⟩
    exact ⟨s'', ⟨s', h, h'⟩, hs''⟩

/-- Only what the first symbols lead to matters for the others. -/
theorem Run.comes_iff (h : Run s ks s') : Comes s (ks ++ ks') t ↔ Comes s' ks' t := by
  rw [comes_append_iff]
  constructor
  · rintro ⟨s'', h', hs''⟩
    cases h.unique h'
    exact hs''
  · exact fun hs' => ⟨s', h, hs'⟩

/-- Behind an operand comes no other. -/
theorem not_comes_operand {dss' : List (List Ty)} (h : Run ⟨none, ds, dss⟩ ks s')
    (hs' : s'.operand ≠ none) : ¬Comes ⟨some t', ds', dss'⟩ (ks ++ ks') t := by
  rintro ⟨s, hrun, -⟩
  cases h with
  | nil => exact hs' rfl
  | cons hmove =>
    cases hmove with
    | name | openParen =>
      cases hrun with
      | cons hmove => cases hmove

/-- Where no arrow follows, it does not matter which domains wait for an operand and which are part
of it. -/
theorem Comes.congr (h : Comes ⟨some d, ds, dss⟩ post t) (harrows : arrows ds d = arrows ds' t')
    (hpost : post.head? ≠ some .arrow) : Comes ⟨some t', ds', dss⟩ post t := by
  obtain ⟨s, hrun, hs⟩ := h
  cases hrun with
  | nil =>
    cases dss with
    | nil =>
      cases hs
      exact ⟨_, .nil, congrArg Except.ok harrows.symm⟩
    | cons => cases hs
  | cons hmove hrun =>
    cases hmove with
    | arrow => exact absurd rfl hpost
    | closeParen =>
      rw [harrows] at hrun
      exact ⟨s, .cons .closeParen hrun, hs⟩

/-- From any point, a type leads to the same types with parentheses and without them, if it is an
operand or no arrow follows. -/
theorem comes_parens_iff (hd : Signs ks d) (h : Operand ks d ∨ post.head? ≠ some .arrow) :
    Comes s (ks ++ post) t ↔ Comes s (.openParen :: (ks ++ [.closeParen]) ++ post) t := by
  obtain ⟨operand, ds, dss⟩ := s
  have hparens := (Operand.parens hd).run
  obtain ⟨t', ds', hrun, harrows⟩ := hd.run ds dss
  cases operand with
  | some t'' =>
    -- neither the type nor a parenthesis may stand here
    exact iff_of_false (not_comes_operand hrun nofun) (not_comes_operand (hparens ds dss) nofun)
  | none =>
    rw [(hparens ds dss).comes_iff]
    rcases h with hd | hpost
    · exact (hd.run ds dss).comes_iff
    · rw [hrun.comes_iff]
      exact ⟨fun h => h.congr harrows.symm hpost, fun h => h.congr harrows hpost⟩

end Signature

/-- Parentheses may stand around an operand, and around a type with no arrow behind it. -/
theorem signs_parens_iff (hd : Signs ks d) (h : Operand ks d ∨ post.head? ≠ some .arrow) :
    Signs (pre ++ (ks ++ post)) t ↔
      Signs (pre ++ .openParen :: (ks ++ .closeParen :: post)) t := by
  have happend : .openParen :: (ks ++ .closeParen :: post) =
      .openParen :: (ks ++ [.closeParen]) ++ post := by simp
  rw [happend, signs_iff_run 0, signs_iff_run 0]
  refine comes_append_iff.trans (.trans ?_ comes_append_iff.symm)
  simp only [comes_parens_iff hd h]

end Reader

namespace Ty

open Reader (Signs Operand)

variable {source source' : String} {ks : List Symbol} {t : Ty}

theorem parse_eq_ok_iff_signs (h : Lexeme.Lexes source.toList ks) :
    parse source = .ok t ↔ Signs ks t := by
  rw [parse_eq_ok_iff]
  refine ⟨fun ⟨ks', h', ht⟩ => ?_, fun ht => ⟨ks, h, ht⟩⟩
  rwa [h.unique h']

/-- The signatures that are read are those of the grammar, which gives a list of symbols one type at
most. The type is the same in every layout, and with parentheses around any operand, or around any
type with no arrow behind it. -/
theorem parse_grammar :
    (∀ source t, parse source = .ok t ↔
      ∃ ks, Lexeme.Lexes source.toList ks ∧ Signs ks t) ∧
    (∀ ks t t', Signs ks t → Signs ks t' → t = t') ∧
    (∀ source source' ks t, Lexeme.Lexes source.toList ks → Lexeme.Lexes source'.toList ks →
      (parse source = .ok t ↔ parse source' = .ok t)) ∧
    ∀ source source' pre ks post d t, Signs ks d →
      (Operand ks d ∨ post.head? ≠ some .arrow) →
      Lexeme.Lexes source.toList (pre ++ (ks ++ post)) →
      Lexeme.Lexes source'.toList (pre ++ .openParen :: (ks ++ .closeParen :: post)) →
      (parse source = .ok t ↔ parse source' = .ok t) := by
  refine ⟨fun source t => parse_eq_ok_iff, fun ks t t' => Signs.unique, ?_, ?_⟩
  · intro source source' ks t h h'
    rw [parse_eq_ok_iff_signs h, parse_eq_ok_iff_signs h']
  · intro source source' pre ks post d t hd hks h h'
    rw [parse_eq_ok_iff_signs h, parse_eq_ok_iff_signs h']
    exact Reader.signs_parens_iff hd hks

/-- One type in another layout, and with parentheses around its codomain. -/
theorem parse_grammar_codomain :
    let t : Ty := .arrow (.var 0) (.arrow .int (.var 0))
    parse "a -> Int -> a" = .ok t ∧ parse "\ta->Int->\r\na " = .ok t ∧
      parse "a->(Int->a)" = .ok t := by
  intro t
  have hplain : Lexeme.Lexes "a -> Int -> a".toList
      ([.name "a", .arrow] ++ ([.name "Int", .arrow, .name "a"] ++ [])) :=
    Lexeme.lexes_iff.mpr ⟨_, rfl, rfl⟩
  have hlayout : Lexeme.Lexes "\ta->Int->\r\na ".toList
      [.name "a", .arrow, .name "Int", .arrow, .name "a"] := Lexeme.lexes_iff.mpr ⟨_, rfl, rfl⟩
  have hparens : Lexeme.Lexes "a->(Int->a)".toList
      ([.name "a", .arrow] ++ .openParen :: ([.name "Int", .arrow, .name "a"] ++ [.closeParen])) :=
    Lexeme.lexes_iff.mpr ⟨_, rfl, rfl⟩
  have hvar : Operand [.name "a"] (.var 0) :=
    .name (.var ⟨nofun, List.forall_mem_singleton.mpr rfl, rfl⟩ (by decide))
  have hint : Operand [.name "Int"] .int := .name (.const (by decide))
  have hcodomain : Signs [.name "Int", .arrow, .name "a"] (.arrow .int (.var 0)) :=
    .arrow hint (.operand hvar)
  have h : parse "a -> Int -> a" = .ok t :=
    (parse_grammar.1 _ _).mpr ⟨_, hplain, .arrow hvar hcodomain⟩
  exact ⟨h, (parse_grammar.2.2.1 _ _ _ _ hplain hlayout).mp h,
    (parse_grammar.2.2.2 _ _ _ _ [] _ _ hcodomain (.inr nofun) hplain hparens).mp h⟩

end Ty

end Curried
