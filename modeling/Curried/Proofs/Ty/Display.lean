import Mathlib.Data.List.Perm.Subperm
import Curried.Proofs.Reader.Signature
import Curried.Proofs.Ty.Alike

/-!
Types as text. What a type is written as consists of its own symbols, which derive it, so reading it
gives the type with its canonical numbering; and what any source is read as can be written in this
way (`parse_display`).
-/

namespace Curried

namespace Lexeme

/-- The text is a name whose first letter is an uppercase one. -/
inductive IsTypeName : List Char → Prop where
  | intro : c.isUpper → (∀ d ∈ word, isNameChar d) → IsTypeName (c :: word)

variable {c : Char} {word : List Char}

theorem isUpper_iff : c.isUpper ↔ 'A' ≤ c ∧ c ≤ 'Z' := decide_eq_true_iff

theorem isAlpha_iff : c.isAlpha ↔ c.isUpper ∨ c.isLower := by
  show (c.isUpper || c.isLower) = true ↔ _
  rw [Bool.or_eq_true]

theorem not_isLower_of_isUpper (hc : c.isUpper) : ¬c.isLower := by
  rw [TyVar.isLower_iff]
  exact fun hlower => absurd (Char.le_trans hlower.1 (isUpper_iff.mp hc).2) (by decide)

theorem isTypeName_iff : IsTypeName word ↔ IsName word ∧ ¬word.head?.any Char.isLower := by
  constructor
  · intro h
    cases h with
    | intro hc hword =>
      exact ⟨.intro (isAlpha_iff.mpr (.inl hc)) hword, not_isLower_of_isUpper hc⟩
  · rintro ⟨h, hlower⟩
    cases h with
    | intro hc hword => exact .intro ((isAlpha_iff.mp hc).resolve_right hlower) hword

theorem IsTypeName.isNameChar (h : IsTypeName word) : ∀ c ∈ word, isNameChar c := by
  cases h with
  | intro hc hword =>
    exact List.forall_mem_cons.mpr ⟨isNameChar_of_isAlpha (isAlpha_iff.mpr (.inl hc)), hword⟩

theorem isName_of_spells {v : TyVar} (h : TyVar.Spells word v) : IsName word := by
  cases word with
  | nil => exact absurd rfl h.ne_nil
  | cons c word =>
    have hletter : ∀ d ∈ c :: word, d.isAlpha := fun d hd => isAlpha_iff.mpr (.inr (h.isLower d hd))
    obtain ⟨hc, hword⟩ := List.forall_mem_cons.mp hletter
    exact .intro hc fun d hd => isNameChar_of_isAlpha (hword d hd)

end Lexeme

open Lexeme (Symbol Lexes)
open Reader (Signs Operand)

namespace Ty

/-- The type can be written: the numbers of its variables are below the limit, and its constants
have the names of types. -/
inductive Legal : Ty → Prop where
  | var : v < TyVar.limit → Legal (var v)
  | const : Lexeme.IsTypeName name.toList → Legal (const name)
  | arrow : Legal d → Legal c → Legal (arrow d c)

/-- The symbols that the type is written with. -/
def symbols : Ty → List Symbol
  | var v => [.name v.letters]
  | const name => [.name name]
  | arrow domain codomain =>
    (if domain.isArrow then .openParen :: (domain.symbols ++ [.closeParen]) else domain.symbols) ++
      .arrow :: codomain.symbols

variable {t : Ty} {ks : List Symbol} {rest : List Char} {ρ : TyVar → TyVar}

/-! ## What a type is written as -/

theorem operand_of_signs (ht : Signs ks t) :
    Operand (if t.isArrow then .openParen :: (ks ++ [.closeParen]) else ks) t := by
  split
  · exact .parens ht
  · next hatom =>
    cases ht with
    | operand ht => exact ht
    | arrow => exact absurd rfl hatom

theorem signs_symbols (ht : t.Legal) : Signs t.symbols t := by
  induction ht with
  | var hv => exact .operand (.name (.var (TyVar.spells_letters _) hv))
  | const hname => exact .operand (.name (.const (Lexeme.isTypeName_iff.mp hname).2))
  | arrow _ _ ihd ihc => exact .arrow (operand_of_signs ihd) ihc

theorem lexes_writeAfter (ht : t.Legal) (hrest : ∀ c ∈ rest.head?, ¬Lexeme.isNameChar c)
    (h : Lexes rest ks) : Lexes ((t.writeAfter "").toList ++ rest) (t.symbols ++ ks) := by
  induction ht generalizing rest ks with
  | @var v hv =>
    have hname := Lexeme.isName_of_spells (TyVar.spells_letters v)
    simpa [writeAfter, symbols] using Lexeme.lexes_name hname hrest h
  | const hname =>
    simpa [writeAfter, symbols] using
      Lexeme.lexes_name (Lexeme.isTypeName_iff.mp hname).1 hrest h
  | @arrow d c _ _ ihd ihc =>
    rw [writeAfter_arrow, symbols]
    have hparen : ¬Lexeme.isNameChar ')' := by decide
    have hspace : ¬Lexeme.isNameChar ' ' := by decide
    have harrow := Lexes.blank (c := ' ') rfl (.arrow (.blank (c := ' ') rfl (ihc hrest h)))
    split
    · have hdomain := ihd (by simpa using hparen) (.closeParen harrow)
      simpa using Lexes.openParen hdomain
    · simpa using ihd (by simpa using hspace) harrow

/-- Written with its own numbers, a type is read as it is. -/
theorem parse_writeAfter (ht : t.Legal) : Ty.parse (t.writeAfter "") = .ok t := by
  refine parse_eq_ok_iff.mpr ⟨t.symbols, ?_, signs_symbols ht⟩
  simpa using lexes_writeAfter ht (by simp) .nil

/-! ## The canonical numbering -/

theorem Legal.vars_lt (ht : t.Legal) : ∀ v ∈ t.occurrences, v < TyVar.limit := by
  induction ht with
  | var hv => simpa using hv
  | const => exact nofun
  | arrow _ _ ihd ihc =>
    rw [occurrences_arrow, List.forall_mem_append]
    exact ⟨ihd, ihc⟩

theorem Legal.rename (ht : t.Legal) (hρ : ∀ v ∈ t.occurrences, ρ v < TyVar.limit) :
    (t.rename ρ).Legal := by
  induction ht with
  | var => exact .var (hρ _ (by simp))
  | const hname => exact .const hname
  | arrow _ _ ihd ihc =>
    rw [occurrences_arrow, List.forall_mem_append] at hρ
    exact .arrow (ihd hρ.1) (ihc hρ.2)

/-- There are no more variables than numbers for them, so their new numbers are below the limit. -/
theorem Legal.canonical (ht : t.Legal) : t.canonical.Legal := by
  refine ht.rename fun v hv => ?_
  have hsub : t.vars ⊆ List.range TyVar.limit := fun w hw =>
    List.mem_range.mpr (ht.vars_lt w (mem_vars.mp hw))
  have hle := (List.subperm_of_subset t.nodup_vars hsub).length_le
  rw [List.length_range] at hle
  exact Nat.lt_of_lt_of_le (List.idxOf_lt_length_of_mem (mem_vars.mpr hv)) hle

theorem parse_display_of_legal (ht : t.Legal) : Ty.parse t.display = .ok t.canonical :=
  parse_writeAfter ht.canonical

/-! ## What is read -/

mutual

theorem legal_of_operand {ks : List Symbol} {t : Ty} (h : Operand ks t)
    (hnames : ∀ name, .name name ∈ ks → Lexeme.IsName name.toList) : t.Legal := by
  match h with
  | .name (.var _ hlt) => exact .var hlt
  | .name (.const hupper) =>
    exact .const (Lexeme.isTypeName_iff.mpr ⟨hnames _ List.mem_cons_self, hupper⟩)
  | .parens ht =>
    exact legal_of_signs ht fun name hname =>
      hnames name (List.mem_cons_of_mem _ (List.mem_append_left _ hname))

theorem legal_of_signs {ks : List Symbol} {t : Ty} (h : Signs ks t)
    (hnames : ∀ name, .name name ∈ ks → Lexeme.IsName name.toList) : t.Legal := by
  match h with
  | .operand ht => exact legal_of_operand ht hnames
  | .arrow hd hc =>
    refine .arrow (legal_of_operand hd fun name hname => ?_)
      (legal_of_signs hc fun name hname => ?_)
    · exact hnames name (List.mem_append_left _ hname)
    · exact hnames name (List.mem_append_right _ (List.mem_cons_of_mem _ hname))

end

theorem legal_of_parse {source : String} (h : Ty.parse source = .ok t) : t.Legal := by
  obtain ⟨ks, hlexes, hks⟩ := parse_eq_ok_iff.mp h
  exact legal_of_signs hks fun name => Lexeme.isName_of_lexes hlexes

/-- What a type is written as is read as the type with its canonical numbering. Conversely, what any
source is read as can be written and read again, and only the numbers of its variables change. -/
theorem parse_display :
    (∀ t : Ty, t.Legal → Ty.parse t.display = .ok (Scheme.mk t).canonical.ty) ∧
    (∀ source t, Ty.parse source = .ok t →
      t.Legal ∧ ∃ u, Ty.parse t.display = .ok u ∧ (Scheme.mk u).sameShape ⟨t⟩) := by
  refine ⟨fun t => parse_display_of_legal, fun source t h => ?_⟩
  have hlegal := legal_of_parse h
  exact ⟨hlegal, t.canonical, parse_display_of_legal hlegal, beq_iff_eq.mpr t.canonical_canonical⟩

/-- The variables of a signature are numbered from `a` on, whatever their numbers were. -/
theorem parse_display_call :
    (arrow (arrow (var 41) bool) (arrow (var 7) (var 41))).display = "(a -> Bool) -> b -> a" ∧
    Ty.parse "(a -> Bool) -> b -> a" =
      .ok (arrow (arrow (var 0) bool) (arrow (var 1) (var 0))) := by
  have hname : Lexeme.IsTypeName ['B', 'o', 'o', 'l'] :=
    .intro (by decide) (by simp [Lexeme.isNameChar])
  have hlegal : (arrow (arrow (var 41) bool) (arrow (var 7) (var 41))).Legal :=
    .arrow (.arrow (.var (by decide)) (.const hname))
      (.arrow (.var (by decide)) (.var (by decide)))
  have hdisplay : (arrow (arrow (var 41) bool) (arrow (var 7) (var 41))).display =
      "(a -> Bool) -> b -> a" := by decide +kernel
  refine ⟨hdisplay, ?_⟩
  rw [← hdisplay]
  exact parse_display.1 _ hlegal

end Ty

end Curried
