import Curried.Proofs.Scheme.Shape
import Curried.Proofs.Text.Span
import Curried.Proofs.Ty.Display

/-!
Schemes as text. A type is written without `.` and `:`, so the type in a written scheme can be told
from the variables in front of it, and two schemes are written alike if and only if they are the
same up to renaming of variables (`Scheme.display_eq_iff`).
-/

namespace Curried

variable {c : Char}

namespace Ty

variable {t : Ty}

/-- The characters that types are written with. -/
def isTextChar (c : Char) : Bool :=
  Lexeme.isNameChar c || [' ', '-', '>', '(', ')'].contains c

theorem isTextChar_of_isNameChar (h : Lexeme.isNameChar c) : isTextChar c := by
  rw [isTextChar, h, Bool.true_or]

theorem isTextChar_of_mem_letters {v : TyVar} (h : c ∈ v.letters.toList) : isTextChar c :=
  isTextChar_of_isNameChar (Lexeme.isNameChar_of_isAlpha
    (Lexeme.isAlpha_iff.mpr (.inr ((TyVar.spells_letters v).isLower c h))))

theorem Legal.isTextChar_writeAfter (ht : t.Legal) :
    ∀ c ∈ (t.writeAfter "").toList, isTextChar c := by
  induction ht with
  | var => simpa [writeAfter] using fun c => isTextChar_of_mem_letters
  | const hname =>
    simpa [writeAfter] using fun c hc => isTextChar_of_isNameChar (hname.isNameChar c hc)
  | arrow _ _ ihd ihc =>
    have harrow : ∀ c ∈ " -> ".toList, isTextChar c := List.all_eq_true.mp rfl
    have hopen : ∀ c ∈ "(".toList, isTextChar c := List.all_eq_true.mp rfl
    have hclose : ∀ c ∈ ")".toList, isTextChar c := List.all_eq_true.mp rfl
    rw [writeAfter_arrow]
    split
    · simp only [String.toList_append, List.forall_mem_append]
      exact ⟨⟨⟨⟨hopen, ihd⟩, hclose⟩, harrow⟩, ihc⟩
    · simp only [String.toList_append, List.forall_mem_append]
      exact ⟨⟨ihd, harrow⟩, ihc⟩

theorem Legal.isTextChar_display (ht : t.Legal) : ∀ c ∈ t.display.toList, isTextChar c :=
  ht.canonical.isTextChar_writeAfter

theorem Legal.dot_notMem_display (ht : t.Legal) : '.' ∉ t.display.toList :=
  fun h => Bool.false_ne_true (ht.isTextChar_display _ h)

end Ty

namespace Scheme

variable {p q : Scheme}

theorem display_of_vars_eq_nil (h : p.ty.vars = []) : p.display = p.ty.display := by
  simp [display, h]

/-- The bound variables stand in front of a dot, the first one of the text. -/
theorem exists_display_of_vars_ne_nil (h : p.ty.vars ≠ []) :
    ∃ binder, (∀ c ∈ binder, Ty.isTextChar c) ∧
      p.display.toList = binder ++ '.' :: ' ' :: p.ty.display.toList := by
  refine ⟨"forall".toList ++ ((List.range p.ty.vars.length).map fun v =>
    ' ' :: (TyVar.letters v).toList).flatten, ?_, ?_⟩
  · rw [List.forall_mem_append]
    refine ⟨List.all_eq_true.mp rfl, fun c hc => ?_⟩
    obtain ⟨_, hmem, hc⟩ := List.mem_flatten.mp hc
    obtain ⟨v, -, rfl⟩ := List.mem_map.mp hmem
    rcases List.mem_cons.mp hc with rfl | hc
    · rfl
    · exact Ty.isTextChar_of_mem_letters hc
  · simp [display, h, List.flatMap_def, List.map_map, Function.comp_def]

theorem colon_notMem_display (hp : p.ty.Legal) : ':' ∉ p.display.toList := by
  have hty : ':' ∉ p.ty.display.toList :=
    fun h => Bool.false_ne_true (hp.isTextChar_display _ h)
  by_cases h : p.ty.vars = []
  · rwa [display_of_vars_eq_nil h]
  · obtain ⟨binder, hbinder, hdisplay⟩ := exists_display_of_vars_ne_nil h
    have hmem : ':' ∉ binder := fun h => Bool.false_ne_true (hbinder _ h)
    rw [hdisplay]
    simp [hmem, hty]

theorem display_eq_of_sameShape (h : p.sameShape q) : p.display = q.display := by
  have hdisplay : p.ty.display = q.ty.display :=
    congrArg (Ty.writeAfter "") (beq_iff_eq.mp h)
  obtain ⟨E, hE, halike⟩ := sameShape_iff.mp h
  rw [display, display, hdisplay, (halike.vars hE).length_eq]

/-- The dot tells whether there are variables. -/
theorem dot_notMem_display_iff (hp : p.ty.Legal) : '.' ∉ p.display.toList ↔ p.ty.vars = [] := by
  by_cases h : p.ty.vars = []
  · rw [display_of_vars_eq_nil h]
    exact iff_of_true hp.dot_notMem_display h
  · obtain ⟨binder, -, hdisplay⟩ := exists_display_of_vars_ne_nil h
    rw [hdisplay]
    exact iff_of_false (fun hdot => hdot (List.mem_append_right _ List.mem_cons_self)) h

theorem ty_display_eq_of_display_eq (hp : p.ty.Legal) (hq : q.ty.Legal)
    (h : p.display = q.display) : p.ty.display = q.ty.display := by
  have hdot : p.ty.vars = [] ↔ q.ty.vars = [] := by
    rw [← dot_notMem_display_iff hp, h, dot_notMem_display_iff hq]
  by_cases hvars : p.ty.vars = []
  · rw [← display_of_vars_eq_nil hvars, h, display_of_vars_eq_nil (hdot.mp hvars)]
  · obtain ⟨binder, -, hdisplay⟩ := exists_display_of_vars_ne_nil hvars
    obtain ⟨binder', -, hdisplay'⟩ := exists_display_of_vars_ne_nil (mt hdot.mpr hvars)
    rw [h, hdisplay'] at hdisplay
    have hbehind {t : Ty} (ht : t.Legal) : '.' ∉ ' ' :: t.display.toList := by
      simpa using ht.dot_notMem_display
    obtain ⟨-, hty⟩ := (append_mark_inj (hbehind hq) (hbehind hp)).mp hdisplay
    exact (String.toList_inj.mp (List.cons.inj hty).2).symm

/-- Two schemes are written alike if and only if they are the same up to renaming of variables. -/
theorem display_eq_iff (hp : p.ty.Legal) (hq : q.ty.Legal) :
    p.display = q.display ↔ p.sameShape q := by
  refine ⟨fun h => ?_, display_eq_of_sameShape⟩
  have hparse := Ty.parse_display_of_legal hp
  rw [ty_display_eq_of_display_eq hp hq h, Ty.parse_display_of_legal hq] at hparse
  exact beq_iff_eq.mpr (Except.ok.inj hparse).symm

end Scheme

end Curried
