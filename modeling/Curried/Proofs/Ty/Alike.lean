import Mathlib.Data.List.Forall2
import Mathlib.Data.Set.Function
import Curried.Ty.Bind
import Curried.Proofs.Except
import Curried.Proofs.Ty.Subst

/-!
Types that differ in the numbers of their variables only. `Ty.Alike E t u` lets the variables
correspond by a relation `E`; where `E` is one to one this is equality up to renaming, which the
canonical numbering decides (`canonical_eq_iff`). Binding does not see the numbers: alike types bind
alike or fail in the same way (`bindInto_alike`).
-/

namespace Curried

open Relator

namespace Ty

/-- The types are equal but for their variables, which correspond by `E`. -/
inductive Alike (E : TyVar → TyVar → Prop) : Ty → Ty → Prop where
  | var : E v w → Alike E (var v) (var w)
  | const : Alike E (const name) (const name)
  | arrow : Alike E d d' → Alike E c c' → Alike E (arrow d c) (arrow d' c')

variable {E F : TyVar → TyVar → Prop} {t t' u u' : Ty} {ρ : TyVar → TyVar}

namespace Alike

theorem mono (h : Alike E t u)
    (hE : ∀ v ∈ t.occurrences, ∀ w ∈ u.occurrences, E v w → F v w) : Alike F t u := by
  induction h with
  | var h => exact .var (hE _ (by simp) _ (by simp) h)
  | const => exact .const
  | arrow _ _ ihd ihc =>
    simp only [occurrences_arrow, List.mem_append] at hE
    exact .arrow (ihd fun v hv w hw => hE v (.inl hv) w (.inl hw))
      (ihc fun v hv w hw => hE v (.inr hv) w (.inr hw))

/-- Only correspondences between occurring variables matter. -/
theorem restrict (h : Alike E t u) :
    Alike (fun v w => E v w ∧ v ∈ t.occurrences ∧ w ∈ u.occurrences) t u :=
  h.mono fun _ hv _ hw hvw => ⟨hvw, hv, hw⟩

theorem subst {σ τ : TyVar → Ty} (h : Alike E t u) (hσ : ∀ v w, E v w → Alike F (σ v) (τ w)) :
    Alike F (t.subst σ) (u.subst τ) := by
  induction h with
  | var h => exact hσ _ _ h
  | const => exact .const
  | arrow _ _ ihd ihc => exact .arrow ihd ihc

theorem rename {ρ ρ' : TyVar → TyVar} (h : Alike E t u) (hE : ∀ v w, E v w → F (ρ v) (ρ' w)) :
    Alike F (t.rename ρ) (u.rename ρ') :=
  h.subst fun v w hvw => .var (hE v w hvw)

theorem occurrences (h : Alike E t u) : List.Forall₂ E t.occurrences u.occurrences := by
  induction h with
  | var h => exact .cons h .nil
  | const => exact .nil
  | arrow _ _ ihd ihc =>
    rw [occurrences_arrow, occurrences_arrow]
    exact List.rel_append ihd ihc

theorem eq (h : Alike Eq t u) : t = u := by
  induction h with
  | var h => rw [h]
  | const => rfl
  | arrow _ _ ihd ihc => rw [ihd, ihc]

end Alike

theorem alike_of_rename_eq {ρ ρ' : TyVar → TyVar} (h : t.rename ρ = u.rename ρ') :
    Alike (fun v w => ρ v = ρ' w) t u := by
  induction t generalizing u with
  | var v =>
    obtain ⟨w, rfl, hw⟩ := rename_eq_var.mp h.symm
    exact .var hw.symm
  | const name =>
    obtain rfl := rename_eq_const.mp h.symm
    exact .const
  | arrow d c ihd ihc =>
    obtain ⟨d', c', rfl, hd, hc⟩ := rename_eq_arrow.mp h.symm
    exact .arrow (ihd hd.symm) (ihc hc.symm)

private theorem nodup_eraseDups : ∀ l : List TyVar, l.eraseDups.Nodup
  | [] => by simp
  | v :: l => by
    rw [List.eraseDups_cons, List.nodup_cons]
    exact ⟨by simp, nodup_eraseDups _⟩
termination_by l => l.length
decreasing_by exact Nat.lt_succ_of_le (List.length_filter_le ..)

theorem nodup_vars (t : Ty) : t.vars.Nodup := nodup_eraseDups _

private theorem forall₂_eraseDups (hE : BiUnique E) :
    ∀ {l l' : List TyVar}, List.Forall₂ E l l' → List.Forall₂ E l.eraseDups l'.eraseDups
  | [], _, .nil => .nil
  | v :: l, w :: l', .cons hvw h => by
    rw [List.eraseDups_cons, List.eraseDups_cons]
    refine .cons hvw (forall₂_eraseDups hE (List.rel_filter (fun a b hab => ?_) h))
    simp [rel_eq hE hab hvw]
termination_by l => l.length
decreasing_by exact Nat.lt_succ_of_le (List.length_filter_le ..)

private theorem idxOf_eq_idxOf (hE : BiUnique E) {l l' : List TyVar} (h : List.Forall₂ E l l')
    {v w : TyVar} (hvw : E v w) : l.idxOf v = l'.idxOf w := by
  induction h with
  | nil => rfl
  | cons h _ ih => simp only [List.idxOf_cons, ih, beq_eq_decide, rel_eq hE h hvw]

theorem Alike.vars (hE : BiUnique E) (h : Alike E t u) : List.Forall₂ E t.vars u.vars :=
  forall₂_eraseDups hE h.occurrences

/-- The canonical numbering forgets exactly the numbers of the variables. -/
theorem canonical_eq_iff :
    t.canonical = u.canonical ↔ ∃ E, BiUnique E ∧ Alike E t u := by
  constructor
  · intro h
    have hunique {l : List TyVar} {v w : TyVar} (hv : v ∈ l) (h : l.idxOf v = l.idxOf w) : v = w :=
      (List.idxOf_inj hv).mp h
    refine ⟨_, ⟨?_, ?_⟩, (alike_of_rename_eq h).restrict⟩
    · intro v v' w ⟨h, hv, _⟩ ⟨h', _, _⟩
      exact hunique (mem_vars.mpr hv) (h.trans h'.symm)
    · intro v w w' ⟨h, _, hw⟩ ⟨h', _, _⟩
      exact hunique (mem_vars.mpr hw) (h.symm.trans h')
  · intro ⟨E, hE, h⟩
    exact (h.rename fun v w hvw => idxOf_eq_idxOf hE (h.vars hE) hvw).eq

theorem alike_rename (ρ : TyVar → TyVar) (t : Ty) : Alike (fun v w => ρ v = w) t (t.rename ρ) := by
  induction t with
  | var v => exact .var rfl
  | const name => exact .const
  | arrow _ _ ihd ihc => exact .arrow ihd ihc

/-- A renaming that keeps the variables of a type apart is one to one on them. -/
theorem biUnique_of_injOn (hρ : Set.InjOn ρ {v | v ∈ t.occurrences}) :
    BiUnique fun v w => ρ v = w ∧ v ∈ t.occurrences ∧ w ∈ (t.rename ρ).occurrences := by
  constructor
  · intro v v' w ⟨h, hv, _⟩ ⟨h', hv', _⟩
    exact hρ hv hv' (h.trans h'.symm)
  · intro v w w' ⟨h, _⟩ ⟨h', _⟩
    exact h.symm.trans h'

theorem canonical_rename (hρ : Set.InjOn ρ {v | v ∈ t.occurrences}) :
    (t.rename ρ).canonical = t.canonical :=
  (canonical_eq_iff.mpr ⟨_, biUnique_of_injOn hρ, (alike_rename ρ t).restrict⟩).symm

theorem injOn_idxOf (t : Ty) : Set.InjOn t.vars.idxOf {v | v ∈ t.occurrences} :=
  fun _ hv _ _ => (List.idxOf_inj (mem_vars.mpr hv)).mp

theorem canonical_canonical (t : Ty) : t.canonical.canonical = t.canonical :=
  canonical_rename t.injOn_idxOf

end Ty

/-! ## Binding -/

/-- Corresponding variables have alike bindings, or none. -/
def Subst.Alike (E : TyVar → TyVar → Prop) (σ τ : Subst) : Prop :=
  ∀ v w, E v w → Option.Rel (Ty.Alike E) (σ.get? v) (τ.get? w)

inductive BindError.SameKind : BindError → BindError → Prop where
  | constMismatch : SameKind (.constMismatch t u) (.constMismatch t' u')
  | arrowMismatch : SameKind (.arrowMismatch t u) (.arrowMismatch t' u')
  | alreadyBound : SameKind (.alreadyBound v t u) (.alreadyBound w t' u')

variable {E : TyVar → TyVar → Prop} {σ τ : Subst} {v w : TyVar} {t t' u u' : Ty}

theorem Subst.alike_empty : Subst.Alike E .empty .empty := fun _ _ _ => .none

theorem Subst.Alike.apply (h : Subst.Alike E σ τ) (hvw : E v w) :
    Ty.Alike E (σ.apply v) (τ.apply w) := by
  have hget := h v w hvw
  unfold Subst.apply
  generalize σ.get? v = a at hget
  generalize τ.get? w = b at hget
  cases hget with
  | none => exact .var hvw
  | some h => exact h

theorem Subst.Alike.bindNew (hE : BiUnique E) (h : Subst.Alike E σ τ) (hvw : E v w)
    (ht : Ty.Alike E t u) :
    Agree (Subst.Alike E) BindError.SameKind (σ.bindNew v t) (τ.bindNew w u) := by
  have hget := h v w hvw
  unfold Subst.bindNew
  generalize σ.get? v = a at hget
  generalize τ.get? w = b at hget
  cases hget with
  | none =>
    refine .ok fun v' w' hvw' => ?_
    rw [Subst.get?_insert, Subst.get?_insert]
    by_cases hv : v' = v
    · rw [if_pos hv, if_pos ((rel_eq hE hvw' hvw).mp hv)]
      exact .some ht
    · rw [if_neg hv, if_neg fun hw => hv ((rel_eq hE hvw' hvw).mpr hw)]
      exact h v' w' hvw'
  | some _ => exact .error .alreadyBound

/-- Alike types bind alike, or fail with errors of one kind. -/
theorem Ty.bindInto_alike (hE : BiUnique E) (ht : Ty.Alike E t t') (hu : Ty.Alike E u u')
    (hσ : Subst.Alike E σ τ) :
    Agree (Subst.Alike E) BindError.SameKind (bindInto σ t u) (bindInto τ t' u') := by
  induction ht generalizing σ τ u u' with
  | var h => exact hσ.bindNew hE h hu
  | const =>
    cases hu with
    | var h => exact hσ.bindNew hE h .const
    | const =>
      simp only [bindInto]
      split
      · exact .ok hσ
      · exact .error .constMismatch
    | arrow => exact .error .constMismatch
  | arrow _ _ ihd ihc =>
    cases hu with
    | var h => exact .error .arrowMismatch
    | const => exact .error .arrowMismatch
    | arrow hd hc =>
      simp only [bindInto]
      have hdomain := ihd hd hσ
      generalize bindInto σ _ _ = a at hdomain
      generalize bindInto τ _ _ = b at hdomain
      cases hdomain with
      | ok h => exact ihc hc h
      | error h => exact .error h

end Curried
