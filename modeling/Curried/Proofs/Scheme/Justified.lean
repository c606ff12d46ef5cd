import Curried.Proofs.Scheme.Instantiate
import Curried.Proofs.Ty.Opposite

/-!
Which results of an application are sound. A ground type is justified for a function and an argument
when instances of their types meet in it. Binding fixes a variable of the argument that stands
opposite a constant, but the result is substituted once, so a copy of the argument's type in the
result keeps that variable open. Apart from such forgotten variables every ground instance of the
result is justified, and with one some instance is not (`Scheme.apply_justified_iff`).
-/

namespace Curried

namespace Ty

variable {f x d c : Ty} {σ : Subst} {w : TyVar}

/-- Some ground instance of `f` takes a ground instance of `x` to `g`. -/
def Justified (f x g : Ty) : Prop := ∃ a, f.GroundInstance (arrow a g) ∧ x.GroundInstance a

/-- A variable `w` of the argument stands opposite a constant of the parameter, and also inside the
type `u` that a variable of the result stands for. -/
def Forgets : (f x : Ty) → Prop
  | arrow d c, x => ∃ name w v u, Opposite d x (const name) (var w) ∧ Opposite d x (var v) u ∧
      w ∈ u.occurrences ∧ v ∈ c.occurrences
  | _, _ => False

/-- Renaming apart does not make an application forget. -/
theorem Forgets.of_rename {ρ ρ' : TyVar → TyVar}
    (hρ : ∀ v ∈ f.occurrences, ∀ w, ρ v = ρ w → v = w)
    (hρ' : ∀ v ∈ x.occurrences, ∀ w, ρ' v = ρ' w → v = w)
    (h : Forgets (f.rename ρ) (x.rename ρ')) : Forgets f x := by
  cases f with
  | arrow d c =>
    rw [rename_arrow] at h
    obtain ⟨name, w, v, u, hw, hv, hwu, hvc⟩ := h
    obtain ⟨a, b, hw₀, ha, hb⟩ := hw.of_rename
    obtain rfl := rename_eq_const.mp ha
    obtain ⟨w, rfl, rfl⟩ := rename_eq_var.mp hb
    obtain ⟨a, u, hv₀, ha, rfl⟩ := hv.of_rename
    obtain ⟨v, rfl, rfl⟩ := rename_eq_var.mp ha
    rw [occurrences_rename] at hwu hvc
    obtain ⟨w', hwu₀, hw'⟩ := List.mem_map.mp hwu
    obtain ⟨v', hvc₀, hv'⟩ := List.mem_map.mp hvc
    obtain rfl := hρ' w' (hv₀.mem_occurrences_right hwu₀) w hw'
    obtain rfl := hρ v' (by simp [hvc₀]) v hv'
    exact ⟨name, w', v', u, hw₀, hv₀, hwu₀, hvc₀⟩
  | _ => exact h

/-- When function and argument share no variable, a bound variable of the result is forgotten. -/
theorem forgets_of_get? (hσ : d.bind x = .ok σ)
    (hdisj : ∀ v ∈ (arrow d c).occurrences, v ∉ x.occurrences)
    (hw : w ∈ (c.substitute σ).occurrences) {b : Ty} (hb : σ.get? w = some b) :
    Forgets (arrow d c) x := by
  obtain ⟨v, hvc, hwv⟩ := mem_occurrences_subst.mp hw
  cases hv : σ.get? v with
  | none =>
    rw [Subst.apply, hv, Option.getD_none, occurrences_var, List.mem_singleton] at hwv
    rw [← hwv, hb] at hv
    cases hv
  | some u =>
    rw [Subst.apply, hv, Option.getD_some] at hwv
    rcases (get?_of_bind hσ).mp hv with hv | hv
    · have hwx := hv.mem_occurrences_right hwv
      rcases (get?_of_bind hσ).mp hb with hw | hw
      · refine absurd hwx (hdisj w ?_)
        exact occurrences_arrow .. ▸ List.mem_append_left _ (hw.mem_occurrences_left (by simp))
      · exact ⟨_, w, v, u, hw, hv, hwv, hvc⟩
    · cases hwv

/-- If no variable of the result is bound, an instance of the result is justified: bound variables
stand for instances of their bindings. -/
theorem justified_of_free (hσ : d.bind x = .ok σ)
    (hfree : ∀ w ∈ (c.substitute σ).occurrences, σ.get? w = none) {g : Ty}
    (hg : (c.substitute σ).GroundInstance g) : Justified (arrow d c) x g := by
  obtain ⟨γ, hγ, rfl⟩ := hg.exists_ground
  let δ := fun v => (σ.apply v).subst γ
  let θ := fun v => (σ.apply v).subst δ
  have hδ (v : TyVar) : (δ v).IsGround := isGround_subst fun _ _ => hγ _
  have hmeet : d.subst θ = x.subst δ := by
    refine subst_eq_of_bindInto hσ (fun v b hv => ?_) fun name v hv => ?_
    · rw [← apply_of_bind hσ (.template hv)]
    · simp only [δ, apply_of_bind hσ (.given hv), subst]
  have hres : c.subst θ = (c.substitute σ).subst γ := by
    rw [← subst_subst, ← substitute]
    refine subst_congr fun w hw => ?_
    simp only [δ, Subst.apply, hfree w hw, Option.getD_none, subst]
  refine ⟨x.subst δ, ⟨?_, θ, ?_⟩, isGround_subst fun _ _ => hδ _, δ, rfl⟩
  · rw [← hmeet, ← hres]
    exact isGround_subst (t := arrow d c) fun _ _ => isGround_subst fun _ _ => hδ _
  · rw [subst, hmeet, hres]

end Ty

namespace Scheme

open Ty

variable {f x r : Scheme} {s : Supply}

/-- With a forgotten variable, the instance that chooses another constant for it has no
justification. -/
theorem exists_not_justified (hf : Forgets f.ty x.ty) (h : (f.apply x s).1 = .ok r) :
    ∃ g, r.ty.GroundInstance g ∧ ¬ Justified f.ty x.ty g := by
  obtain ⟨d, c, σ, hty, hσ, rfl⟩ := apply_eq_ok.mp h
  rw [hty] at hf ⊢
  obtain ⟨name, w, v, u, hw, hv, hwu, hvc⟩ := hf
  obtain ⟨other, hother⟩ : ∃ other, const other ≠ const name := ⟨name ++ "?", by simp⟩
  have hground : (const other).IsGround := occurrences_const other
  refine ⟨_, ⟨isGround_subst fun _ _ => hground, fun _ => const other, rfl⟩, ?_⟩
  intro hjustified
  obtain ⟨a, ⟨-, θ, hθ⟩, -, δ, rfl⟩ := hjustified
  obtain ⟨hd, hc⟩ := arrow.inj hθ
  have hδw : δ w = const name := (hw.subst_eq hd).symm
  have hσv : σ.apply (f.freshVar s v) = u.rename (x.freshVar (f.instantiate s).2) :=
    apply_of_bind hσ (.template (hv.rename _ _))
  have hu : u.subst δ = u.subst fun _ => const other := by
    rw [substitute, rename_subst, subst_subst] at hc
    have hθv := subst_congr_iff.mp hc v hvc
    rwa [hσv, rename_subst, ← show u.subst δ = θ v from (hv.subst_eq hd).symm] at hθv
  exact hother ((subst_congr_iff.mp hu w hwu).symm.trans hδw)

/-- Without forgotten variables every ground instance of the result is justified. -/
theorem justified_of_not_forgets (hf : ¬ Forgets f.ty x.ty) (h : (f.apply x s).1 = .ok r) {g : Ty}
    (hg : r.ty.GroundInstance g) : Justified f.ty x.ty g := by
  obtain ⟨d, c, σ, hty, hσ, rfl⟩ := apply_eq_ok.mp h
  have hdisj : ∀ v ∈ (f.ty.rename (f.freshVar s)).occurrences,
      v ∉ (x.ty.rename (x.freshVar (f.instantiate s).2)).occurrences := by
    simp only [occurrences_rename, List.mem_map]
    rintro _ ⟨v, hv, rfl⟩ ⟨w, -, hw⟩
    exact freshVar_ne_freshVar hv w hw.symm
  have hapart : ¬ Forgets (f.ty.rename (f.freshVar s))
      (x.ty.rename (x.freshVar (f.instantiate s).2)) := fun h => hf <| h.of_rename
    (fun v hv w => (freshVar_inj hv).mp) fun v hv w => (freshVar_inj hv).mp
  rw [hty, rename_arrow] at hdisj hapart
  obtain ⟨a, ha, hxa⟩ := justified_of_free hσ (fun w hw =>
    Option.eq_none_iff_forall_ne_some.mpr fun b hb => hapart (forgets_of_get? hσ hdisj hw hb)) hg
  rw [hty]
  exact ⟨a, GroundInstance.of_rename (ρ := f.freshVar s) ha, hxa.of_rename⟩

/-- The result of an application is sound exactly when the application forgets nothing. -/
theorem apply_justified_iff (h : (f.apply x s).1 = .ok r) :
    (∀ g, r.ty.GroundInstance g → Justified f.ty x.ty g) ↔ ¬ Forgets f.ty x.ty := by
  constructor
  · intro hj hf
    obtain ⟨g, hg, hg'⟩ := exists_not_justified hf h
    exact hg' (hj g hg)
  · intro hf g hg
    exact justified_of_not_forgets hf h hg

/-- Nothing stands opposite a constant of `a -> b -> a`, so it forgets nothing of `c -> c`. -/
theorem apply_const_justified :
    (apply ⟨arrow (var 0) (arrow (var 1) (var 0))⟩ ⟨arrow (var 0) (var 0)⟩ ⟨0⟩).1 =
      .ok ⟨arrow (var 1) (arrow (var 2) (var 2))⟩ ∧
    ∀ g, (arrow (var 1) (arrow (var 2) (var 2))).GroundInstance g →
      Justified (arrow (var 0) (arrow (var 1) (var 0))) (arrow (var 0) (var 0)) g := by
  refine ⟨rfl, (apply_justified_iff (s := ⟨0⟩) rfl).mpr ?_⟩
  intro ⟨name, w, v, u, hw, _⟩
  cases (Opposite.var_iff.mp hw).1

/-- `(a -> Int) -> a` forgets that the variable of `b -> b` became `Int`: the result is open, but
the only instance of the argument's type that fits is `Int -> Int`. -/
theorem apply_identity_not_justified :
    (apply ⟨arrow (arrow (var 0) .int) (var 0)⟩ ⟨arrow (var 0) (var 0)⟩ ⟨0⟩).1 = .ok ⟨var 1⟩ ∧
    (var 1).GroundInstance .bool ∧
    ¬ Justified (arrow (arrow (var 0) .int) (var 0)) (arrow (var 0) (var 0)) .bool := by
  refine ⟨rfl, ⟨rfl, fun _ => .bool, rfl⟩, ?_⟩
  intro ⟨a, ⟨_, θ, hθ⟩, _, δ, ha⟩
  obtain ⟨hd, hc⟩ := arrow.inj hθ
  obtain ⟨hθ₀, hδ⟩ := arrow.inj (hd.trans ha.symm)
  have hbool : Ty.bool = Ty.int := hc.symm.trans (hθ₀.trans hδ.symm)
  exact absurd hbool (by decide)

end Scheme

end Curried
