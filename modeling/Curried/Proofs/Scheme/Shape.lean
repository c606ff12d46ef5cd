import Curried.Proofs.Scheme.Instantiate
import Curried.Proofs.Ty.Alike
import Curried.Scheme.Apply

/-!
Application does not see the numbers of variables: schemes of one shape have applications of one
shape, or fail with errors of one kind, whatever the supplies (`apply_agree`, `applyAll_agree`).
-/

namespace Curried

open Relator

inductive TypeError.SameKind : TypeError → TypeError → Prop where
  | unknownFunction : SameKind (.unknownFunction name) (.unknownFunction name)
  | notAFunction : SameKind (.notAFunction p) (.notAFunction q)
  | mismatch : BindError.SameKind e e' → SameKind (.mismatch e) (.mismatch e')
  | noMatchingOverload : SameKind e e' →
    SameKind (.noMatchingOverload name e) (.noMatchingOverload name e')

namespace Scheme

variable {p q r f f' x x' : Scheme} {s s' : Supply} {E F : TyVar → TyVar → Prop}

theorem sameShape_iff : p.sameShape q ↔ ∃ E, BiUnique E ∧ Ty.Alike E p.ty q.ty :=
  beq_iff_eq.trans Ty.canonical_eq_iff

theorem sameShape_refl (p : Scheme) : p.sameShape p := beq_self_eq_true _

theorem eq_const_of_sameShape {name : String} (h : p.sameShape ⟨.const name⟩) :
    p = ⟨.const name⟩ := by
  obtain ⟨E, -, h⟩ := sameShape_iff.mp h
  obtain ⟨t⟩ := p
  cases h
  rfl

/-- How the fresh variables of two instances correspond when the variables of the schemes
correspond by `E`. -/
def FreshPair (E : TyVar → TyVar → Prop) (p q : Scheme) (s s' : Supply) (a b : TyVar) : Prop :=
  ∃ v w, (E v w ∧ v ∈ p.ty.occurrences ∧ w ∈ q.ty.occurrences) ∧
    p.freshVar s v = a ∧ q.freshVar s' w = b

theorem biUnique_freshPair (hE : BiUnique E) : BiUnique (FreshPair E p q s s') := by
  constructor
  · intro _ _ _ ⟨v, w, ⟨hvw, hv, hw⟩, hva, hwb⟩ ⟨v', w', ⟨hvw', _, _⟩, hva', hwb'⟩
    obtain rfl := (freshVar_inj hw).mp (hwb.trans hwb'.symm)
    rw [← hva, ← hva', hE.1 hvw hvw']
  · intro _ _ _ ⟨v, w, ⟨hvw, hv, hw⟩, hva, hwb⟩ ⟨v', w', ⟨hvw', _, _⟩, hva', hwb'⟩
    obtain rfl := (freshVar_inj hv).mp (hva.trans hva'.symm)
    rw [← hwb, ← hwb', hE.2 hvw hvw']

/-- One to one relations that have no variable in common on either side are so together. -/
theorem biUnique_or (hE : BiUnique E) (hF : BiUnique F) (hleft : ∀ a b b', E a b → ¬ F a b')
    (hright : ∀ a a' b, E a b → ¬ F a' b) : BiUnique fun a b => E a b ∨ F a b := by
  constructor
  · intro a a' b h h'
    rcases h with h | h <;> rcases h' with h' | h'
    · exact hE.1 h h'
    · exact absurd h' (hright _ _ _ h)
    · exact absurd h (hright _ _ _ h')
    · exact hF.1 h h'
  · intro a b b' h h'
    rcases h with h | h <;> rcases h' with h' | h'
    · exact hE.2 h h'
    · exact absurd h' (hleft _ _ _ h)
    · exact absurd h (hleft _ _ _ h')
    · exact hF.2 h h'

theorem alike_instantiate (h : Ty.Alike E p.ty q.ty)
    (hF : ∀ a b, FreshPair E p q s s' a b → F a b) :
    Ty.Alike F (p.instantiate s).1.ty (q.instantiate s').1.ty :=
  h.restrict.rename fun v w hvw => hF _ _ ⟨v, w, hvw, rfl, rfl⟩

/-- The fresh variables of function and argument stay apart, so together they correspond one to
one. -/
theorem biUnique_freshPair_or {E' : TyVar → TyVar → Prop} (hE : BiUnique E) (hE' : BiUnique E') :
    BiUnique fun a b => FreshPair E f f' s s' a b ∨
      FreshPair E' x x' (f.instantiate s).2 (f'.instantiate s').2 a b := by
  refine biUnique_or (biUnique_freshPair hE) (biUnique_freshPair hE') ?_ ?_
  · intro a b b' ⟨v, w, ⟨_, hv, _⟩, hva, _⟩ ⟨v', w', _, hva', _⟩
    exact freshVar_ne_freshVar hv v' (hva.trans hva'.symm)
  · intro a a' b ⟨v, w, ⟨_, _, hw⟩, _, hwb⟩ ⟨v', w', _, _, hwb'⟩
    exact freshVar_ne_freshVar hw w' (hwb.trans hwb'.symm)

theorem applyApart_agree (hE : BiUnique E) (hf : Ty.Alike E f.ty f'.ty)
    (hx : Ty.Alike E x.ty x'.ty) :
    Agree (sameShape · ·) TypeError.SameKind (f.applyApart x) (f'.applyApart x') := by
  unfold applyApart
  cases hty : f.ty with
  | arrow d c =>
    rw [hty] at hf
    generalize f'.ty = t' at hf
    cases hf with
    | arrow hd hc =>
      have hbind := Ty.bindInto_alike hE hd hx Subst.alike_empty
      simp only [Ty.bind]
      generalize Ty.bindInto .empty d x.ty = a at hbind
      generalize Ty.bindInto .empty _ x'.ty = b at hbind
      cases hbind with
      | ok hσ =>
        exact .ok (sameShape_iff.mpr ⟨E, hE, hc.subst fun v w hvw => hσ.apply hvw⟩)
      | error h => exact .error (.mismatch h)
  | _ =>
    rw [hty] at hf
    generalize f'.ty = t' at hf
    cases hf
    exact .error .notAFunction

/-- The type of an application depends on the shapes of the two types only. -/
theorem apply_agree (hf : f.sameShape f') (hx : x.sameShape x') (s s' : Supply) :
    Agree (sameShape · ·) TypeError.SameKind (f.apply x s).1 (f'.apply x' s').1 := by
  obtain ⟨E, hE, hf⟩ := sameShape_iff.mp hf
  obtain ⟨E', hE', hx⟩ := sameShape_iff.mp hx
  exact applyApart_agree (biUnique_freshPair_or hE hE') (alike_instantiate hf fun _ _ => .inl)
    (alike_instantiate hx fun _ _ => .inr)

theorem applyAll_agree {xs xs' : List Scheme} (hf : f.sameShape f')
    (hxs : List.Forall₂ (sameShape · ·) xs xs') (s s' : Supply) :
    Agree (sameShape · ·) TypeError.SameKind (f.applyAll xs s).1 (f'.applyAll xs' s').1 := by
  induction hxs generalizing f f' s s' with
  | nil => exact .ok hf
  | cons hx _ ih =>
    have h := apply_agree hf hx s s'
    simp only [applyAll]
    generalize f.apply _ s = a at h
    generalize f'.apply _ s' = b at h
    obtain ⟨a, s⟩ := a
    obtain ⟨b, s'⟩ := b
    cases h with
    | ok h => exact ih h s s'
    | error h => exact .error h

/-- Applications of the same schemes from two supplies have one shape, or fail alike. -/
theorem applyAll_agree_supply (f : Scheme) (xs : List Scheme) (s s' : Supply) :
    Agree (sameShape · ·) TypeError.SameKind (f.applyAll xs s).1 (f.applyAll xs s').1 :=
  applyAll_agree f.sameShape_refl (List.forall₂_same.mpr fun x _ => x.sameShape_refl) s s'

/-- A constant type is the same from every supply. -/
theorem applyAll_const {xs : List Scheme} {name : String}
    (h : (f.applyAll xs s).1 = .ok ⟨.const name⟩) (hr : (f.applyAll xs s').1 = .ok r) :
    r = ⟨.const name⟩ := by
  have hagree := applyAll_agree_supply f xs s' s
  rw [h, hr] at hagree
  cases hagree with
  | ok hshape => exact eq_const_of_sameShape hshape

end Scheme

end Curried
