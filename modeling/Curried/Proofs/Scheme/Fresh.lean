import Curried.Proofs.Scheme.Shape
import Curried.Proofs.Ty.Opposite

/-!
What applications take from the supply. The variables of an instance are new, and binding makes up
no others, so those of an application were taken from the supply in its course (`apply_mints`,
`applyAll_mints`). Which ones they are does not matter: schemes of one shape have applications of
one shape (`apply_renaming`).
-/

namespace Curried

/-- All variables of the type were taken from the supply, of which `s'` is left. -/
def Supply.Mints (s s' : Supply) (t : Scheme) : Prop :=
  ∀ v ∈ t.ty.occurrences, s.next ≤ v ∧ v < s'.next

theorem Supply.Mints.of_le {s s₁ s' : Supply} {t : Scheme} (hs : s.next ≤ s₁.next)
    (h : s₁.Mints s' t) : s.Mints s' t :=
  fun v hv => ⟨Nat.le_trans hs (h v hv).1, (h v hv).2⟩

/-- Both applications were refused for the same reason. -/
inductive TypeError.SameRefusal : TypeError → TypeError → Prop where
  | notAFunction : SameRefusal (.notAFunction p) (.notAFunction q)
  | mismatch : BindError.SameKind e e' → SameRefusal (.mismatch e) (.mismatch e')

namespace Ty

variable {t u c : Ty} {v w : TyVar} {σ : Subst}

/-- Binding makes up no variables. -/
theorem mem_occurrences_apply_of_bind (h : t.bind u = .ok σ)
    (hw : w ∈ (σ.apply v).occurrences) : w = v ∨ w ∈ u.occurrences := by
  rw [Subst.apply] at hw
  cases hv : σ.get? v with
  | none =>
    rw [hv] at hw
    exact .inl (List.mem_singleton.mp hw)
  | some b =>
    rw [hv, Option.getD_some] at hw
    cases (get?_of_bind h).mp hv with
    | template hopp => exact .inr (hopp.mem_occurrences_right hw)
    | given => cases hw

theorem mem_occurrences_substitute (h : t.bind u = .ok σ)
    (hw : w ∈ (c.substitute σ).occurrences) : w ∈ c.occurrences ∨ w ∈ u.occurrences := by
  obtain ⟨v, hv, hw⟩ := mem_occurrences_subst.mp hw
  rcases mem_occurrences_apply_of_bind h hw with rfl | hw
  · exact .inl hv
  · exact .inr hw

end Ty

namespace Scheme

variable {f x r : Scheme} {ts : List Scheme} {s s' : Supply}

theorem le_instantiate (p : Scheme) (s : Supply) : s.next ≤ (p.instantiate s).2.next :=
  Nat.le_add_right ..

theorem instantiate_mints (p : Scheme) (s : Supply) :
    s.Mints (p.instantiate s).2 (p.instantiate s).1 := by
  intro v hv
  rw [instantiate_eq, Ty.occurrences_rename] at hv
  obtain ⟨w, hw, rfl⟩ := List.mem_map.mp hv
  exact ⟨le_freshVar .., freshVar_lt hw⟩

theorem le_apply {a : Except TypeError Scheme} (h : f.apply x s = (a, s')) :
    s.next ≤ s'.next := by
  obtain rfl : (x.instantiate (f.instantiate s).2).2 = s' := congrArg Prod.snd h
  exact Nat.le_trans (le_instantiate f s) (le_instantiate x _)

theorem le_applyAll {a : Except TypeError Scheme} (h : f.applyAll ts s = (a, s')) :
    s.next ≤ s'.next := by
  induction ts generalizing f s with
  | nil =>
    cases h
    exact Nat.le_refl _
  | cons x ts ih =>
    rw [applyAll] at h
    rcases hq : f.apply x s with ⟨_ | q, s₁⟩ <;> rw [hq] at h
    · cases h
      exact le_apply hq
    · exact Nat.le_trans (le_apply hq) (ih h)

/-- What is left open in the type of an application are variables of the two instances. -/
theorem apply_mints (h : f.apply x s = (.ok r, s')) : s.Mints s' r := by
  obtain ⟨d, c, σ, hf, hσ, rfl⟩ := apply_eq_ok.mp (congrArg Prod.fst h)
  obtain rfl : (x.instantiate (f.instantiate s).2).2 = s' := congrArg Prod.snd h
  intro v hv
  rcases Ty.mem_occurrences_substitute hσ hv with hv | hv
  · have hcodomain : v ∈ (f.instantiate s).1.ty.occurrences := by
      rw [instantiate_eq, hf, Ty.rename_arrow, Ty.occurrences_arrow]
      exact List.mem_append_right _ hv
    have hfun := instantiate_mints f s v hcodomain
    exact ⟨hfun.1, Nat.lt_of_lt_of_le hfun.2 (le_instantiate x _)⟩
  · have harg := instantiate_mints x (f.instantiate s).2 v hv
    exact ⟨Nat.le_trans (le_instantiate f s) harg.1, harg.2⟩

theorem applyAll_cons_eq_ok_supply : f.applyAll (x :: ts) s = (.ok r, s') ↔
    ∃ q s₁, f.apply x s = (.ok q, s₁) ∧ q.applyAll ts s₁ = (.ok r, s') := by
  rw [applyAll]
  rcases f.apply x s with ⟨_ | q, s₁⟩ <;> simp

/-- Whatever the function, its application to at least one argument has new variables only. -/
theorem applyAll_mints (h : f.applyAll (x :: ts) s = (.ok r, s')) : s.Mints s' r := by
  induction ts generalizing f x s with
  | nil =>
    obtain ⟨q, s₁, hq, h⟩ := applyAll_cons_eq_ok_supply.mp h
    cases h
    exact apply_mints hq
  | cons y ts ih =>
    obtain ⟨q, s₁, hq, h⟩ := applyAll_cons_eq_ok_supply.mp h
    exact (ih h).of_le (le_apply hq)

/-! ## Renamed schemes -/

variable {f' x' : Scheme}

theorem sameRefusal_of_apply {e e' : TypeError} (h : (f.apply x s).1 = .error e)
    (hkind : e.SameKind e') : e.SameRefusal e' := by
  simp only [apply, applyApart] at h
  split at h
  · split at h
    · cases h
    · cases h
      cases hkind with
      | mismatch hcause => exact .mismatch hcause
  · cases h
    cases hkind
    exact .notAFunction

/-- Schemes that are the same but for the numbers of their variables have applications that are the
same in this sense, whatever the supplies, or fail for the same reason. The variables of a result
were all taken from the supply in the course of the application. -/
theorem apply_renaming (hf : f.sameShape f') (hx : x.sameShape x') (s s' : Supply) :
    Agree (sameShape · ·) TypeError.SameRefusal (f.apply x s).1 (f'.apply x' s').1 ∧
    ∀ r, (f.apply x s).1 = .ok r → s.Mints (f.apply x s).2 r := by
  refine ⟨?_, fun r hr => apply_mints (Prod.ext hr rfl)⟩
  have hagree := apply_agree hf hx s s'
  have hrefusal : ∀ e e' : TypeError, (f.apply x s).1 = .error e → e.SameKind e' →
      e.SameRefusal e' := fun _ _ => sameRefusal_of_apply
  generalize (f.apply x s).1 = a at hagree hrefusal ⊢
  generalize (f'.apply x' s').1 = b at hagree ⊢
  cases hagree with
  | ok h => exact .ok h
  | error h => exact .error (hrefusal _ _ rfl h)

/-- The type of `const` and another one of its shape, with arguments and supplies that have
variables in common with them. -/
theorem apply_renaming_const :
    let f : Scheme := ⟨.arrow (.var 0) (.arrow (.var 1) (.var 0))⟩
    let f' : Scheme := ⟨.arrow (.var 7) (.arrow (.var 3) (.var 7))⟩
    let x : Scheme := ⟨.arrow (.var 0) (.var 5)⟩
    let x' : Scheme := ⟨.arrow (.var 3) (.var 0)⟩
    let r : Scheme := ⟨.arrow (.var 2) (.arrow (.var 3) (.var 4))⟩
    f.sameShape f' ∧ x.sameShape x' ∧ f.apply x ⟨1⟩ = (.ok r, ⟨5⟩) ∧
      Agree (sameShape · ·) TypeError.SameRefusal (f.apply x ⟨1⟩).1 (f'.apply x' ⟨0⟩).1 ∧
      Supply.Mints ⟨1⟩ ⟨5⟩ r := by
  intro f f' x x' r
  have hf : f.sameShape f' := by decide
  have hx : x.sameShape x' := by decide
  have happly : f.apply x ⟨1⟩ = (.ok r, ⟨5⟩) := by decide
  obtain ⟨hagree, hmints⟩ := apply_renaming hf hx ⟨1⟩ ⟨0⟩
  refine ⟨hf, hx, happly, hagree, ?_⟩
  have hr := hmints r (congrArg Prod.fst happly)
  rwa [happly] at hr

end Scheme

end Curried
