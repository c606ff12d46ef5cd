import Curried.Proofs.Scheme.Instantiate
import Curried.Proofs.Ty.Bind

/-!
Parameters along an application to several arguments. A constant parameter takes a constant or a
variable only (`applyAll_param`), and an argument of constant type leaves a function of one
parameter less (`applyAll_arity`), since nothing else than constants is put into the rest.
-/

namespace Curried

namespace Ty

variable {t u d c : Ty} {σ : TyVar → Ty} {i : Nat} {name : String}

theorem getElem?_params_subst (h : t.params[i]? = some u) :
    (t.subst σ).params[i]? = some (u.subst σ) := by
  induction t generalizing i with
  | arrow d c _ ih =>
    cases i with
    | zero =>
      cases h
      rfl
    | succ i => exact ih h
  | _ => cases h

theorem arity_subst (h : ∀ v, (σ v).arity = 0) (t : Ty) : (t.subst σ).arity = t.arity := by
  induction t with
  | var v => exact h v
  | const name => rfl
  | arrow d c _ ih => rw [subst, arity, ih, arity]

theorem arity_rename (ρ : TyVar → TyVar) (t : Ty) : (t.rename ρ).arity = t.arity :=
  arity_subst (fun _ => rfl) t

/-- What a type binds when it is bound to a constant is that constant. -/
theorem arity_apply_of_bind_const {τ : Subst} (h : t.bind (const name) = .ok τ) (v : TyVar) :
    (τ.apply v).arity = 0 := by
  rw [Subst.apply]
  cases hv : τ.get? v with
  | none => rfl
  | some b =>
    rcases (get?_of_bind h).mp hv with hv | hv
    · cases hv
      rfl
    · rfl

end Ty

namespace Scheme

variable {f x r : Scheme} {ts : List Scheme} {s : Supply}

theorem applyAll_cons_eq_ok : (f.applyAll (x :: ts) s).1 = .ok r ↔
    ∃ q s', f.apply x s = (.ok q, s') ∧ (q.applyAll ts s').1 = .ok r := by
  rw [applyAll]
  rcases f.apply x s with ⟨_ | q, s⟩ <;> simp

/-- The type of an application is an instance of the codomain. -/
theorem apply_subst (h : (f.apply x s).1 = .ok r) :
    ∃ d c θ, f.ty = .arrow d c ∧ r.ty = c.subst θ := by
  obtain ⟨d, c, σ, hf, -, rfl⟩ := apply_eq_ok.mp h
  exact ⟨d, c, _, hf, Ty.subst_subst c⟩

/-- Applied to a constant, the function is taken at an instance with that constant as domain. -/
theorem apply_const_subst {name : String} (h : (f.apply ⟨.const name⟩ s).1 = .ok r) :
    ∃ d c θ, f.ty = .arrow d c ∧ d.subst θ = .const name ∧ r.ty = c.subst θ := by
  obtain ⟨d, c, σ, hf, hσ, rfl⟩ := apply_eq_ok.mp h
  refine ⟨d, c, _, hf, ?_, Ty.subst_subst c⟩
  have hground : (Ty.const name).IsGround := rfl
  exact (Ty.subst_subst d).symm.trans (hground.substitute_of_bind hσ)

theorem apply_arity {name : String} (h : (f.apply ⟨.const name⟩ s).1 = .ok r) :
    f.arity = r.arity + 1 := by
  obtain ⟨d, c, σ, hf, hσ, rfl⟩ := apply_eq_ok.mp h
  rw [arity, hf, Ty.arity, arity, Ty.substitute,
    Ty.arity_subst (Ty.arity_apply_of_bind_const hσ), Ty.arity_rename]

/-- Arguments of constant type fill one parameter each. -/
theorem applyAll_arity (hts : ∀ t ∈ ts, ∃ name, t = ⟨.const name⟩)
    (h : (f.applyAll ts s).1 = .ok r) : f.arity = r.arity + ts.length := by
  induction ts generalizing f s with
  | nil =>
    cases h
    rfl
  | cons x ts ih =>
    obtain ⟨name, rfl⟩ := hts x (List.mem_cons_self ..)
    obtain ⟨q, s', hq, h⟩ := applyAll_cons_eq_ok.mp h
    have hq := apply_arity (congrArg Prod.fst hq)
    rw [hq, ih (fun t ht => hts t (List.mem_cons_of_mem _ ht)) h, List.length_cons, Nat.add_assoc]

theorem apply_param {name : String} (hf : f.ty.params[0]? = some (.const name))
    (h : (f.apply x s).1 = .ok r) : x.ty = .const name ∨ ∃ v, x.ty = .var v := by
  obtain ⟨d, c, σ, hty, hσ, rfl⟩ := apply_eq_ok.mp h
  rw [hty] at hf
  cases hf
  cases hx : x.ty with
  | var v => exact .inr ⟨v, rfl⟩
  | const found =>
    rw [hx, Ty.rename_const, Ty.rename_const, Ty.bind, Ty.bindInto] at hσ
    split at hσ
    · rename_i heq
      exact .inl (congrArg _ heq.symm)
    · cases hσ
  | arrow => simp [hx, Ty.bind, Ty.bindInto] at hσ

/-- A constant parameter takes nothing but that constant and variables. -/
theorem applyAll_param {name : String} {i : Nat} (hf : f.ty.params[i]? = some (.const name))
    (hx : ts[i]? = some x) (h : (f.applyAll ts s).1 = .ok r) :
    x.ty = .const name ∨ ∃ v, x.ty = .var v := by
  induction ts generalizing f s i with
  | nil => cases hx
  | cons t ts ih =>
    obtain ⟨q, s', hq, h⟩ := applyAll_cons_eq_ok.mp h
    have hq := congrArg Prod.fst hq
    cases i with
    | zero =>
      cases hx
      exact apply_param hf hq
    | succ i =>
      obtain ⟨d, c, σ, hty, hσ, rfl⟩ := apply_eq_ok.mp hq
      have hc : c.params[i]? = some (.const name) := by rwa [hty] at hf
      exact ih (Ty.getElem?_params_subst (Ty.getElem?_params_subst hc)) hx h

end Scheme

end Curried
