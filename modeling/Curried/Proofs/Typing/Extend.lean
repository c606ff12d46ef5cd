import Curried.Proofs.Typing.Infer

/-!
More candidates. Signatures extend others when every name keeps its candidates in their order and
has any new ones behind them. An expression that has a type keeps it, down to the numbers of its
variables (`infer_of_extend`): the candidate that is chosen is found before a new one is tried.
-/

namespace Curried

/-- Every name has its candidates in `Γ` also in `Γ'`, in front of all others. -/
def Signatures.Extend (Γ Γ' : Signatures) : Prop := ∀ name, Γ name <+: Γ' name

namespace Typing

variable {Γ Γ' : Signatures} {e : Expr} {name : String} {args : List Expr} {s s' : Supply}
  {ts : List Scheme} {r : Resolution}

theorem firstAccepting_append {fs : List Scheme} {k : Nat} (gs : List Scheme)
    (h : firstAccepting ts k fs s = (.ok r, s')) :
    firstAccepting ts k (fs ++ gs) s = (.ok r, s') := by
  induction fs generalizing k s with
  | nil => cases h
  | cons f fs ih =>
    rw [List.cons_append]
    rw [firstAccepting] at h ⊢
    rcases hf : f.applyAll ts s with ⟨err | t, s₁⟩ <;> rw [hf] at h <;> dsimp only at h ⊢
    · rcases hrest : firstAccepting ts (k + 1) fs s₁ with ⟨errs | r₁, s₂⟩ <;> rw [hrest] at h
      · cases h
      · cases h
        rw [ih hrest]
    · exact h

theorem choose_of_extend (hΓ : Γ.Extend Γ') (h : choose name (Γ name) ts s = (.ok r, s')) :
    choose name (Γ' name) ts s = (.ok r, s') := by
  obtain ⟨gs, hgs⟩ := hΓ name
  rw [choose] at h ⊢
  rcases hfirst : firstAccepting ts 0 (Γ name) s with ⟨errs | r₁, s₁⟩ <;> rw [hfirst] at h
  · cases h
  · rw [← hgs, firstAccepting_append gs hfirst]
    exact h

/-- Where `e` has a type over `Γ`, it has the same over `Γ'` and leaves the same supply. -/
def Keeps (Γ Γ' : Signatures) (e : Expr) : Prop :=
  ∀ s t s', infer Γ e s = (.ok t, s') → infer Γ' e s = (.ok t, s')

theorem inferArgs_of_keeps (hargs : ∀ a ∈ args, Keeps Γ Γ' a)
    (h : inferArgs Γ args s = (.ok ts, s')) : inferArgs Γ' args s = (.ok ts, s') := by
  induction args generalizing s ts s' with
  | nil => exact h
  | cons a args ih =>
    obtain ⟨ha, hargs⟩ := List.forall_mem_cons.mp hargs
    simp only [inferArgs, andThen_eq_ok_supply] at h ⊢
    obtain ⟨t, s₁, ht, ts₁, s₂, hts, h⟩ := h
    exact ⟨t, s₁, ha _ _ _ ht, ts₁, s₂, ih hargs hts, h⟩

theorem resolve_of_keeps (hΓ : Γ.Extend Γ') (hargs : ∀ a ∈ args, Keeps Γ Γ' a)
    (h : resolve Γ name args s = (.ok r, s')) : resolve Γ' name args s = (.ok r, s') := by
  by_cases hnone : Γ name = []
  · rw [resolve_unknown hnone] at h
    cases h
  have hsome : Γ' name ≠ [] := fun hnil => hnone (List.prefix_nil.mp (hnil ▸ hΓ name))
  rw [resolve_known hnone, andThen_eq_ok_supply] at h
  obtain ⟨ts, s₁, hts, hr⟩ := h
  rw [resolve_known hsome, andThen_eq_ok_supply]
  exact ⟨ts, s₁, inferArgs_of_keeps hargs hts, choose_of_extend hΓ hr⟩

/-- New candidates behind the old ones do not change the type of an expression that has one. -/
theorem infer_of_extend (hΓ : Γ.Extend Γ') (e : Expr) : Keeps Γ Γ' e := by
  induction e using Expr.formInduction with
  | value e v hf =>
    intro s t s' h
    rwa [infer_value hf] at h ⊢
  | call e name args hf ih =>
    intro s t s' h
    rw [infer_call hf, andThen_eq_ok_supply] at h ⊢
    obtain ⟨r, s₁, hr, h⟩ := h
    exact ⟨r, s₁, resolve_of_keeps hΓ ih hr, h⟩
  | misapplied e head args hf ih =>
    intro s t s' h
    rw [infer_misapplied hf, andThen_eq_ok_supply] at h ⊢
    obtain ⟨ts, s₁, hts, h⟩ := h
    exact ⟨ts, s₁, inferArgs_of_keeps ih hts, h⟩

end Typing

end Curried
