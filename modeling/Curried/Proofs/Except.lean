/-!
Computations that may fail: when one after the other succeeds or fails, and what it is for two of
them to come to corresponding ends.
-/

namespace Curried

@[simp] theorem ok_bind {ε α β : Type} (a : α) (f : α → Except ε β) : (.ok a >>= f) = f a := rfl

@[simp] theorem error_bind {ε α β : Type} (e : ε) (f : α → Except ε β) :
    (.error e >>= f) = .error e := rfl

theorem bind_eq_ok {ε α β : Type} {x : Except ε α} {f : α → Except ε β} {b : β} :
    (x >>= f) = .ok b ↔ ∃ a, x = .ok a ∧ f a = .ok b := by
  cases x <;> simp

theorem bind_eq_error {ε α β : Type} {x : Except ε α} {f : α → Except ε β} {e : ε} :
    (x >>= f) = .error e ↔ x = .error e ∨ ∃ a, x = .ok a ∧ f a = .error e := by
  cases x <;> simp

theorem mapError_eq_ok {ε ζ α : Type} {g : ε → ζ} {x : Except ε α} {a : α} :
    x.mapError g = .ok a ↔ x = .ok a := by
  cases x with
  | ok => exact ⟨fun h => congrArg _ (Except.ok.inj h), fun h => congrArg _ (Except.ok.inj h)⟩
  | error => constructor <;> intro h <;> cases h

theorem mapError_eq_error {ε ζ α : Type} {g : ε → ζ} {x : Except ε α} {e : ζ} :
    x.mapError g = .error e ↔ ∃ err, x = .error err ∧ g err = e := by
  cases x with
  | ok =>
    constructor
    · intro h
      cases h
    · rintro ⟨err, h, -⟩
      cases h
  | error err =>
    constructor
    · exact fun h => ⟨err, rfl, Except.error.inj h⟩
    · rintro ⟨err', h, rfl⟩
      cases h
      rfl

/-- Both computations have results, related by `R`, or both have errors, related by `Q`. -/
inductive Agree (R : α → β → Prop) (Q : ε → ζ → Prop) : Except ε α → Except ζ β → Prop where
  | ok : R a b → Agree R Q (.ok a) (.ok b)
  | error : Q e f → Agree R Q (.error e) (.error f)

theorem Agree.exists_ok {R : α → β → Prop} {Q : ε → ζ → Prop} {a : α} {y : Except ζ β}
    (h : Agree R Q (.ok a) y) : ∃ b, y = .ok b ∧ R a b := by
  cases h with
  | ok h => exact ⟨_, rfl, h⟩

theorem Agree.of_ok {R : α → β → Prop} {Q : ε → ζ → Prop} {a : α} {b : β}
    (h : Agree R Q (.ok a) (.ok b)) : R a b := by
  cases h with
  | ok h => exact h

theorem Agree.mapError {R : α → β → Prop} {Q : ε → ζ → Prop} {Q' : ε' → ζ' → Prop}
    {a : Except ε α} {b : Except ζ β} {g : ε → ε'} {g' : ζ → ζ'} (h : Agree R Q a b)
    (hQ : ∀ e f, Q e f → Q' (g e) (g' f)) : Agree R Q' (a.mapError g) (b.mapError g') := by
  cases h with
  | ok h => exact .ok h
  | error h => exact .error (hQ _ _ h)

end Curried
