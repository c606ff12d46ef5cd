import Curried.Ty.Bind
import Curried.Proofs.Except
import Curried.Proofs.Ty.Subst

/-!
What stands opposite what in two types, and what that says about `Ty.bind`: the bindings are exactly
the variables of the template, each to the part opposite it, and the variables of the given type
that stand opposite a constant (`get?_of_bindInto`); and types that bind become equal wherever the
bindings are respected (`subst_eq_of_bindInto`).
-/

namespace Curried.Ty

/-- `Opposite t u a b`: the part `a` of `t` stands where `u` has the part `b`. -/
inductive Opposite : Ty → Ty → Ty → Ty → Prop where
  | whole : Opposite t u t u
  | domain : Opposite d d' a b → Opposite (arrow d c) (arrow d' c') a b
  | codomain : Opposite c c' a b → Opposite (arrow d c) (arrow d' c') a b

/-- What binding `t` to `u` binds: each variable of `t` to the part opposite it, and each variable
of `u` opposite a constant to that constant. -/
inductive Pins (t u : Ty) (v : TyVar) : Ty → Prop where
  | template : Opposite t u (var v) b → Pins t u v b
  | given : Opposite t u (const name) (var v) → Pins t u v (const name)

variable {t u a b d c d' c' : Ty} {v w : TyVar} {θ γ : TyVar → Ty}

namespace Opposite

theorem arrow_iff : Opposite (arrow d c) (arrow d' c') a b ↔
    (a = arrow d c ∧ b = arrow d' c') ∨ Opposite d d' a b ∨ Opposite c c' a b := by
  constructor
  · intro h
    cases h with
    | whole => exact .inl ⟨rfl, rfl⟩
    | domain h => exact .inr (.inl h)
    | codomain h => exact .inr (.inr h)
  · intro h
    obtain ⟨rfl, rfl⟩ | h | h := h
    · exact .whole
    · exact .domain h
    · exact .codomain h

theorem var_iff : Opposite (var v) u a b ↔ a = var v ∧ b = u := by
  constructor
  · intro h
    cases h
    exact ⟨rfl, rfl⟩
  · intro h
    obtain ⟨rfl, rfl⟩ := h
    exact .whole

theorem const_iff {name : String} : Opposite (const name) u a b ↔ a = const name ∧ b = u := by
  constructor
  · intro h
    cases h
    exact ⟨rfl, rfl⟩
  · intro h
    obtain ⟨rfl, rfl⟩ := h
    exact .whole

/-- Types that are equal after substitution have equal parts opposite each other. -/
theorem subst_eq (h : Opposite t u a b) (heq : t.subst θ = u.subst γ) :
    a.subst θ = b.subst γ := by
  induction h with
  | whole => exact heq
  | domain _ ih => exact ih (arrow.inj heq).1
  | codomain _ ih => exact ih (arrow.inj heq).2

theorem mem_occurrences_left (h : Opposite t u a b) (hv : v ∈ a.occurrences) :
    v ∈ t.occurrences := by
  induction h with
  | whole => exact hv
  | domain _ ih => exact occurrences_arrow .. ▸ List.mem_append_left _ (ih hv)
  | codomain _ ih => exact occurrences_arrow .. ▸ List.mem_append_right _ (ih hv)

theorem mem_occurrences_right (h : Opposite t u a b) (hv : v ∈ b.occurrences) :
    v ∈ u.occurrences := by
  induction h with
  | whole => exact hv
  | domain _ ih => exact occurrences_arrow .. ▸ List.mem_append_left _ (ih hv)
  | codomain _ ih => exact occurrences_arrow .. ▸ List.mem_append_right _ (ih hv)

theorem rename (ρ ρ' : TyVar → TyVar) (h : Opposite t u a b) :
    Opposite (t.rename ρ) (u.rename ρ') (a.rename ρ) (b.rename ρ') := by
  induction h with
  | whole => exact .whole
  | domain _ ih => exact .domain ih
  | codomain _ ih => exact .codomain ih

theorem of_rename {ρ ρ' : TyVar → TyVar} (h : Opposite (t.rename ρ) (u.rename ρ') a b) :
    ∃ a₀ b₀, Opposite t u a₀ b₀ ∧ a₀.rename ρ = a ∧ b₀.rename ρ' = b := by
  generalize ht : t.rename ρ = t', hu : u.rename ρ' = u' at h
  induction h generalizing t u with
  | whole => exact ⟨t, u, .whole, ht, hu⟩
  | domain _ ih =>
    obtain ⟨d, c, rfl, hd, -⟩ := rename_eq_arrow.mp ht
    obtain ⟨d', c', rfl, hd', -⟩ := rename_eq_arrow.mp hu
    obtain ⟨a₀, b₀, h, ha, hb⟩ := ih hd hd'
    exact ⟨a₀, b₀, .domain h, ha, hb⟩
  | codomain _ ih =>
    obtain ⟨d, c, rfl, -, hc⟩ := rename_eq_arrow.mp ht
    obtain ⟨d', c', rfl, -, hc'⟩ := rename_eq_arrow.mp hu
    obtain ⟨a₀, b₀, h, ha, hb⟩ := ih hc hc'
    exact ⟨a₀, b₀, .codomain h, ha, hb⟩

end Opposite

namespace Pins

theorem arrow_iff : Pins (arrow d c) (arrow d' c') v b ↔ Pins d d' v b ∨ Pins c c' v b := by
  constructor
  · rintro (h | h) <;> rcases Opposite.arrow_iff.mp h with ⟨h, -⟩ | h | h
    · cases h
    · exact .inl (.template h)
    · exact .inr (.template h)
    · cases h
    · exact .inl (.given h)
    · exact .inr (.given h)
  · intro h
    obtain (h | h) | (h | h) := h
    · exact .template (.domain h)
    · exact .given (.domain h)
    · exact .template (.codomain h)
    · exact .given (.codomain h)

theorem var_iff : Pins (var w) u v b ↔ v = w ∧ b = u := by
  constructor
  · rintro (h | h)
    · obtain ⟨h, rfl⟩ := Opposite.var_iff.mp h
      cases h
      exact ⟨rfl, rfl⟩
    · cases (Opposite.var_iff.mp h).1
  · rintro ⟨rfl, rfl⟩
    exact .template .whole

theorem const_iff {name : String} : Pins (const name) u v b ↔ u = var v ∧ b = const name := by
  constructor
  · rintro (h | h)
    · cases (Opposite.const_iff.mp h).1
    · obtain ⟨h, rfl⟩ := Opposite.const_iff.mp h
      cases h
      exact ⟨rfl, rfl⟩
  · rintro ⟨rfl, rfl⟩
    exact .given .whole

end Pins

end Curried.Ty

namespace Curried.Subst

variable {v w : TyVar} {t b : Ty} {σ τ : Subst}

theorem bindNew_eq_ok : σ.bindNew v t = .ok τ ↔ σ.get? v = none ∧ τ = σ.insert v t := by
  unfold bindNew
  split
  · rename_i bound hv
    simp [hv]
  · rename_i hv
    simp [hv, eq_comm]

theorem get?_of_bindNew (h : σ.bindNew v t = .ok τ) :
    τ.get? w = some b ↔ σ.get? w = some b ∨ (w = v ∧ b = t) := by
  obtain ⟨hv, rfl⟩ := bindNew_eq_ok.mp h
  rw [get?_insert]
  split
  · subst w
    simp [hv, eq_comm]
  · simp [*]

end Curried.Subst

namespace Curried.Ty

variable {t u d c b : Ty} {v : TyVar} {σ τ : Subst} {θ γ : TyVar → Ty}

/-! ## What a run does -/

theorem bindInto_const_eq_ok {name : String} : bindInto σ (const name) u = .ok τ ↔
    (u = const name ∧ τ = σ) ∨ ∃ v, u = var v ∧ σ.bindNew v (const name) = .ok τ := by
  cases u with
  | var w => simp [bindInto]
  | const found =>
    by_cases h : name = found
    · simp [bindInto, h, eq_comm]
    · simp [bindInto, h, Ne.symm h]
  | arrow d' c' => simp [bindInto]

theorem bindInto_arrow (σ : Subst) (d c d' c' : Ty) :
    bindInto σ (arrow d c) (arrow d' c') = bindInto σ d d' >>= (bindInto · c c') := by
  rw [bindInto]
  cases bindInto σ d d' <;> rfl

theorem bindInto_arrow_eq_ok : bindInto σ (arrow d c) u = .ok τ ↔
    ∃ d' c' ρ, u = arrow d' c' ∧ bindInto σ d d' = .ok ρ ∧ bindInto ρ c c' = .ok τ := by
  cases u with
  | arrow d' c' =>
    rw [bindInto_arrow, bind_eq_ok]
    constructor
    · intro ⟨ρ, hd, hc⟩
      exact ⟨d', c', ρ, rfl, hd, hc⟩
    · rintro ⟨_, _, ρ, ⟨rfl, rfl⟩, hd, hc⟩
      exact ⟨ρ, hd, hc⟩
  | _ => simp [bindInto]

/-- The bindings of a run are those it started with and those that the two types call for. -/
theorem get?_of_bindInto (h : bindInto σ t u = .ok τ) :
    τ.get? v = some b ↔ σ.get? v = some b ∨ Pins t u v b := by
  induction t generalizing u σ τ with
  | var w => rw [Subst.get?_of_bindNew h, Pins.var_iff]
  | const name =>
    rw [Pins.const_iff]
    obtain ⟨rfl, rfl⟩ | ⟨w, rfl, h⟩ := bindInto_const_eq_ok.mp h
    · simp
    · rw [Subst.get?_of_bindNew h, var.injEq, eq_comm (a := w)]
  | arrow d c ihd ihc =>
    obtain ⟨d', c', ρ, rfl, hd, hc⟩ := bindInto_arrow_eq_ok.mp h
    rw [ihc hc, ihd hd, Pins.arrow_iff, or_assoc]

theorem get?_of_bind (h : t.bind u = .ok τ) : τ.get? v = some b ↔ Pins t u v b := by
  rw [get?_of_bindInto h, Subst.get?_empty]
  simp

theorem apply_of_bind (h : t.bind u = .ok τ) (hb : Pins t u v b) : τ.apply v = b := by
  rw [Subst.apply, (get?_of_bind h).mpr hb, Option.getD_some]

/-- Types that bind are equal under all substitutions that respect the bindings. -/
theorem subst_eq_of_bindInto (h : bindInto σ t u = .ok τ)
    (hθ : ∀ v b, Opposite t u (var v) b → θ v = b.subst γ)
    (hγ : ∀ name v, Opposite t u (const name) (var v) → γ v = const name) :
    t.subst θ = u.subst γ := by
  induction t generalizing u σ τ with
  | var w => exact hθ w u .whole
  | const name =>
    obtain ⟨rfl, -⟩ | ⟨w, rfl, -⟩ := bindInto_const_eq_ok.mp h
    · rfl
    · exact (hγ name w .whole).symm
  | arrow d c ihd ihc =>
    obtain ⟨d', c', ρ, rfl, hd, hc⟩ := bindInto_arrow_eq_ok.mp h
    have hdomain := ihd hd (fun v b h => hθ v b (.domain h)) fun n v h => hγ n v (.domain h)
    have hcodomain := ihc hc (fun v b h => hθ v b (.codomain h)) fun n v h => hγ n v (.codomain h)
    rw [subst, subst, hdomain, hcodomain]

/-- Where types bind, every variable of the template stands opposite something. -/
theorem exists_opposite_of_bindInto (h : bindInto σ t u = .ok τ) (hv : v ∈ t.occurrences) :
    ∃ b, Opposite t u (var v) b := by
  induction t generalizing u σ τ with
  | var w =>
    obtain rfl := List.mem_singleton.mp hv
    exact ⟨u, .whole⟩
  | const name => cases hv
  | arrow d c ihd ihc =>
    obtain ⟨d', c', ρ, rfl, hd, hc⟩ := bindInto_arrow_eq_ok.mp h
    rw [occurrences_arrow, List.mem_append] at hv
    rcases hv with hv | hv
    · obtain ⟨b, hb⟩ := ihd hd hv
      exact ⟨b, .domain hb⟩
    · obtain ⟨b, hb⟩ := ihc hc hv
      exact ⟨b, .codomain hb⟩

end Curried.Ty
