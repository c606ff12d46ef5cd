import Curried.Proofs.Scheme.Fresh

/-!
Renaming of variables. A renaming that keeps the variables of a type apart leaves them in their
order, and the canonical numbering and the instantiation of a scheme are such renamings onto an
interval of numbers, whatever the numbers were before. So two schemes have one shape if and only if
such a renaming leads from one to the other (`Scheme.sameShape_iff_rename`), and an instance is the
scheme with variables that no other instance has (`Scheme.instantiate_renames`).
-/

namespace Curried

namespace Subst

variable {σ : Subst} {θ : TyVar → Ty} {l : List TyVar} {v : TyVar}

theorem get?_foldl_insert :
    ((l.map fun v => (v, θ v)).foldl (fun σ (v, t) => σ.insert v t) σ).get? v =
      if v ∈ l then some (θ v) else σ.get? v := by
  induction l generalizing σ with
  | nil => rfl
  | cons w l ih =>
    rw [List.map_cons, List.foldl_cons, ih, get?_insert]
    by_cases hv : v ∈ l
    · simp [hv]
    · by_cases hw : v = w <;> simp [hv, hw]

theorem apply_ofList (hv : v ∈ l) : (ofList (l.map fun v => (v, θ v))).apply v = θ v := by
  rw [apply, ofList, get?_foldl_insert, if_pos hv, Option.getD_some]

end Subst

namespace Ty

variable {t u : Ty} {ρ : TyVar → TyVar} {l : List TyVar}

/-- The variables keep their order. -/
theorem vars_rename (hρ : Set.InjOn ρ {v | v ∈ t.occurrences}) :
    (t.rename ρ).vars = t.vars.map ρ := by
  have h := (alike_rename ρ t).restrict.vars (biUnique_of_injOn hρ)
  have hmap : List.Forall₂ (fun v w => ρ v = w) t.vars (t.rename ρ).vars :=
    h.imp fun _ _ => And.left
  rw [← List.forall₂_map_left_iff (R := Eq), List.forall₂_eq_eq_eq] at hmap
  exact hmap.symm

/-! ## Numberings -/

/-- A list without repetitions is numbered by the places of its members. -/
theorem map_idxOf (hl : l.Nodup) (n : Nat) :
    (l.map fun v => n + l.idxOf v) = List.range' n l.length := by
  refine List.ext_getElem (by simp) fun i _ _ => ?_
  simp [hl.idxOf_getElem]

/-- Numbering the variables is a substitution that takes them all at once, so that a number may be
given out although another variable still has it. -/
theorem substitute_range' (hl : l.Nodup) (hmem : ∀ v ∈ t.occurrences, v ∈ l) (n : Nat) :
    t.substitute (.ofList (l.zip ((List.range' n l.length).map var))) =
      t.rename fun v => n + l.idxOf v := by
  rw [← map_idxOf hl, List.map_map, ← List.map_prod_left_eq_zip]
  exact subst_congr fun v hv => Subst.apply_ofList (hmem v hv)

theorem canonical_eq_substitute (t : Ty) :
    t.canonical = t.substitute (.ofList (t.vars.zip ((List.range t.vars.length).map var))) := by
  rw [List.range_eq_range', substitute_range' t.nodup_vars fun _ => mem_vars.mpr]
  simp only [Nat.zero_add]
  rfl

theorem vars_canonical (t : Ty) : t.canonical.vars = List.range t.vars.length := by
  have hplaces := map_idxOf t.nodup_vars 0
  simp only [Nat.zero_add] at hplaces
  rw [List.range_eq_range', ← hplaces]
  exact vars_rename t.injOn_idxOf

/-- If the canonical numberings agree, the variables of one type can be renamed to those of the
other, each to the one that first appears in its place. -/
theorem exists_rename_of_canonical_eq (h : t.canonical = u.canonical) :
    ∃ ρ, Set.InjOn ρ {v | v ∈ t.occurrences} ∧ t.rename ρ = u := by
  have hlength : t.vars.length = u.vars.length := by
    have hvars := t.vars_canonical
    rw [h, vars_canonical] at hvars
    simpa using (congrArg List.length hvars).symm
  have hlt {v : TyVar} (hv : v ∈ t.occurrences) : t.vars.idxOf v < u.vars.length :=
    hlength ▸ List.idxOf_lt_length_of_mem (mem_vars.mpr hv)
  -- From the number that both canonical types have for a variable back to the variable of `u`.
  let back : TyVar → TyVar := fun i => u.vars[i]?.getD 0
  refine ⟨fun v => back (t.vars.idxOf v), fun v hv w hw hvw => ?_, ?_⟩
  · simp only [back, List.getElem?_eq_getElem (hlt hv), List.getElem?_eq_getElem (hlt hw)] at hvw
    exact (List.idxOf_inj (mem_vars.mpr hv)).mp (u.nodup_vars.getElem_inj_iff.mp hvw)
  · have hback : ∀ v ∈ u.occurrences, back (u.vars.idxOf v) = v := fun v hv => by
      rw [← mem_vars] at hv
      simp only [back, List.getElem?_idxOf hv, Option.getD_some]
    calc
      t.rename (fun v => back (t.vars.idxOf v)) = t.canonical.rename back :=
        (rename_rename t).symm
      _ = u.canonical.rename back := by rw [h]
      _ = u.rename fun v => back (u.vars.idxOf v) := rename_rename u
      _ = u := (subst_congr fun v hv => congrArg var (hback v hv)).trans u.subst_var

end Ty

namespace Scheme

variable {p q : Scheme} {s s' : Supply} {ρ : TyVar → TyVar} {n k : Nat}

theorem sameShape_rename (hρ : Set.InjOn ρ {v | v ∈ p.ty.occurrences}) :
    sameShape ⟨p.ty.rename ρ⟩ p :=
  beq_iff_eq.mpr (Ty.canonical_rename hρ)

/-- The variables in ascending order are an interval if they are so in any order. -/
theorem vars_eq_range' (h : p.ty.vars.Perm (List.range' n k)) : p.vars = List.range' n k := by
  refine (p.perm_vars.trans h).eq_of_pairwise' (r := (· ≤ ·)) ?_ ?_
  · rw [vars_eq_insertionSort]
    exact List.pairwise_insertionSort ..
  · exact List.pairwise_le_range' ..

/-- Two schemes have one shape if and only if a renaming that keeps the variables of the first apart
makes its type that of the second. The canonical form puts the numbers from zero on for the
variables in the order of their first appearance, all at once; it has the same shape, exactly these
variables in this order, and is its own canonical form. -/
theorem sameShape_iff_rename (p q : Scheme) :
    (p.sameShape q ↔ ∃ ρ, Set.InjOn ρ {v | v ∈ p.vars} ∧ p.ty.rename ρ = q.ty) ∧
    p.canonical.sameShape p ∧
    p.canonical.ty =
      p.ty.substitute (.ofList (p.ty.vars.zip ((List.range p.vars.length).map .var))) ∧
    p.canonical.ty.vars = List.range p.vars.length ∧
    p.canonical.vars = List.range p.vars.length ∧
    p.canonical.canonical = p.canonical := by
  have hvars : p.canonical.ty.vars = List.range p.vars.length :=
    p.perm_vars.length_eq ▸ p.ty.vars_canonical
  have hcanonical : p.canonical.ty.canonical = p.ty.canonical := p.ty.canonical_canonical
  refine ⟨?_, beq_iff_eq.mpr hcanonical, p.perm_vars.length_eq ▸ p.ty.canonical_eq_substitute,
    hvars, ?_, congrArg mk hcanonical⟩
  · simp only [mem_vars]
    constructor
    · intro h
      exact Ty.exists_rename_of_canonical_eq (beq_iff_eq.mp h)
    · intro ⟨ρ, hρ, hq⟩
      exact beq_iff_eq.mpr (hq ▸ (Ty.canonical_rename hρ).symm)
  · rw [List.range_eq_range'] at hvars ⊢
    exact vars_eq_range' (.of_eq hvars)

/-- The canonical numbering exchanges two variables that have each other's numbers. -/
example : canonical ⟨.arrow (.var 1) (.arrow (.var 0) (.var 1))⟩ =
    ⟨.arrow (.var 0) (.arrow (.var 1) (.var 0))⟩ := by decide

/-! ## Instances -/

theorem nodup_vars (p : Scheme) : p.vars.Nodup := p.perm_vars.nodup_iff.mpr p.ty.nodup_vars

theorem injOn_freshVar (p : Scheme) (s : Supply) :
    Set.InjOn (p.freshVar s) {v | v ∈ p.ty.occurrences} :=
  fun _ hv _ _ => (freshVar_inj hv).mp

theorem instantiate_eq_substitute (p : Scheme) (s : Supply) :
    (p.instantiate s).1.ty =
      p.ty.substitute (.ofList (p.vars.zip ((List.range' s.next p.vars.length).map .var))) :=
  (Ty.substitute_range' p.nodup_vars (fun _ => mem_vars.mpr) s.next).symm

theorem vars_instantiate (p : Scheme) (s : Supply) :
    (p.instantiate s).1.vars = List.range' s.next p.vars.length := by
  refine vars_eq_range' ?_
  rw [instantiate_eq, Ty.vars_rename (p.injOn_freshVar s), ← Ty.map_idxOf p.nodup_vars]
  exact (p.perm_vars.map _).symm

theorem instantiate_of_vars_eq_nil (h : p.vars = []) (s : Supply) : p.instantiate s = (p, s) := by
  have hground : p.ty.IsGround :=
    List.eq_nil_iff_forall_not_mem.mpr fun v hv => by simpa [h] using mem_vars.mpr hv
  rw [instantiate_eq, Ty.rename, hground.subst_eq, h]
  rfl

/-- What is instantiated from a supply that has gone on since has other variables. -/
theorem disjoint_instantiate (h : (p.instantiate s).2.next ≤ s'.next) :
    List.Disjoint (p.instantiate s).1.vars (q.instantiate s').1.vars := by
  intro v hv hv'
  rw [vars_instantiate, List.mem_range'_1] at hv hv'
  exact absurd (Nat.lt_of_lt_of_le hv.2 h) (Nat.not_lt.mpr hv'.1)

/-- The instances of schemes that are instantiated with one supply. -/
def instantiateEach : List Scheme → Supply → List Scheme
  | [], _ => []
  | p :: ps, s => (p.instantiate s).1 :: instantiateEach ps (p.instantiate s).2

theorem exists_of_mem_instantiateEach {ps : List Scheme} (h : q ∈ instantiateEach ps s) :
    ∃ (p : Scheme) (s' : Supply), s.next ≤ s'.next ∧ q = (p.instantiate s').1 := by
  induction ps generalizing s with
  | nil => cases h
  | cons p ps ih =>
    rcases List.mem_cons.mp h with rfl | h
    · exact ⟨p, s, Nat.le_refl _, rfl⟩
    · obtain ⟨p', s', hle, hq⟩ := ih h
      exact ⟨p', s', Nat.le_trans (le_instantiate p s) hle, hq⟩

theorem pairwise_disjoint_instantiateEach (ps : List Scheme) (s : Supply) :
    (instantiateEach ps s).Pairwise fun q q' => List.Disjoint q.vars q'.vars := by
  induction ps generalizing s with
  | nil => exact .nil
  | cons p ps ih =>
    refine .cons (fun q hq => ?_) (ih _)
    obtain ⟨p', s', hle, rfl⟩ := exists_of_mem_instantiateEach hq
    exact disjoint_instantiate hle

/-- An instance has the shape of the scheme. Its variables are the next ones of the supply, which
stand for those of the scheme in ascending order, all at once, whatever the numbers of those were; a
scheme without variables is its own instance. So no two instances from one supply share a variable,
whatever else was taken in between. -/
theorem instantiate_renames (p : Scheme) (s : Supply) :
    (p.instantiate s).1.sameShape p ∧
    (p.instantiate s).1.ty =
      p.ty.substitute (.ofList (p.vars.zip ((List.range' s.next p.vars.length).map .var))) ∧
    (p.instantiate s).1.vars = List.range' s.next p.vars.length ∧
    (p.instantiate s).2 = ⟨s.next + p.vars.length⟩ ∧
    (p.vars = [] → p.instantiate s = (p, s)) ∧
    (∀ (q : Scheme) (s' : Supply), (p.instantiate s).2.next ≤ s'.next →
      List.Disjoint (p.instantiate s).1.vars (q.instantiate s').1.vars) ∧
    ∀ ps, (instantiateEach ps s).Pairwise fun q q' => List.Disjoint q.vars q'.vars :=
  ⟨sameShape_rename (p.injOn_freshVar s), p.instantiate_eq_substitute s, p.vars_instantiate s, rfl,
    fun h => instantiate_of_vars_eq_nil h s, fun _ _ => disjoint_instantiate,
    fun ps => pairwise_disjoint_instantiateEach ps s⟩

/-- The first variable of the scheme takes the number that the second one had. -/
theorem instantiate_renames_overlap :
    let p : Scheme := ⟨.arrow (.var 1) (.arrow (.var 2) (.var 1))⟩
    let q : Scheme := ⟨.arrow (.var 2) (.arrow (.var 3) (.var 2))⟩
    p.instantiate ⟨2⟩ = (q, ⟨4⟩) ∧ q.sameShape p ∧ q.vars = [2, 3] ∧
      (p.instantiate ⟨2⟩).2.next ≤ 4 ∧ List.Disjoint q.vars (p.instantiate ⟨4⟩).1.vars ∧
      Scheme.int.vars = [] ∧ Scheme.int.instantiate ⟨2⟩ = (.int, ⟨2⟩) := by
  intro p q
  obtain ⟨hshape, -, hvars, -, -, hdisjoint, -⟩ := instantiate_renames p ⟨2⟩
  have hle : (p.instantiate ⟨2⟩).2.next ≤ 4 := Nat.le_refl 4
  have hint : Scheme.int.vars = [] := rfl
  exact ⟨rfl, hshape, hvars, hle, hdisjoint p ⟨4⟩ hle, hint,
    (instantiate_renames .int ⟨2⟩).2.2.2.2.1 hint⟩

end Scheme

end Curried
