import Mathlib.Data.List.Basic
import Mathlib.Data.List.Induction
import Mathlib.Data.List.Nodup
import Curried.Eval.Registry

/-!
A registry as a table in order of insertion. Its index agrees with its functions, so what is found
under a name is the part of the table with that name (`find_eq`, `get?_eq`). A declaration changes
the table in one place or adds to its end (`declare_cases`); so a run of declarations leads to the
latest function of each name and key, in the order of first declarations
(`ofDeclarations_tabulates`).
-/

namespace Curried

/-- What tells the functions of a registry apart. -/
def Function.ident (f : Function) : String × String := (f.name, f.key)

namespace Registry

variable {R : Registry} {f g : Function} {name : String} {i : Nat}

/-! ## The index -/

theorem mem_slots : i ∈ R.slots name ↔ ∃ f, R.functions[i]? = some f ∧ f.name = name := by
  rw [slots_eq, mem_positions, List.getElem?_map, Option.map_eq_some_iff]

/-- Each position leads to a function. -/
theorem map_slots (R : Registry) (name : String) :
    (R.slots name).map (R.functions[·]?) = (R.find name).map some := by
  rw [find, List.map_filterMap_some_eq_filter_map_isSome, List.filter_eq_self.mpr]
  intro f? hf?
  obtain ⟨i, hi, rfl⟩ := List.mem_map.mp hf?
  obtain ⟨f, hf, -⟩ := mem_slots.mp hi
  rw [hf, Option.isSome_some]

/-- What is found under a name is the part of the table with the name. -/
theorem find_eq (R : Registry) (name : String) :
    R.find name = R.functions.filter (·.name == name) := by
  have hget : ∀ p ∈ R.functions.zipIdx.filter (·.1.name == name), R.functions[p.2]? = some p.1 :=
    fun p hp => List.mem_zipIdx_iff_getElem?.mp (List.mem_filter.mp hp).1
  calc R.find name
      = (R.functions.zipIdx.filter (·.1.name == name)).filterMap fun p => R.functions[p.2]? := by
        rw [find, slots_eq, positions, List.zipIdx_map, List.filter_map, List.map_map,
          List.filterMap_map]
        rfl
    _ = (R.functions.zipIdx.filter (·.1.name == name)).map (·.1) := by
        rw [List.filterMap_congr hget]
        exact congrFun List.filterMap_eq_map' _
    _ = (R.functions.zipIdx.map (·.1)).filter (·.name == name) := by
        rw [List.filter_map]
        rfl
    _ = R.functions.filter (·.name == name) := by rw [List.zipIdx_map_fst]

theorem mem_find : f ∈ R.find name ↔ f ∈ R.functions ∧ f.name = name := by
  rw [find_eq, List.mem_filter, beq_iff_eq]

theorem get?_eq (R : Registry) (name : String) (i : Nat) : R.get? name i = (R.find name)[i]? := by
  have h := congrArg (·[i]?) (R.map_slots name)
  simp only [List.getElem?_map] at h
  rw [get?]
  cases hi : (R.slots name)[i]? with
  | none =>
    rw [hi, Option.map_none, eq_comm, Option.map_eq_none_iff] at h
    rw [h, Option.bind_none]
  | some slot =>
    rw [hi, Option.map_some, eq_comm, Option.map_eq_some_iff] at h
    obtain ⟨f, hf, hslot⟩ := h
    rw [hf, hslot, Option.bind_some]

theorem overloadCount_eq (R : Registry) (name : String) :
    R.overloadCount name = (R.find name).length := by
  rw [overloadCount, ← List.length_map (R.functions[·]?), map_slots, List.length_map]

theorem contains_iff : R.contains name ↔ R.find name ≠ [] := by
  rw [← List.length_pos_iff, ← overloadCount_eq, overloadCount, slots, contains]
  have hnamed := R.named name
  cases h : R.index.lookup name with
  | none => simp
  | some is =>
    rw [h] at hnamed
    simpa [List.length_pos_iff] using hnamed

/-! ## One declaration -/

theorem exists_of_position? (h : R.position? f = some i) :
    ∃ g, R.functions[i]? = some g ∧ g.ident = f.ident := by
  obtain ⟨g, hg, hname⟩ := mem_slots.mp (List.mem_of_find?_eq_some h)
  have hkey := List.find?_some h
  rw [hg, Option.any_some, beq_iff_eq] at hkey
  exact ⟨g, hg, Prod.ext hname hkey⟩

theorem ident_ne_of_position? (h : R.position? f = none) :
    ∀ g ∈ R.functions, g.ident ≠ f.ident := by
  intro g hg hident
  obtain ⟨hname, hkey⟩ := Prod.mk.inj hident
  obtain ⟨i, hi⟩ := List.mem_iff_getElem?.mp hg
  refine List.find?_eq_none.mp h i (mem_slots.mpr ⟨g, hi, hname⟩) ?_
  rw [hi, Option.any_some, hkey, beq_self_eq_true]

/-- A declaration puts the function in the place of the one with its name and key and keeps all
positions, or puts it behind all others. -/
theorem declare_cases (R : Registry) (f : Function) :
    (∃ i g, R.functions[i]? = some g ∧ g.ident = f.ident ∧
      (R.declare f).functions = R.functions.set i f ∧ (R.declare f).index = R.index) ∨
    ((∀ g ∈ R.functions, g.ident ≠ f.ident) ∧ (R.declare f).functions = R.functions ++ [f] ∧
      (R.declare f).index = enter f.name R.functions.length R.index) := by
  unfold declare
  split
  · next i h =>
    obtain ⟨g, hg, hident⟩ := exists_of_position? h
    exact .inl ⟨i, g, hg, hident, rfl, rfl⟩
  · next h => exact .inr ⟨ident_ne_of_position? h, rfl, rfl⟩

theorem functions_declare_of_new (h : ∀ g ∈ R.functions, g.ident ≠ f.ident) :
    (R.declare f).functions = R.functions ++ [f] := by
  rcases R.declare_cases f with ⟨i, g, hg, hident, -⟩ | ⟨-, hfs, -⟩
  · exact absurd hident (h g (List.mem_of_getElem? hg))
  · exact hfs

theorem idents_declare (R : Registry) (f : Function) :
    (R.declare f).functions.map (·.ident) =
      if f.ident ∈ R.functions.map (·.ident) then R.functions.map (·.ident)
      else R.functions.map (·.ident) ++ [f.ident] := by
  rcases R.declare_cases f with ⟨i, g, hg, hident, hfs, -⟩ | ⟨hnew, hfs, -⟩
  · have hf : (R.functions.map (·.ident))[i]? = some f.ident := by
      rw [List.getElem?_map, hg, Option.map_some, hident]
    obtain ⟨hi, hget⟩ := List.getElem?_eq_some_iff.mp hf
    rw [if_pos (List.mem_of_getElem? hf), hfs, List.map_set, ← hget, List.set_getElem_self]
  · have hmem : f.ident ∉ R.functions.map (·.ident) := by
      simpa using hnew
    rw [hfs, List.map_append, List.map_singleton, if_neg hmem]

theorem mem_declare_self (R : Registry) (f : Function) : f ∈ (R.declare f).functions := by
  rcases R.declare_cases f with ⟨i, g, hg, -, hfs, -⟩ | ⟨-, hfs, -⟩
  · rw [hfs]
    exact List.mem_set (List.getElem?_eq_some_iff.mp hg).1 f
  · rw [hfs]
    exact List.mem_concat_self

theorem mem_of_mem_declare (h : g ∈ (R.declare f).functions) : g ∈ R.functions ∨ g = f := by
  rcases R.declare_cases f with ⟨i, -, -, -, hfs, -⟩ | ⟨-, hfs, -⟩
  · rw [hfs] at h
    exact List.mem_or_eq_of_mem_set h
  · rw [hfs] at h
    simpa using h

/-- No position in the index is out of the table's range. -/
def InRange (R : Registry) : Prop := ∀ entry ∈ R.index, ∀ i ∈ entry.2, i < R.functions.length

theorem mem_enter {entry : String × List Nat} {index : Index} (h : entry ∈ enter name i index)
    {j : Nat} (hj : j ∈ entry.2) : j = i ∨ ∃ entry' ∈ index, j ∈ entry'.2 := by
  induction index with
  | nil => simp_all [enter]
  | cons entry' rest ih =>
    simp only [enter] at h
    grind

theorem InRange.declare (h : R.InRange) (f : Function) : (R.declare f).InRange := by
  intro entry hentry j hj
  rcases R.declare_cases f with ⟨i, -, -, -, hfs, hindex⟩ | ⟨-, hfs, hindex⟩
  · rw [hindex] at hentry
    rw [hfs, List.length_set]
    exact h entry hentry j hj
  · rw [hindex] at hentry
    rw [hfs, List.length_append, List.length_singleton, Nat.lt_succ_iff]
    rcases mem_enter hentry hj with rfl | ⟨entry', hentry', hj⟩
    · exact Nat.le_refl _
    · exact Nat.le_of_lt (h entry' hentry' j hj)

/-! ## A run of declarations -/

/-- The registry that a sequence of declarations leads to. -/
def ofDeclarations (ds : List Function) : Registry := ds.foldl declare empty

theorem ofDeclarations_concat (ds : List Function) (f : Function) :
    ofDeclarations (ds ++ [f]) = (ofDeclarations ds).declare f :=
  List.foldl_concat ..

theorem idents_ofDeclarations (ds : List Function) :
    (ofDeclarations ds).functions.map (·.ident) = (ds.map (·.ident)).eraseDups := by
  induction ds using List.reverseRecOn with
  | nil => rfl
  | append_singleton ds f ih =>
    rw [ofDeclarations_concat, idents_declare, ih, List.map_append, List.eraseDups_append]
    simp only [List.mem_eraseDups, List.map_singleton, List.removeAll, List.filter_cons,
      List.filter_nil]
    by_cases h : f.ident ∈ ds.map (·.ident) <;> simp [h, List.eraseDups_cons]

theorem nodup_idents (ds : List Function) :
    ((ofDeclarations ds).functions.map (·.ident)).Nodup := by
  induction ds using List.reverseRecOn with
  | nil => exact .nil
  | append_singleton ds f ih =>
    rw [ofDeclarations_concat, idents_declare]
    split
    · exact ih
    · next h => exact ih.append (List.nodup_singleton _) (List.disjoint_singleton.mpr h)

theorem mem_of_mem_ofDeclarations {ds : List Function}
    (h : f ∈ (ofDeclarations ds).functions) : f ∈ ds := by
  induction ds using List.reverseRecOn with
  | nil => exact h
  | append_singleton ds d ih =>
    rw [ofDeclarations_concat] at h
    simpa using (mem_of_mem_declare h).imp_left ih

theorem inRange_ofDeclarations (ds : List Function) : (ofDeclarations ds).InRange := by
  induction ds using List.reverseRecOn with
  | nil => exact nofun
  | append_singleton ds d ih =>
    rw [ofDeclarations_concat]
    exact ih.declare d

/-- A function in the table is the latest one that was declared under its name and key. -/
theorem latest_of_mem {ds : List Function} (h : f ∈ (ofDeclarations ds).functions) :
    ds.reverse.find? (·.ident == f.ident) = some f := by
  induction ds using List.reverseRecOn with
  | nil => cases h
  | append_singleton ds d ih =>
    have hnodup := nodup_idents (ds ++ [d])
    rw [ofDeclarations_concat] at h hnodup
    rw [List.reverse_concat, List.find?_cons]
    by_cases hident : d.ident = f.ident
    · rw [beq_iff_eq.mpr hident, List.inj_on_of_nodup_map hnodup (mem_declare_self _ d) h hident]
    · rw [beq_eq_false_iff_ne.mpr hident]
      refine ih ((mem_of_mem_declare h).resolve_right ?_)
      rintro rfl
      exact hident rfl

/-- Declaring a function again changes its own place only. -/
theorem declare_of_ident_eq {ds : List Function} (hg : (ofDeclarations ds).functions[i]? = some g)
    (hident : g.ident = f.ident) :
    ((ofDeclarations ds).declare f).functions = (ofDeclarations ds).functions.set i f ∧
    ((ofDeclarations ds).declare f).index = (ofDeclarations ds).index := by
  rcases (ofDeclarations ds).declare_cases f with ⟨j, g', hg', hident', hfs, hindex⟩ | ⟨hnew, -⟩
  · have hget : ((ofDeclarations ds).functions.map (·.ident))[i]? =
        ((ofDeclarations ds).functions.map (·.ident))[j]? := by
      rw [List.getElem?_map, List.getElem?_map, hg, hg', Option.map_some, Option.map_some, hident,
        hident']
    have hi : i < ((ofDeclarations ds).functions.map (·.ident)).length := by
      rw [List.length_map]
      exact (List.getElem?_eq_some_iff.mp hg).1
    obtain rfl := (List.getElem?_inj hi (nodup_idents ds)).mp hget
    exact ⟨hfs, hindex⟩
  · exact absurd hident (hnew g (List.mem_of_getElem? hg))

/-- The registry is the table in order of insertion that the declarations describe. -/
structure Tabulates (R : Registry) (ds : List Function) : Prop where
  /-- It has one function for each name and key, in the order of first declarations. -/
  idents : R.functions.map (·.ident) = (ds.map (·.ident)).eraseDups
  /-- Each is the latest one declared under its name and key. -/
  latest : ∀ f ∈ R.functions, ds.reverse.find? (·.ident == f.ident) = some f
  /-- The overloads of a name are the part of the table with the name, in the same order. -/
  find : ∀ name, R.find name = R.functions.filter (·.name == name)
  get? : ∀ name i, R.get? name i = (R.find name)[i]?
  overloadCount : ∀ name, R.overloadCount name = (R.find name).length
  signatures : ∀ name, R.signatures name = (R.find name).map (·.signature)
  contains : ∀ name, R.contains name ↔ R.find name ≠ []
  /-- Declaring a function again changes its own place only, and no position. -/
  declare : ∀ i f g, R.functions[i]? = some g → g.ident = f.ident →
    (R.declare f).functions = R.functions.set i f ∧ (R.declare f).index = R.index
  inRange : R.InRange

/-- Every run of declarations leads to the table in order of insertion. -/
theorem ofDeclarations_tabulates (ds : List Function) : (ofDeclarations ds).Tabulates ds where
  idents := idents_ofDeclarations ds
  latest _ := latest_of_mem
  find := find_eq _
  get? := get?_eq _
  overloadCount := overloadCount_eq _
  signatures _ := rfl
  contains _ := contains_iff
  declare _ _ _ := declare_of_ident_eq
  inRange := inRange_ofDeclarations ds

end Registry

end Curried
