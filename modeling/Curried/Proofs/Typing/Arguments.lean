import Curried.Proofs.Typing.Infer
import Curried.Standard

/-!
More arguments. A candidate that accepts some arguments accepts the first ones of them alone
(`Scheme.Accepts.of_append`), so a call with fewer arguments is resolved too, to the same overload
or an earlier one; and if it is the same, the type of the longer call is that of the shorter one
applied to the other arguments (`resolve_append`).
-/

namespace Curried

open Typing

namespace Scheme

variable {f : Scheme} {ts us : List Scheme}

theorem applyAll_append (f : Scheme) (ts us : List Scheme) (s : Supply) :
    f.applyAll (ts ++ us) s = andThen (f.applyAll ts s) fun r s => r.applyAll us s := by
  induction ts generalizing f s with
  | nil => rfl
  | cons t ts ih =>
    rw [List.cons_append, applyAll, applyAll]
    rcases f.apply t s with ⟨_ | r, s⟩
    · rfl
    · exact ih r s

theorem Accepts.of_append (h : f.Accepts (ts ++ us)) : f.Accepts ts := by
  obtain ⟨r, hr⟩ := h
  rw [applyAll_append, andThen_eq_ok] at hr
  obtain ⟨p, s, hp, -⟩ := hr
  exact ⟨p, congrArg Prod.fst hp⟩

end Scheme

namespace Typing

variable {Γ : Signatures} {name : String} {xs ys : List Expr} {s s' : Supply} {r p : Resolution}
  {f : Scheme} {fs ts us : List Scheme} {i j : Nat}

/-- The types of more arguments are those of the first ones and, with the supply that these leave,
those of the others. -/
theorem exists_of_inferArgs_append (h : (inferArgs Γ (xs ++ ys) s).1 = .ok ts) :
    ∃ ts₁ ts₂ s', ts = ts₁ ++ ts₂ ∧ (inferArgs Γ xs s).1 = .ok ts₁ ∧
      (inferArgs Γ ys s').1 = .ok ts₂ := by
  induction xs generalizing s ts with
  | nil => exact ⟨[], ts, s, rfl, rfl, h⟩
  | cons x xs ih =>
    obtain ⟨t, s₁, ht, h⟩ := andThen_eq_ok.mp h
    obtain ⟨ts', s₂, hts, h⟩ := andThen_eq_ok.mp h
    cases h
    obtain ⟨ts₁, ts₂, s', rfl, hxs, hys⟩ := ih (congrArg Prod.fst hts)
    refine ⟨t :: ts₁, ts₂, s', rfl, andThen_eq_ok.mpr ⟨t, s₁, ht, ?_⟩, hys⟩
    exact andThen_eq_ok.mpr ⟨ts₁, _, Prod.ext hxs rfl, rfl⟩

/-- The first candidate that accepts stands no later than any that does. -/
theorem exists_firstAccepted (hf : fs[j]? = some f) (h : f.Accepts ts) :
    ∃ i ≤ j, FirstAccepted fs ts i := by
  classical
  have hex : ∃ (i : Nat) (f : Scheme), fs[i]? = some f ∧ f.Accepts ts := ⟨j, f, hf, h⟩
  refine ⟨Nat.find hex, Nat.find_min' hex ⟨f, hf, h⟩, Nat.find_spec hex, ?_⟩
  intro i hi g hg haccepts
  exact Nat.find_min hex hi ⟨g, hg, haccepts⟩

/-- With the first of its arguments alone, a call is resolved to no later overload. -/
theorem resolve_prefix (h : (resolve Γ name (xs ++ ys) s).1 = .ok r) (s' : Supply) :
    ∃ p, (resolve Γ name xs s').1 = .ok p ∧ p.index ≤ r.index := by
  obtain ⟨ts, hts, ⟨f, hf, haccepts⟩, -⟩ := resolve_index_iff.mp ⟨r, h, rfl⟩
  obtain ⟨ts₁, ts₂, _, rfl, hxs, -⟩ := exists_of_inferArgs_append hts
  obtain ⟨i, hi, hfirst⟩ := exists_firstAccepted hf haccepts.of_append
  obtain ⟨p, hp, rfl⟩ := resolve_index_iff.mpr ⟨ts₁, hxs, hfirst⟩
  have hagree := resolve_agree Γ name xs s s'
  rw [hp] at hagree
  obtain ⟨p', hp', hindex, -⟩ := hagree.exists_ok
  exact ⟨p', hp', hindex ▸ hi⟩

/-- If it is the same overload, the other arguments have types, whatever the supply, and the type of
the shorter call applied to them has the shape of that of the longer one. -/
theorem resolve_applyAll (h : (resolve Γ name (xs ++ ys) s).1 = .ok r)
    (hp : (resolve Γ name xs s').1 = .ok p) (hindex : p.index = r.index) (s₁ : Supply) :
    ∃ us, (inferArgs Γ ys s₁).1 = .ok us ∧
      ∀ s₂, ∃ t, (p.scheme.applyAll us s₂).1 = .ok t ∧ r.scheme.sameShape t := by
  obtain ⟨ts, f, s₃, hts, hf, hr⟩ := resolve_eq_ok h
  obtain ⟨ts', f', s₄, hts', hf', hp⟩ := resolve_eq_ok hp
  obtain rfl : f = f' := Option.some.inj (hf.symm.trans (hindex ▸ hf'))
  obtain ⟨ts₁, ts₂, s₅, rfl, hxs, hys⟩ := exists_of_inferArgs_append hts
  rw [Scheme.applyAll_append, andThen_eq_ok] at hr
  obtain ⟨q, s₆, hq, hr⟩ := hr
  -- Only the supplies differ, so `q` has the shape of the type of the shorter call, and `ts₂` are
  -- the types of `ys` up to their shapes.
  have hxsagree := inferArgs_agree_supply Γ xs s s'
  have hysagree := inferArgs_agree_supply Γ ys s₅ s₁
  rw [hxs, hts'] at hxsagree
  rw [hys] at hysagree
  obtain ⟨us, hus, hshapes⟩ := hysagree.exists_ok
  have hqagree := Scheme.applyAll_agree f.sameShape_refl hxsagree.of_ok s₃ s₄
  rw [congrArg Prod.fst hq, hp] at hqagree
  refine ⟨us, hus, fun s₂ => ?_⟩
  have hragree := Scheme.applyAll_agree hqagree.of_ok hshapes s₆ s₂
  rw [hr] at hragree
  exact hragree.exists_ok

/-- More arguments never lead to an earlier overload. If a call is resolved, so is the call with the
first of its arguments alone, to the same overload or an earlier one; if it is the same, the type of
the longer call is that of the shorter one applied to the types of the other arguments. -/
theorem resolve_append (h : (resolve Γ name (xs ++ ys) s).1 = .ok r) (s' : Supply) :
    ∃ p, (resolve Γ name xs s').1 = .ok p ∧ p.index ≤ r.index ∧
      (p.index = r.index → ∀ s₁, ∃ us, (inferArgs Γ ys s₁).1 = .ok us ∧
        ∀ s₂, ∃ t, (p.scheme.applyAll us s₂).1 = .ok t ∧ r.scheme.sameShape t) := by
  obtain ⟨p, hp, hle⟩ := resolve_prefix h s'
  exact ⟨p, hp, hle, resolve_applyAll h hp⟩

/-- One string already decides for concatenation, the second overload of `+`, and another one makes
a string of what is left of its type. -/
theorem resolve_append_plus :
    let Γ := Standard.registry.signatures
    let p : Resolution := ⟨1, ⟨.arrow .string .string⟩⟩
    (resolve Γ "+" ([.str "a"] ++ [.str "b"]) ⟨0⟩).1 = .ok ⟨1, .string⟩ ∧
      (resolve Γ "+" [.str "a"] ⟨0⟩).1 = .ok p ∧
      ∃ us, (inferArgs Γ [.str "b"] ⟨0⟩).1 = .ok us ∧
        ∃ t, (p.scheme.applyAll us ⟨0⟩).1 = .ok t ∧ Scheme.string.sameShape t := by
  intro Γ p
  have hknown : Γ "+" ≠ [] := by decide
  have hlong : (resolve Γ "+" ([.str "a"] ++ [.str "b"]) ⟨0⟩).1 = .ok ⟨1, .string⟩ := by
    simp only [List.cons_append, List.nil_append, resolve_known hknown, inferArgs,
      infer_value (e := .str _) rfl]
    rfl
  have hshort : (resolve Γ "+" [.str "a"] ⟨0⟩).1 = .ok p := by
    simp only [resolve_known hknown, inferArgs, infer_value (e := .str _) rfl]
    rfl
  obtain ⟨p', hp', -, htype⟩ := resolve_append hlong ⟨0⟩
  obtain rfl : p = p' := Except.ok.inj (hshort.symm.trans hp')
  obtain ⟨us, hus, ht⟩ := htype rfl ⟨0⟩
  exact ⟨hlong, hshort, us, hus, ht ⟨0⟩⟩

end Typing

end Curried
