import Curried.Proofs.Eval.Registry
import Curried.Proofs.Typing.Infer
import Curried.Standard

/-!
The function that a call runs. Evaluation resolves an overloaded name with a supply of its own, and
finds the function that inference finds with any other (`resolve_firstAccepted`).
-/

namespace Curried.Registry

open Typing

variable {R : Registry} {name : String} {args : List Expr} {s : Supply} {r : Resolution}

/-- The overload that inference chooses is declared. -/
theorem get?_of_resolve (h : (Typing.resolve R.signatures name args s).1 = .ok r) :
    ∃ f, R.get? name r.index = some f := by
  obtain ⟨_, t, _, _, ht, _⟩ := resolve_eq_ok h
  rw [signatures, List.getElem?_map] at ht
  obtain ⟨f, hf, _⟩ := Option.map_eq_some_iff.mp ht
  exact ⟨f, (get?_eq ..).trans hf⟩

theorem mem_find_of_resolve {f : Function} (h : R.resolve name args = .ok f) :
    f ∈ R.find name := by
  unfold Registry.resolve at h
  generalize R.find name = overloads at h ⊢
  split at h
  · cases h
  · cases h
    exact List.mem_singleton_self _
  · split at h
    · cases h
    · split at h
      · rename_i g hg
        cases h
        exact List.mem_of_getElem? hg
      · cases h

theorem mem_functions_of_resolve {f : Function} (h : R.resolve name args = .ok f) :
    f ∈ R.functions :=
  (mem_find.mp (mem_find_of_resolve h)).1

theorem name_of_resolve {f : Function} (h : R.resolve name args = .ok f) : f.name = name :=
  (mem_find.mp (mem_find_of_resolve h)).2

theorem resolve_overloaded (h : 2 ≤ (R.find name).length) (args : List Expr) :
    R.resolve name args =
      match (Typing.resolve R.signatures name args ⟨0⟩).1 with
      | .error e => .error (.resolution e)
      | .ok r =>
        match R.get? name r.index with
        | some f => .ok f
        | none => .error (.unknownFunction name) := by
  simp only [Registry.resolve, get?_eq]
  generalize R.find name = overloads at h ⊢
  rcases overloads with _ | ⟨f, _ | ⟨g, fs⟩⟩
  · cases h
  · simp at h
  · rfl

/-- Evaluation runs the overload that inference chooses, or fails where inference does. -/
theorem resolve_agree_typing (h : 2 ≤ (R.find name).length) (args : List Expr) (s : Supply) :
    Agree (fun r f => R.get? name r.index = some f)
      (fun e e' => ∃ cause, e' = .resolution cause ∧ e.SameKind cause)
      (Typing.resolve R.signatures name args s).1 (R.resolve name args) := by
  rw [resolve_overloaded h]
  have hagree := Typing.resolve_agree R.signatures name args s ⟨0⟩
  have hget (r : Resolution) (hr : (Typing.resolve R.signatures name args ⟨0⟩).1 = .ok r) :=
    get?_of_resolve hr
  generalize (Typing.resolve R.signatures name args s).1 = a at hagree
  generalize (Typing.resolve R.signatures name args ⟨0⟩).1 = b at hagree hget
  cases hagree with
  | ok hr =>
    obtain ⟨f, hf⟩ := hget _ rfl
    simp only [hf]
    exact .ok (hr.1 ▸ hf)
  | error he => exact .error ⟨_, rfl, he⟩

/-- Where inference succeeds, evaluation runs the overload that inference chooses, also if there is
no other. -/
theorem resolve_of_typing (h : (Typing.resolve R.signatures name args s).1 = .ok r) :
    ∃ f, R.get? name r.index = some f ∧ R.resolve name args = .ok f := by
  obtain ⟨f, hf⟩ := get?_of_resolve h
  have hlt := (List.getElem?_eq_some_iff.mp ((get?_eq ..).symm.trans hf)).1
  rcases Nat.lt_or_ge (R.find name).length 2 with hone | htwo
  · obtain ⟨g, hg⟩ := List.length_eq_one_iff.mp (show (R.find name).length = 1 by omega)
    rw [get?_eq, hg] at hf
    rw [hg, List.length_singleton, Nat.lt_one_iff] at hlt
    rw [hlt] at hf
    refine ⟨f, by rw [get?_eq, hg, hlt, hf], ?_⟩
    rw [Registry.resolve, hg]
    exact congrArg _ (Option.some.inj hf)
  · have hagree := resolve_agree_typing htwo args s
    rw [h] at hagree
    obtain ⟨f, hresolve, hf⟩ := hagree.exists_ok
    exact ⟨f, hf, hresolve⟩

/-- Inference chooses the function that evaluation runs, if that accepts the arguments. -/
theorem typing_of_resolve {f : Function} {ts : List Scheme} (h : R.resolve name args = .ok f)
    (hts : (inferArgs R.signatures args s).1 = .ok ts) (hf : f.signature.Accepts ts) :
    ∃ r, (Typing.resolve R.signatures name args s).1 = .ok r ∧ R.get? name r.index = some f := by
  have hmem := mem_find_of_resolve h
  rcases Nat.lt_or_ge (R.find name).length 2 with hone | htwo
  · have hpos := List.length_pos_of_mem hmem
    obtain ⟨g, hg⟩ := List.length_eq_one_iff.mp (show (R.find name).length = 1 by omega)
    obtain rfl : f = g := List.mem_singleton.mp (hg ▸ hmem)
    have hfirst : FirstAccepted (R.signatures name) ts 0 := by
      rw [signatures, hg]
      exact (firstAccepted_cons_of_accepts hf).mpr rfl
    obtain ⟨r, hr, hindex⟩ := resolve_index_iff.mpr ⟨ts, hts, hfirst⟩
    exact ⟨r, hr, by rw [get?_eq, hg, hindex]; rfl⟩
  · have hagree := resolve_agree_typing htwo args s
    rw [h] at hagree
    generalize (Typing.resolve R.signatures name args s).1 = a at hagree
    cases hagree with
    | ok hf => exact ⟨_, rfl, hf⟩

/-- The overload of a call is the first one that accepts the types of the arguments alone, neither
it nor the shape of the type depends on the supply, and evaluation runs it. -/
theorem resolve_firstAccepted (h : 2 ≤ (R.find name).length) (args : List Expr) (s : Supply) :
    (∀ i, (∃ r, (Typing.resolve R.signatures name args s).1 = .ok r ∧ r.index = i) ↔
      ∃ ts, (inferArgs R.signatures args s).1 = .ok ts ∧
        FirstAccepted (R.signatures name) ts i) ∧
    (∀ s', Agree SameChoice TypeError.SameKind
      (Typing.resolve R.signatures name args s).1 (Typing.resolve R.signatures name args s').1) ∧
    Agree (fun r f => R.get? name r.index = some f)
      (fun e e' => ∃ cause, e' = .resolution cause ∧ e.SameKind cause)
      (Typing.resolve R.signatures name args s).1 (R.resolve name args) :=
  ⟨fun _ => resolve_index_iff, Typing.resolve_agree R.signatures name args s,
    resolve_agree_typing h args s⟩

/-- Concatenation is the second overload of `+`, with any supply. -/
theorem resolve_plus_strings : 2 ≤ (Standard.registry.find "+").length ∧
    ∃ r, (Typing.resolve Standard.registry.signatures "+" [.str "a", .str "b"] ⟨7⟩).1 = .ok r ∧
      r.index = 1 := by
  refine ⟨by decide, ((resolve_firstAccepted (by decide) _ _).1 1).mpr
    ⟨[.string, .string], ?_, ⟨_, rfl, .string, rfl⟩, ?_⟩⟩
  · simp only [inferArgs, infer_value (e := .str _) rfl]
    rfl
  · intro j hj f hf haccepts
    obtain ⟨r, hr⟩ := haccepts
    obtain rfl := Nat.lt_one_iff.mp hj
    cases hf
    cases hr

end Curried.Registry
