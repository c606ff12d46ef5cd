import Curried.Proofs.Eval.Registry
import Curried.Proofs.Scheme.Display

/-!
Keys of functions. No signature is written with a `:`, so the name and the signature in a key can be
told apart, and two functions have one key if and only if they have one name and signatures of one
shape (`Function.key_eq_iff`). So a registry has each name with each shape once
(`Registry.declare_replaces_iff`).
-/

namespace Curried

variable {f g : Function}

/-- Two functions have one key if and only if they are overloads with signatures of one shape. -/
theorem Function.key_eq_iff (hf : f.signature.ty.Legal) (hg : g.signature.ty.Legal) :
    f.key = g.key ↔ f.name = g.name ∧ f.signature.sameShape g.signature := by
  have hkey (d : Function) : d.key.toList =
      (d.name.toList ++ [' ']) ++ ':' :: ' ' :: d.signature.display.toList := by
    simp [key]
  have hbehind {d : Function} (hd : d.signature.ty.Legal) :
      ':' ∉ ' ' :: d.signature.display.toList := by
    simpa using Scheme.colon_notMem_display hd
  rw [← String.toList_inj, hkey, hkey, append_mark_inj (hbehind hf) (hbehind hg),
    List.append_cancel_right_eq, List.cons.injEq, String.toList_inj, String.toList_inj,
    Scheme.display_eq_iff hf hg]
  simp only [true_and]

theorem Function.ident_eq_iff (hf : f.signature.ty.Legal) (hg : g.signature.ty.Legal) :
    f.ident = g.ident ↔ f.name = g.name ∧ f.signature.sameShape g.signature := by
  rw [ident, ident, Prod.mk.injEq, key_eq_iff hf hg, ← and_assoc, and_self]

namespace Registry

variable {R : Registry} {ds : List Function} {i : Nat}

theorem nodup_keys (hds : ∀ d ∈ ds, d.signature.ty.Legal) :
    ((ofDeclarations ds).functions.map (·.key)).Nodup := by
  have hkeys : (ofDeclarations ds).functions.map (·.key) =
      ((ofDeclarations ds).functions.map (·.ident)).map Prod.snd := by
    rw [List.map_map]
    rfl
  rw [hkeys]
  refine (nodup_idents ds).map_on fun ident hident ident' hident' hkey => ?_
  obtain ⟨g, hg, rfl⟩ := List.mem_map.mp hident
  obtain ⟨g', hg', rfl⟩ := List.mem_map.mp hident'
  have hlegal := hds g (mem_of_mem_ofDeclarations hg)
  have hlegal' := hds g' (mem_of_mem_ofDeclarations hg')
  exact (Function.ident_eq_iff hlegal hlegal').mpr ((Function.key_eq_iff hlegal hlegal').mp hkey)

/-- Only a function of its name and key gives way to `f`. -/
theorem ident_eq_of_functions_declare (hg : R.functions[i]? = some g)
    (h : (R.declare f).functions = R.functions.set i f) : g.ident = f.ident := by
  rcases R.declare_cases f with ⟨j, g', hg', hident, hfs, -⟩ | ⟨-, hfs, -⟩
  · by_cases hji : j = i
    · rw [hji, hg] at hg'
      rw [Option.some.inj hg', hident]
    · have hget : (R.functions.set j f)[i]? = (R.functions.set i f)[i]? := by rw [← hfs, h]
      rw [List.getElem?_set_ne hji, hg,
        List.getElem?_set_self (List.getElem?_eq_some_iff.mp hg).1] at hget
      rw [Option.some.inj hget]
  · have hlength := congrArg List.length (hfs.symm.trans h)
    rw [List.length_append, List.length_set, List.length_singleton] at hlength
    exact absurd hlength (Nat.succ_ne_self _)

/-- The keys of a registry are distinct. A declaration takes the place of a function if and only if
that has its name and a signature of the same shape, and stands behind all functions if none has. -/
theorem declare_replaces_iff (hds : ∀ d ∈ ds, d.signature.ty.Legal)
    (hf : f.signature.ty.Legal) :
    ((ofDeclarations ds).functions.map (·.key)).Nodup ∧
    (∀ i g, (ofDeclarations ds).functions[i]? = some g →
      (((ofDeclarations ds).declare f).functions = (ofDeclarations ds).functions.set i f ↔
        f.name = g.name ∧ f.signature.sameShape g.signature)) ∧
    ((∀ g ∈ (ofDeclarations ds).functions,
        ¬(f.name = g.name ∧ f.signature.sameShape g.signature)) →
      ((ofDeclarations ds).declare f).functions = (ofDeclarations ds).functions ++ [f]) := by
  have hident {g : Function} (hg : g ∈ (ofDeclarations ds).functions) :
      f.ident = g.ident ↔ f.name = g.name ∧ f.signature.sameShape g.signature :=
    Function.ident_eq_iff hf (hds g (mem_of_mem_ofDeclarations hg))
  refine ⟨nodup_keys hds, fun i g hg => ?_, fun hnone => ?_⟩
  · rw [← hident (List.mem_of_getElem? hg)]
    exact ⟨fun h => (ident_eq_of_functions_declare hg h).symm,
      fun h => (declare_of_ident_eq hg h.symm).1⟩
  · exact functions_declare_of_new fun g hg h => hnone g hg ((hident hg).mp h.symm)

/-- A name that looks like a key does no harm, and the number of a variable does not matter. -/
theorem declare_replaces_identity :
    let f := Function.eager "id : a" (.arrow (.var 0) (.var 0)) ⟨[.any], fun v => .ok v⟩
    let g := Function.eager "id : a" (.arrow (.var 7) (.var 7)) ⟨[.any], fun v => .ok v⟩
    (∀ d ∈ [f], d.signature.ty.Legal) ∧ g.signature.ty.Legal ∧
    ((ofDeclarations [f]).declare g).functions = [g] := by
  intro f g
  have hlegal {v : TyVar} (hv : v < TyVar.limit) : (Ty.arrow (.var v) (.var v)).Legal :=
    .arrow (.var hv) (.var hv)
  have hf : ∀ d ∈ [f], d.signature.ty.Legal :=
    List.forall_mem_singleton.mpr (hlegal (by decide))
  have hg : g.signature.ty.Legal := hlegal (by decide)
  exact ⟨hf, hg, ((declare_replaces_iff hf hg).2.1 0 f rfl).mpr ⟨rfl, by decide⟩⟩

end Registry

end Curried
