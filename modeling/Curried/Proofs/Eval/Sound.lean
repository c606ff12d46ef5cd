import Curried.Proofs.Eval.Call
import Curried.Proofs.Scheme.Params
import Curried.Proofs.Scheme.Shape

/-!
Functions that do what their signatures say. A call of a sound function whose arguments have types
that the signature accepts gives a value of the type of the application, or an arithmetic error, or
has a wrong number of arguments. Eager functions are sound if their natives are typed
(`Native.Typed.sound`), and natives on constant types are typed if they return values of one type
(`Native.typed_of_returns`).
-/

namespace Curried

/-- The errors of operations on integers. -/
inductive EvalError.IsArithmetic : EvalError → Prop where
  | divisionByZero : IsArithmetic .divisionByZero
  | integerOverflow : IsArithmetic (.integerOverflow operation)

/-- The result is a value of type `t`, or an error with the property `P`. -/
inductive Result.Safe (P : EvalError → Prop) (t : Scheme) : Result → Prop where
  | ok : v.scheme = t → Safe P t (.ok v)
  | error : P e → Safe P t (.error e)

theorem Result.Safe.mono {P Q : EvalError → Prop} {t : Scheme} {r : Result} (h : Safe P t r)
    (hPQ : ∀ e, P e → Q e) : Safe Q t r := by
  cases h with
  | ok h => exact .ok h
  | error h => exact .error (hPQ _ h)

/-- Only which values have the type matters. -/
theorem Result.Safe.retype {P : EvalError → Prop} {t u : Scheme} {r : Result} (h : Safe P t r)
    (htu : ∀ v : Value, t = v.scheme → u = v.scheme) : Safe P u r := by
  cases h with
  | ok h => exact .ok (htu _ h.symm).symm
  | error h => exact .error h

/-- On arguments whose types the signature accepts, a call is safe at the type of the application,
except that it may have a wrong number of arguments. -/
def Function.Sound (f : Function) : Prop :=
  ∀ (P : EvalError → Prop) answer args ts s t, (∀ e, e.IsArithmetic → P e) →
    (args.length ≠ f.arity → ∀ got, P (.arityMismatch f.name f.arity got)) →
    List.Forall₂ (fun a t => Result.Safe P t (answer a)) args ts →
    (f.signature.applyAll ts s).1 = .ok t → Result.Safe P t ((Closure.call f args).run answer)

/-- The native does what the signature says: its parameters are those of the signature, unless they
take every value, and on values that fit them the result has the type of the application. -/
structure Native.Typed (native : Native) (signature : Scheme) : Prop where
  params : List.Forall₂ (fun p t => p = .any ∨ t = p.ty) native.params signature.ty.params
  result : ∀ vs, List.Forall₂ (fun p v => Value.fits v p.ty) native.params vs →
    ∃ t, (signature.applyAll (vs.map (·.scheme)) ⟨0⟩).1 = .ok t ∧
      Result.Safe EvalError.IsArithmetic t (native.call vs)

namespace Closure

variable {P : EvalError → Prop} {answer : Expr → Result}

theorem collect_safe {ps : List Param} {args : List Expr} {ts : List Scheme}
    (hargs : List.Forall₂ (fun a t => Result.Safe P t (answer a)) args ts)
    (hfits : ∀ (i : Nat) p (v : Value), ps[i]? = some p → ts[i]? = some v.scheme → v.fits p.ty) :
    (∃ vs, collect answer ps args = .ok vs ∧ (args.length = ps.length →
      ts = vs.map (·.scheme) ∧ List.Forall₂ (fun p v => Value.fits v p.ty) ps vs)) ∨
    ∃ e, collect answer ps args = .error e ∧ P e := by
  induction hargs generalizing ps with
  | nil =>
    refine .inl ⟨[], collect_nil ps, fun hlen => ?_⟩
    rw [List.length_eq_zero_iff.mp hlen.symm]
    exact ⟨rfl, .nil⟩
  | @cons a t args ts ha hargs ih =>
    cases ps with
    | nil => exact .inl ⟨[], rfl, fun hlen => by cases hlen⟩
    | cons p ps =>
      rw [collect]
      generalize answer a = r at ha
      cases ha with
      | error he => exact .inr ⟨_, rfl, he⟩
      | @ok v hvt =>
        have hv : v.fits p.ty := hfits 0 p v rfl (by rw [hvt]; rfl)
        rw [ok_bind, Value.require_eq_ok.mpr ⟨hv, rfl⟩, ok_bind]
        rcases ih fun i p v hp ht => hfits (i + 1) p v hp ht with ⟨vs, hvs, hfull⟩ | ⟨e, he, hP⟩
        · refine .inl ⟨v :: vs, by rw [hvs]; rfl, fun hlen => ?_⟩
          obtain ⟨hts, hfit⟩ := hfull (Nat.succ.inj hlen)
          exact ⟨by rw [List.map_cons, hvt, hts], .cons hv hfit⟩
        · exact .inr ⟨e, by rw [he]; rfl, hP⟩

end Closure

theorem Scheme.fits_of_applyAll {f t : Scheme} {ts : List Scheme} {s : Supply} {i : Nat}
    {name : String} {v : Value} (hf : f.ty.params[i]? = some (.const name))
    (hv : ts[i]? = some v.scheme) (h : (f.applyAll ts s).1 = .ok t) : v.fits (.const name) := by
  rcases applyAll_param hf hv h with hty | ⟨_, hty⟩
  · cases hty
    exact beq_self_eq_true _
  · cases hty

namespace Native.Typed

variable {native : Native} {signature t : Scheme} {ts : List Scheme} {s : Supply}

/-- Values whose types the signature accepts fit the parameters. -/
theorem fits (h : native.Typed signature) (happly : (signature.applyAll ts s).1 = .ok t) {i : Nat}
    {p : Param} {v : Value} (hp : native.params[i]? = some p) (hv : ts[i]? = some v.scheme) :
    v.fits p.ty := by
  obtain ⟨hlen, hget⟩ := List.forall₂_iff_get.mp h.params
  obtain ⟨hi, rfl⟩ := List.getElem?_eq_some_iff.mp hp
  rcases hget i hi (hlen ▸ hi) with hany | hty
  · rw [List.get_eq_getElem] at hany
    rw [hany]
    rfl
  · have hparam : signature.ty.params[i]? = some native.params[i].ty :=
      List.getElem?_eq_some_iff.mpr ⟨hlen ▸ hi, hty⟩
    cases hq : native.params[i] with rw [hq] at hparam
    | any => rfl
    | int | bool | str => exact Scheme.fits_of_applyAll hparam hv happly

theorem sound (h : native.Typed signature) (name : String) :
    Function.Sound ⟨name, signature, .eager native⟩ := by
  intro P answer args ts s t harith harity hargs happly
  rw [Closure.run_call_eager]
  have hfits (i : Nat) (p : Param) (v : Value) (hp : native.params[i]? = some p)
      (hv : ts[i]? = some v.scheme) : v.fits p.ty :=
    h.fits happly hp hv
  rcases Closure.collect_safe hargs hfits with ⟨vs, hvs, hfull⟩ | ⟨e, he, hP⟩
  · rw [hvs, ok_bind]
    split
    · rename_i hlen
      obtain ⟨rfl, hfit⟩ := hfull hlen
      obtain ⟨u, hu, hsafe⟩ := h.result vs hfit
      have hagree := Scheme.applyAll_agree_supply signature (vs.map (·.scheme)) s ⟨0⟩
      rw [happly, hu] at hagree
      cases hagree with
      | ok hshape =>
        refine (hsafe.retype fun v hv => ?_).mono harith
        rw [hv] at hshape
        exact Scheme.eq_const_of_sameShape hshape
    · rename_i hlen
      exact .error (harity hlen _)
  · rw [he]
    exact .error hP

end Native.Typed

/-- The function is eager and does what its signature says. -/
inductive Function.Typed : Function → Prop where
  | eager {name : String} {signature : Scheme} {native : Native} :
    native.Typed signature → Typed ⟨name, signature, .eager native⟩

theorem Function.Typed.sound {f : Function} (h : f.Typed) : f.Sound := by
  cases h with
  | eager h => exact h.sound _

/-! ## Natives without polymorphic parameters -/

/-- Whatever the arguments, the result is a value of type `t` or an arithmetic error. -/
def Curry.Returns (t : Scheme) : (ps : List Param) → Curry ps → Prop
  | [], r => Result.Safe EvalError.IsArithmetic t r
  | _ :: ps, f => ∀ a, Returns t ps (f a)

theorem Param.accept_of_fits {p : Param} {v : Value} (h : v.fits p.ty) :
    ∃ a, p.accept v = .ok a := by
  cases p with
  | any => exact ⟨v, rfl⟩
  | int | bool | str => cases v <;> first | exact ⟨_, rfl⟩ | cases h

theorem Param.ty_eq_of_fits {p : Param} {v : Value} (hp : p ≠ .any) (h : v.fits p.ty) :
    p.ty = v.ty := by
  cases p with
  | any => exact absurd rfl hp
  | int | bool | str => exact congrArg Ty.const (eq_of_beq h)

theorem Curry.Returns.feed_safe {t : Scheme} {ps : List Param} {f : Curry ps} {vs : List Value}
    (h : Returns t ps f) (hfit : List.Forall₂ (fun p v => Value.fits v p.ty) ps vs)
    (expected got : Nat) : Result.Safe EvalError.IsArithmetic t (feed expected got ps f vs) := by
  induction hfit generalizing got with
  | nil => exact h
  | cons hv _ ih =>
    obtain ⟨a, ha⟩ := Param.accept_of_fits hv
    rw [feed, ha]
    exact ih (h a) _

theorem Scheme.applyAll_values (vs : List Value) (result : String) (s : Supply) :
    (applyAll ⟨.function (vs.map (·.ty)) (.const result)⟩ (vs.map (·.scheme)) s).1 =
      .ok ⟨.const result⟩ := by
  induction vs generalizing s with
  | nil => rfl
  | cons v vs ih =>
    refine applyAll_cons_eq_ok.mpr ⟨_, _, Prod.ext (apply_eq_ok.mpr ?_) rfl, ih _⟩
    have hground : (Ty.function (vs.map (·.ty)) (.const result)).IsGround :=
      Ty.isGround_function (List.forall_mem_map.mpr fun _ _ => rfl) rfl
    refine ⟨_, _, .empty, rfl, if_pos rfl, congrArg Scheme.mk ?_⟩
    rw [Ty.substitute, Ty.rename]
    exact ((hground.subst_eq _).symm.trans (congrArg _ (hground.subst_eq _).symm))

/-- A native is typed if it takes values of the constant types of its parameters and always returns
values of the type that the signature gives. -/
theorem Native.typed_of_returns {ps : List Param} {body : Curry ps} {result : String}
    (hps : ∀ p ∈ ps, p ≠ .any) (h : Curry.Returns ⟨.const result⟩ ps body) :
    Native.Typed ⟨ps, body⟩ ⟨.function (ps.map (·.ty)) (.const result)⟩ where
  params := by
    have hparams (ts : List Ty) : (Ty.function ts (.const result)).params = ts := by
      induction ts with
      | nil => rfl
      | cons t ts ih => exact congrArg (t :: ·) ih
    rw [hparams]
    exact List.forall₂_map_right_iff.mpr (List.forall₂_same.mpr fun p _ => .inr rfl)
  result vs hfit := by
    have hty : List.Forall₂ (fun p v => p.ty = v.ty) ps vs :=
      ((List.forall₂_and_left ps vs).mpr ⟨hps, hfit⟩).imp fun _ _ h => Param.ty_eq_of_fits h.1 h.2
    have hmap : ps.map (·.ty) = vs.map (·.ty) := Eq.mp (congrFun₂ List.forall₂_eq_eq_eq _ _)
      (List.forall₂_map_left_iff.mpr (List.forall₂_map_right_iff.mpr hty))
    rw [hmap]
    exact ⟨_, Scheme.applyAll_values vs result _, h.feed_safe hfit _ _⟩

end Curried
