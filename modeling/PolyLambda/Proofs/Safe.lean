import PolyLambda.Proofs.Arms
import PolyLambda.Proofs.Count
import PolyLambda.Proofs.Meets

/-!
# PolyLambda.Proofs.Safe

The checker fails only with type errors. The other failures are there for things that do not
occur: a variable shifted below zero, a label twice in a variant, binders closed out of order,
a case without arms. This needs no assumption on the scopes of types: aliases may be cyclic,
and variables may be unbound or negative.

* `Ty.Inferred` is what holds of every type that is inferred. It is weaker than `Ty.Settled`: an
  inferred type may nest deeper than the limit, but its variants do not, since they were written
  somewhere. So the types that the arms of a case bind can be resolved again, and no arm is left
  with some of its variables bound.
* `Context.Good` is what holds of every context the checker works in.
* `Check.rule_inferred` is the step from the parts of a term to the term, `Checker.infer_inferred`
  the statement for the checker.
* `Checker.typeOfClosed_total`: the check of a term gives a type or a type error.
-/

namespace PolyLambda

open Ty

namespace Ty

variable {aliases : Aliases} {n : Nat} {T U : Ty} {fields : List (Field Ty)}

/-! ## inferred types -/

/-- The type is a variant. -/
def IsVariant (T : Ty) : Prop :=
  ∃ fields, T = .variant fields

/-- A type as the checker gives it: well formed, resolved, and with variants that nest at most
`n` deep. -/
structure Inferred (aliases : Aliases) (n : Nat) (T : Ty) : Prop where
  wellFormed : T.WellFormed
  resolved : T.Resolved aliases
  variants : T.Every fun U => U.IsVariant → U.Fits n

theorem Settled.inferred (h : T.Settled aliases n) : T.Inferred aliases n :=
  ⟨h.wellFormed, h.resolved, h.fits.every.mono fun _ hU _ => hU⟩

theorem isVariant_lift {k c : Nat} : (T.lift k c).IsVariant ↔ T.IsVariant := by
  cases T with
  | var i =>
    simp only [lift, replace, liftVar, IsVariant]
    split <;> simp
  | _ => simp [lift, replace, IsVariant]

/-- Lifting changes nothing about where variants stand, or what can be resolved. -/
theorem inferred_lift {k c : Nat} :
    (T.lift k c).Inferred aliases n ↔ T.Inferred aliases n := by
  have hvariants : ((T.lift k c).Every fun U => U.IsVariant → U.Fits n) ↔
      T.Every fun U => U.IsVariant → U.Fits n :=
    every_lift fun T c => by rw [isVariant_lift, fits_lift]
  constructor
  · intro h
    exact ⟨wellFormed_lift.1 h.wellFormed, resolved_lift.1 h.resolved, hvariants.1 h.variants⟩
  · intro h
    exact ⟨wellFormed_lift.2 h.wellFormed, resolved_lift.2 h.resolved, hvariants.2 h.variants⟩

namespace Inferred

/-- Parts of inferred types are inferred. -/
theorem child (h : T.Inferred aliases n) (hU : U ∈ T.children) : U.Inferred aliases n :=
  ⟨h.wellFormed.child hU, h.resolved.child hU, h.variants.child hU⟩

/-- An inferred variant is settled. -/
theorem settled (h : (Ty.variant fields).Inferred aliases n) :
    (Ty.variant fields).Settled aliases n :=
  ⟨h.wellFormed, h.resolved, h.variants.here ⟨fields, rfl⟩⟩

/-- A node that is neither a name, nor an application, nor a variant may be put on top. -/
theorem node (hp : T.shape.Proper) (hn : ∀ name, T.shape ≠ .named name) (ha : T.shape ≠ .app)
    (hv : ∀ labels, T.shape ≠ .variant labels)
    (hc : ∀ A ∈ T.children, A.Inferred aliases n) : T.Inferred aliases n where
  wellFormed := ⟨hp, fun A hA => (hc A hA).wellFormed⟩
  resolved := by
    refine ⟨⟨fun name h => absurd h (hn name), fun A hA => (hc A hA).resolved.1⟩, ?_, ?_⟩
    · rintro ⟨kind, body, A, h⟩
      exact ha (by rw [h, shape])
    · exact fun A hA => (hc A hA).resolved.2
  variants := by
    refine ⟨?_, fun A hA => (hc A hA).variants⟩
    rintro ⟨fields, h⟩
    exact absurd (by rw [h, shape]) (hv (labels fields))

theorem base (b : Base) : (Ty.base b).Inferred aliases n :=
  node ⟨nofun, trivial⟩ nofun nofun nofun (by simp [children])

/-- An arrow is no variant, so its parts are all that matters. -/
theorem arrow (hT : T.Inferred aliases n) (hU : U.Inferred aliases n) :
    (Ty.arrow T U).Inferred aliases n :=
  node ⟨nofun, trivial⟩ nofun nofun nofun (by simpa [children] using ⟨hT, hU⟩)

theorem product {Ts : List Ty} (h : ∀ T ∈ Ts, T.Inferred aliases n) :
    (Ty.product Ts).Inferred aliases n :=
  node ⟨nofun, trivial⟩ nofun nofun nofun h

theorem binder {b : Binder} (h : T.Inferred aliases n) : (Ty.binder b T).Inferred aliases n :=
  node ⟨nofun, trivial⟩ nofun nofun nofun (by simpa [children] using h)

end Inferred

end Ty

/-! ## terms, contexts and faults -/

namespace Term

/-- The types written at the top of a term. -/
def types : Term → List Ty
  | .abs param _ _ => [param]
  | .inject _ _ ty _ => [ty]
  | .tyApp _ arg _ => [arg]
  | .roll ty _ _ => [ty]
  | .unroll ty _ _ => [ty]
  | .pack witness _ ty _ => [witness, ty]
  | _ => []

/-- The terms right below a term. -/
def subterms (t : Term) : List Term :=
  t.parts.map (·.2)

attribute [simp] types parts subterms

/-- A term that can be written down: it has no hole, and the types in it are well formed. -/
inductive WellFormed : Term → Prop where
  | intro {t : Term} (hh : t ≠ .hole) (ht : ∀ T ∈ t.types, T.WellFormed)
      (hu : ∀ u ∈ t.subterms, WellFormed u) : WellFormed t

namespace WellFormed

variable {t : Term}

theorem ne_hole (h : t.WellFormed) : t ≠ .hole := by
  cases h with
  | intro hh _ _ => exact hh

/-- Only a hole has no place. -/
theorem overrun_eq (h : t.WellFormed) {limit : Limit} :
    t.overrun limit = limit.overrun t.span := by
  cases t with
  | hole => exact absurd rfl h.ne_hole
  | _ => rfl

/-- The types in a well-formed term are well formed. -/
theorem type {T : Ty} (h : t.WellFormed) (hT : T ∈ t.types) : T.WellFormed := by
  cases h with
  | intro _ ht _ => exact ht T hT

/-- The parts of a well-formed term are well formed. -/
theorem part {u : Term} (h : t.WellFormed) (hu : u ∈ t.subterms) : u.WellFormed := by
  cases h with
  | intro _ _ hsub => exact hsub u hu

end WellFormed

/-- A test for well-formed terms that nest at most `n` deep. Types are tried by a traversal that
changes nothing. -/
def formed : (n : Nat) → Term → Bool
  | 0, _ | _, .hole => false
  | n + 1, t => t.types.all (fun T => (T.shift n 0).isOk) && t.subterms.all (formed n)

/-- Being well formed can be computed. -/
theorem wellFormed_of_formed {n : Nat} {t : Term} (h : t.formed n = true) : t.WellFormed := by
  induction n generalizing t with
  | zero => simp [formed] at h
  | succ n ih =>
    have hne : t ≠ .hole := by
      rintro rfl
      simp [formed] at h
    rw [formed, Bool.and_eq_true, List.all_eq_true, List.all_eq_true] at h
    · refine ⟨hne, fun T hT => ?_, fun u hu => ih (h.2 u hu)⟩
      cases hshift : T.shift n 0 with
      | ok U => exact (shift_ok (k := 0) hshift).1
      | error e =>
        have hok := h.1 T hT
        rw [hshift] at hok
        contradiction
    · exact hne

/-- The identity function at a type that has a name. -/
theorem wellFormed_identity (name : String) :
    (Term.abs (.named name) (.var 0 none) none).WellFormed := by
  have hname : (Ty.named name).WellFormed := wellFormed_leaf ⟨nofun, trivial⟩ rfl
  have hvar : (Term.var 0 none).WellFormed :=
    ⟨nofun, by simp, by simp⟩
  exact ⟨nofun, by simpa using hname, by simpa using hvar⟩

end Term

/-- The faults that a check may end with: type errors, and a machine that gives out. -/
def Fault.Expected : Fault → Prop
  | .type _ => True
  | .outOfStack => True
  | _ => False

theorem Limit.overrun_expected (limit : Limit) (span : Option Span) :
    (limit.overrun span).Expected := by
  unfold overrun
  split <;> trivial

namespace Context

variable {Γ : Context} {T U : Ty}

theorem mem_of_entry {i : Int} {e : Entry} (h : Γ.entry? i = some e) : e ∈ Γ.stack := by
  cases i with
  | ofNat i => exact List.mem_of_getElem? h
  | negSucc i => contradiction

/-- The types of the variables are settled, and none is meant deeper than the context is. -/
structure Good (Γ : Context) : Prop where
  balanced : Γ.Balanced
  settled : ∀ e ∈ Γ.stack, e.ty.Settled Γ.aliases Γ.limit.levels

/-- Without binders there is nothing that could be wrong. -/
theorem good_fresh (aliases : Aliases) (limit : Limit) : (fresh aliases limit).Good :=
  ⟨by simp [Balanced, fresh], by simp [fresh]⟩

namespace Good

/-- A type that is settled may be bound. -/
theorem bindOne (h : Γ.Good) (hU : U.Settled Γ.aliases Γ.limit.levels) : (Γ.bindOne U).Good :=
  ⟨List.forall_mem_cons.2 ⟨Nat.le_refl _, h.balanced⟩,
    List.forall_mem_cons.2 ⟨hU, h.settled⟩⟩

/-- Types that have been resolved may be bound, one after another. -/
theorem bind {Ts Us : List Ty} (h : Γ.Good)
    (hUs : List.Forall₂ (fun T U => Γ.resolve T = .ok U) Ts Us) : (Γ.bind Us).Good := by
  induction Us generalizing Γ Ts with
  | nil => exact h
  | cons U Us ih =>
    obtain ⟨T, Ts, hU, hrest, rfl⟩ := List.forall₂_cons_right_iff.1 hUs
    exact ih (h.bindOne (resolve_ok hU).2) hrest

/-- A scope lifts what is bound, which leaves it inferred. -/
theorem openScope (h : Γ.Good) : Γ.openScope.Good :=
  ⟨fun e he => Nat.le_succ_of_le (h.balanced e he), h.settled⟩

/-- What is found in a good context is an inferred type. -/
theorem find_inferred (h : Γ.Good) {i : Int} (hT : Γ.find i = .ok (some T)) :
    T.Inferred Γ.aliases Γ.limit.levels := by
  cases he : Γ.entry? i with
  | none => simp [find, he] at hT
  | some e =>
    have hmem := mem_of_entry he
    obtain rfl := Option.some.inj (find_ok he (h.balanced e hmem) hT)
    exact inferred_lift.2 (h.settled e hmem).inferred

/-- A look-up needs only levels. -/
theorem find_overrun (h : Γ.Good) {i : Int} {f : Fault} (hf : Γ.find i = .error f) :
    f = Γ.limit.overrun none := by
  cases he : Γ.entry? i with
  | none => simp [find, he] at hf
  | some e =>
    have hmem := mem_of_entry he
    exact find_error he (h.balanced e hmem) (h.settled e hmem).wellFormed hf

end Good

/-- Every context that can be reached is good. -/
theorem Reaches.good {aliases : Aliases} {Δ : Telescope} (h : Reaches aliases Γ Δ) : Γ.Good := by
  refine ⟨h.represents.2.depth_le, ?_⟩
  induction h with
  | fresh limit => simp [Context.fresh]
  | push _ hpush ih =>
    obtain ⟨U, hU, rfl⟩ := push_eq_ok.1 hpush
    exact List.forall_mem_cons.2 ⟨(resolve_ok hU).2, ih⟩
  | pop _ hpop ih =>
    obtain ⟨e, es, hstack, rfl⟩ := pop_eq_ok.1 hpop
    rw [hstack] at ih
    exact (List.forall_mem_cons.1 ih).2
  | openScope _ ih => exact ih
  | closeScope _ hclose ih =>
    obtain ⟨d, -, -, rfl⟩ := closeScope_eq_ok.1 hclose
    exact ih

end Context

/-! ## one step of the checker -/

namespace Check

variable {w : Prop} {E : Fault → Prop} {Γ : Context} {t : Term}

/-- The checker may work on `t` in `Γ`; where failures are watched, definitions and the term
are well formed, and `E` counts a want of levels among the faults that may occur. -/
structure Ready (w : Prop) (E : Fault → Prop) (Γ : Context) (t : Term) : Prop where
  good : Γ.Good
  wellFormed : w → Γ.aliases.WellFormed ∧ t.WellFormed
  overrun : w → ∀ (limit : Limit) (span : Option Span), E (limit.overrun span)

/-- Gives an inferred type, or fails as a check may. -/
abbrev Regular (w : Prop) (x : Check Ty) (Γ : Context) : Prop :=
  x.Meets w Γ (·.Inferred Γ.aliases Γ.limit.levels) Fault.Expected

namespace Ready

/-- What holds of a term and its context holds of the parts, in the same context. -/
theorem part (h : Ready w E Γ t) {u : Term} (hu : u ∈ t.subterms) : Ready w E Γ u :=
  ⟨h.good, fun hw => ⟨(h.wellFormed hw).1, (h.wellFormed hw).2.part hu⟩, h.overrun⟩

theorem bindOne (h : Ready w E Γ t) {U : Ty} (hU : U.Settled Γ.aliases Γ.limit.levels) :
    Ready w E (Γ.bindOne U) t :=
  ⟨h.good.bindOne hU, h.wellFormed, h.overrun⟩

theorem openScope (h : Ready w E Γ t) : Ready w E Γ.openScope t :=
  ⟨h.good.openScope, h.wellFormed, h.overrun⟩

/-- A type written in the term is resolved. -/
theorem resolve (h : Ready w E Γ t) {T : Ty} (hT : T ∈ t.types) :
    (resolve T).Meets w Γ (fun U => Steps Γ.aliases T U ∧ U.Settled Γ.aliases Γ.limit.levels)
      E :=
  meets_resolve fun hw =>
    ⟨(h.wellFormed hw).1, (h.wellFormed hw).2.type hT, h.overrun hw Γ.limit none⟩

/-- Instances are resolved, and computed from the instance that is meant. -/
theorem instantiate (h : Ready w E Γ t) {limit : Limit} {body A : Ty} (hb : body.WellFormed)
    (hA : A.WellFormed) :
    (instantiate limit body A).Meets w Γ
      (fun U => Steps Γ.aliases (body.inst A) U ∧ U.Settled Γ.aliases Γ.limit.levels) E :=
  meets_instantiate fun hw =>
    ⟨(h.wellFormed hw).1, hb, hA, fun limit => h.overrun hw limit none⟩

/-- A variable of an inferred type is bound around a part. -/
theorem binding_one (h : Ready w E Γ t) {T : Ty} (hT : T.Inferred Γ.aliases Γ.limit.levels)
    {x : Check α} {P : α → Prop}
    (hx : ∀ U, Γ.resolve T = .ok U → Ready w E (Γ.bindOne U) t →
      x.Meets w (Γ.bindOne U) P E) :
    (binding [T] x).Meets w Γ P E := by
  refine .binding_one (fun U hU => hx U hU (h.bindOne (Context.resolve_ok hU).2)) ?_
  intro e he hw
  rw [Context.resolve_error (h.wellFormed hw).1 hT.wellFormed he]
  exact h.overrun hw Γ.limit none

end Ready

variable {limit : Limit} {infer : Term → Check Ty} {s : Option Span}

/-- A variable has an inferred type, or is unbound. -/
theorem rule_var {i : Int} (h : Ready w Fault.Expected Γ (.var i s)) :
    Regular w (rule limit infer (.var i s)) Γ := by
  refine .bind (P := fun r => ∀ T, r = some T → T.Inferred Γ.aliases Γ.limit.levels)
    (.ask ?_ ?_) ?_
  · intro r hr T hT
    exact h.good.find_inferred (hT ▸ hr)
  · intro e he _
    rw [h.good.find_overrun he]
    exact Γ.limit.overrun_expected none
  · intro r hr
    split
    · next T => exact .pure (hr T rfl)
    · exact .fail fun _ => trivial

theorem mem_of_item {Ts : List Ty} {i : Int} {T : Ty} (h : item? Ts i = some T) : T ∈ Ts := by
  cases i with
  | ofNat i => exact List.mem_of_getElem? h
  | negSucc i => contradiction

/-- What the rules may assume of the function for the parts. -/
abbrev RegularParts (w : Prop) (infer : Term → Check Ty) : Prop :=
  ∀ (t : Term) (Γ : Context), Ready w Fault.Expected Γ t → Regular w (infer t) Γ

/-- An arrow from a resolved type to an inferred one. -/
theorem rule_abs {param : Ty} {body : Term} (ih : RegularParts w infer)
    (h : Ready w Fault.Expected Γ (.abs param body s)) :
    Regular w (rule limit infer (.abs param body s)) Γ := by
  refine (h.resolve (by simp)).bind fun A hA => ?_
  refine .bind (P := (·.Inferred Γ.aliases Γ.limit.levels)) ?_ fun B hB =>
    .pure (hA.2.inferred.arrow hB)
  exact h.binding_one hA.2.inferred fun U _ h' => ih body _ (h'.part (by simp))

/-- The codomain is a part of an inferred arrow. -/
theorem rule_app {fn arg : Term} (ih : RegularParts w infer)
    (h : Ready w Fault.Expected Γ (.app fn arg s)) :
    Regular w (rule limit infer (.app fn arg s)) Γ := by
  refine (ih fn Γ (h.part (by simp))).bind fun F hF => ?_
  refine (ih arg Γ (h.part (by simp))).bind fun A _ => ?_
  split
  · next dom cod =>
    refine (meets_expect fun _ _ => trivial).bind fun _ _ => ?_
    exact .pure (hF.child (by simp [children]))
  · exact .fail fun _ => trivial

theorem rule_fix {inner : Term} (ih : RegularParts w infer)
    (h : Ready w Fault.Expected Γ (.fix inner s)) :
    Regular w (rule limit infer (.fix inner s)) Γ := by
  refine (ih inner Γ (h.part (by simp))).bind fun F hF => ?_
  split
  · next dom cod =>
    refine (meets_expect fun _ _ => trivial).bind fun _ _ => ?_
    exact .pure (hF.child (by simp [children]))
  · exact .fail fun _ => trivial

/-- The type of the first branch. -/
theorem rule_ite {guard yes no : Term} (ih : RegularParts w infer)
    (h : Ready w Fault.Expected Γ (.ite guard yes no s)) :
    Regular w (rule limit infer (.ite guard yes no s)) Γ := by
  refine (ih guard Γ (h.part (by simp))).bind fun G _ => ?_
  split
  · refine (ih yes Γ (h.part (by simp))).bind fun A hA => ?_
    refine (ih no Γ (h.part (by simp))).bind fun B _ => ?_
    split
    · exact .pure hA
    · exact .fail fun _ => trivial
  · exact .fail fun _ => trivial

/-- A resolved variant. -/
theorem rule_inject {label : String} {payload : Term} {ty : Ty} (ih : RegularParts w infer)
    (h : Ready w Fault.Expected Γ (.inject label payload ty s)) :
    Regular w (rule limit infer (.inject label payload ty s)) Γ := by
  refine (h.resolve (by simp)).bind fun V hV => ?_
  split
  · split
    · refine (ih payload Γ (h.part (by simp))).bind fun A _ => ?_
      refine (meets_expect fun _ _ => trivial).bind fun _ _ => ?_
      exact .pure hV.2.inferred
    · exact .fail fun _ => trivial
  · exact .fail fun _ => trivial

/-- A component of an inferred product. -/
theorem rule_proj {inner : Term} {i : Int} (ih : RegularParts w infer)
    (h : Ready w Fault.Expected Γ (.proj inner i s)) :
    Regular w (rule limit infer (.proj inner i s)) Γ := by
  refine (ih inner Γ (h.part (by simp))).bind fun F hF => ?_
  split
  · split
    · next T hT => exact .pure (hF.child (mem_of_item hT))
    · exact .fail fun _ => trivial
  · exact .fail fun _ => trivial

/-- A product of inferred types. -/
theorem rule_tuple {items : List Term} (ih : RegularParts w infer)
    (h : Ready w Fault.Expected Γ (.tuple items s)) :
    Regular w (rule limit infer (.tuple items s)) Γ := by
  have hitems : List.Forall₂ (fun t _ => Regular w (infer t) Γ) items items :=
    List.forall₂_same.2 fun t ht =>
      ih t Γ (h.part (by simpa using ht))
  refine (meets_mapM hitems).bind fun Ts hTs => ?_
  refine .pure (.product fun T hT => ?_)
  obtain ⟨t, -, hT⟩ := exists_of_forall₂_right hTs hT
  exact hT

/-- The type that is bound was inferred, so binding it cannot fail. -/
theorem rule_letIn {bound body : Term} (ih : RegularParts w infer)
    (h : Ready w Fault.Expected Γ (.letIn bound body s)) :
    Regular w (rule limit infer (.letIn bound body s)) Γ := by
  refine (ih bound Γ (h.part (by simp))).bind fun A hA => ?_
  exact h.binding_one hA fun U _ h' => ih body _ (h'.part (by simp))

/-- A universal type over an inferred one. -/
theorem rule_tyAbs {body : Term} (ih : RegularParts w infer)
    (h : Ready w Fault.Expected Γ (.tyAbs body s)) :
    Regular w (rule limit infer (.tyAbs body s)) Γ := by
  refine .bind (.inScope h.good.balanced
    (ih body Γ.openScope (h.openScope.part (by simp)))) fun B hB => ?_
  exact .pure hB.binder

/-- A resolved instance. -/
theorem rule_tyApp {inner : Term} {arg : Ty} (ih : RegularParts w infer)
    (h : Ready w Fault.Expected Γ (.tyApp inner arg s)) :
    Regular w (rule limit infer (.tyApp inner arg s)) Γ := by
  refine (h.resolve (by simp)).bind fun A hA => ?_
  refine (ih inner Γ (h.part (by simp))).bind fun F hF => ?_
  split
  · next body =>
    have hbody : body.WellFormed := (hF.child (by simp [children])).wellFormed
    exact (h.instantiate hbody hA.2.wellFormed).mono fun U hU => hU.2.inferred
  · exact .fail fun _ => trivial

theorem rule_roll {ty : Ty} {inner : Term} (ih : RegularParts w infer)
    (h : Ready w Fault.Expected Γ (.roll ty inner s)) :
    Regular w (rule limit infer (.roll ty inner s)) Γ := by
  refine (h.resolve (by simp)).bind fun R hR => ?_
  split
  · next body =>
    have hbody : body.WellFormed := hR.2.wellFormed.child (by simp [children])
    refine (h.instantiate hbody hR.2.wellFormed).bind fun U _ => ?_
    refine (ih inner Γ (h.part (by simp))).bind fun A _ => ?_
    refine (meets_expect fun _ _ => trivial).bind fun _ _ => ?_
    exact .pure hR.2.inferred
  · exact .fail fun _ => trivial

/-- A resolved instance of the recursive type at itself. -/
theorem rule_unroll {ty : Ty} {inner : Term} (ih : RegularParts w infer)
    (h : Ready w Fault.Expected Γ (.unroll ty inner s)) :
    Regular w (rule limit infer (.unroll ty inner s)) Γ := by
  refine (h.resolve (by simp)).bind fun R hR => ?_
  split
  · next body =>
    have hbody : body.WellFormed := hR.2.wellFormed.child (by simp [children])
    refine (ih inner Γ (h.part (by simp))).bind fun A _ => ?_
    refine (meets_expect fun _ _ => trivial).bind fun _ _ => ?_
    exact (h.instantiate hbody hR.2.wellFormed).mono fun U hU => hU.2.inferred
  · exact .fail fun _ => trivial

theorem rule_pack {witness ty : Ty} {inner : Term} (ih : RegularParts w infer)
    (h : Ready w Fault.Expected Γ (.pack witness inner ty s)) :
    Regular w (rule limit infer (.pack witness inner ty s)) Γ := by
  refine (h.resolve (by simp)).bind fun W hW => ?_
  refine (h.resolve (T := ty) (by simp)).bind fun X hX => ?_
  split
  · next body =>
    have hbody : body.WellFormed := hX.2.wellFormed.child (by simp [children])
    refine (h.instantiate hbody hW.2.wellFormed).bind fun U _ => ?_
    refine (ih inner Γ (h.part (by simp))).bind fun A _ => ?_
    refine (meets_expect fun _ _ => trivial).bind fun _ _ => ?_
    exact .pure hX.2.inferred
  · exact .fail fun _ => trivial

/-- What is hidden was inferred under the binder, so it can be bound in the scope; and what does not
mention the scope can be lowered out of it. -/
theorem rule_unpack {package body : Term} (ih : RegularParts w infer)
    (h : Ready w Fault.Expected Γ (.unpack package body s)) :
    Regular w (rule limit infer (.unpack package body s)) Γ := by
  refine (ih package Γ (h.part (by simp))).bind fun X hX => ?_
  split
  · next hidden =>
    have hhidden := hX.child (U := hidden) (by simp [children])
    refine .bind (P := (·.Inferred Γ.aliases Γ.limit.levels)) (.inScope h.good.balanced ?_) ?_
    · exact h.openScope.binding_one hhidden fun U _ h' =>
        ih body _ (h'.part (by simp))
    · intro B hB
      have hw : w → B.WellFormed ∧ (limit.overrun none).Expected ∧ (¬ B.Avoids → True) :=
        fun _ => ⟨hB.wellFormed, limit.overrun_expected none, fun _ => trivial⟩
      exact (meets_lower hw).mono fun U hU => inferred_lift.1 (hU ▸ hB)
  · exact .fail fun _ => trivial

/-- What the pattern of an arm binds in a settled variant is settled. -/
theorem settled_of_opens {aliases : Aliases} {n : Nat} {fields : List (Field Ty)} {p : Pattern}
    {Us : List Ty} (h : p.Opens Eq fields Us) (hV : (Ty.variant fields).Settled aliases n) :
    ∀ U ∈ Us, U.Settled aliases n :=
  h.forall (fun _ hT _ hV => hT.child hV) (fun _ hf => hV.child (List.mem_map_of_mem hf)) hV

/-- An arm is checked with its variables bound, all of them or none. -/
theorem Ready.arm (h : Ready w E Γ t) {a : Arm Term} {fields : List (Field Ty)} {Ts : List Ty}
    (ho : a.pattern.Opens Eq fields Ts)
    (hV : (Ty.variant fields).Settled Γ.aliases Γ.limit.levels) {P : Ty → Prop}
    (hx : ∀ Us, List.Forall₂ (fun T U => Γ.resolve T = .ok U) Ts Us → Ready w E (Γ.bind Us) t →
      (infer a.body).Meets w (Γ.bind Us) P E) :
    (binding Ts (infer a.body)).Meets w Γ P E := by
  refine .binding (fun Us hUs => ?_) fun _ => ?_
  · exact hx Us hUs ⟨h.good.bind hUs, bind_eq Γ Us ▸ h.wellFormed, h.overrun⟩
  · -- settled types resolve to themselves within the limit, so no push fails midway
    have hsettled := settled_of_opens ho hV
    exact ⟨Ts, List.forall₂_same.2 fun T hT => Context.resolve_settled (hsettled T hT)⟩

/-- The types that patterns bind are parts of an inferred variant, so they resolve, and no arm is
left half bound. -/
theorem rule_caseOf {scrutinee : Term} {arms : List (Arm Term)} (ih : RegularParts w infer)
    (h : Ready w Fault.Expected Γ (.caseOf scrutinee arms s)) :
    Regular w (rule limit infer (.caseOf scrutinee arms s)) Γ := by
  refine (ih scrutinee Γ (h.part (by simp))).bind fun V hV => ?_
  split
  · next fields =>
    refine .bind (P := fun bound => Coverage.check fields s arms = .ok bound) (.ofExcept ?_ ?_) ?_
    · exact fun bound hb => mapError_eq_ok.1 hb
    · intro e he _
      obtain ⟨d, -, rfl⟩ := mapError_eq_error.1 he
      trivial
    · intro bound hb
      obtain ⟨hcov, hopens⟩ := (Coverage.check_eq_ok hV.wellFormed).1 hb
      have hne := hcov.zip_ne_nil hopens
      refine (meets_armsType (R := fun _ T => T.Inferred Γ.aliases Γ.limit.levels) hne ?_
        fun _ _ _ _ _ _ _ _ _ _ _ => trivial).mono fun T hT => ?_
      · rintro ⟨a, Ts⟩ ha
        have hbody : a.body ∈ (Term.caseOf scrutinee arms s).subterms := by
          simpa using .inr ⟨a, (List.of_mem_zip ha).1, rfl⟩
        refine h.arm (List.forall₂_zip hopens ha) hV.settled fun Us _ h' => ?_
        have := ih a.body (Γ.bind Us) (h'.part hbody)
        rwa [bind_eq] at this ⊢
      · obtain ⟨a, ha⟩ := List.exists_mem_of_ne_nil _ hne
        exact hT a ha
  · exact .fail fun _ => trivial

/-- One step: if parts give inferred types or fail as a check may, so does the term. -/
theorem rule_inferred (ih : RegularParts w infer) (h : Ready w Fault.Expected Γ t) :
    Regular w (rule limit infer t) Γ := by
  cases t with
  | hole => exact .fail fun hw => absurd rfl (h.wellFormed hw).2.ne_hole
  | lit value s =>
    refine .pure ?_
    cases value with
    | unit => exact .base _
    | bool _ => exact .base _
    | nat _ => exact .base _
    | prim op => cases op <;> exact .arrow (.base _) (.base _)
  | var i s => exact rule_var h
  | abs param body s => exact rule_abs ih h
  | app fn arg s => exact rule_app ih h
  | fix inner s => exact rule_fix ih h
  | ite guard yes no s => exact rule_ite ih h
  | inject label payload ty s => exact rule_inject ih h
  | proj inner i s => exact rule_proj ih h
  | tuple items s => exact rule_tuple ih h
  | letIn bound body s => exact rule_letIn ih h
  | tyAbs body s => exact rule_tyAbs ih h
  | tyApp inner arg s => exact rule_tyApp ih h
  | roll ty inner s => exact rule_roll ih h
  | unroll ty inner s => exact rule_unroll ih h
  | pack witness inner ty s => exact rule_pack ih h
  | unpack package body s => exact rule_unpack ih h
  | caseOf scrutinee arms s => exact rule_caseOf ih h

end Check

/-! ## the checker -/

namespace Checker

open Check

/-- The checker gives inferred types, or fails as a check may. -/
theorem infer_inferred {w : Prop} (c : Checker) (n : Nat) : RegularParts w (c.infer n) := by
  induction n with
  | zero =>
    intro t Γ h
    exact .fail fun hw => (h.wellFormed hw).2.overrun_eq ▸ c.limit.overrun_expected t.span
  | succ n ih =>
    intro t Γ h
    exact meets_infer (rule_inferred ih h)

/-- A check that gives a type does so just as inference does. -/
theorem run_typeOf_of_ok {c : Checker} {t : Term} {T : Ty} {Γ Δ : Context} {log : List Event}
    (h : (c.infer c.limit.levels t).run Γ = ⟨.ok T, Δ, log⟩) :
    (c.typeOf t).run Γ = ⟨.ok T, Δ, log⟩ := by
  rw [run_typeOf, h]
  rfl

/-- A check fails if inference does, and says so in the log. -/
theorem run_typeOf_of_error {c : Checker} {t : Term} {e : Fault} {Γ Δ : Context}
    {log : List Event} (h : (c.infer c.limit.levels t).run Γ = ⟨.error e, Δ, log⟩) :
    ∃ log', (c.typeOf t).run Γ = ⟨.error (c.settle t e), Δ, log'⟩ := by
  simp only [run_typeOf, h, conclude]
  cases c.settle t e <;> exact ⟨_, rfl⟩

/-- The check of a term over well-formed definitions gives a type or a type error, whatever the
limit is. -/
theorem typeOfClosed_total (c : Checker) (t : Term) (hal : c.aliases.WellFormed)
    (ht : t.WellFormed) :
    (∃ T, (c.typeOfClosed t).result = .ok T ∧ T.WellFormed) ∨
      ∃ e, (c.typeOfClosed t).result = .error (.type e) := by
  have hready : Ready True Fault.Expected c.freshContext t :=
    ⟨Context.good_fresh c.aliases c.limit, fun _ => ⟨hal, ht⟩, fun _ => Limit.overrun_expected⟩
  rw [typeOfClosed, run_typeOf]
  cases c.infer_inferred c.limit.levels t c.freshContext hready with
  | ok h hT => exact .inl ⟨_, by simp only [h, conclude], hT.wellFormed⟩
  | @error e _ _ h he =>
    have hexpected := (he trivial).2
    cases e with
    | type e => exact .inr ⟨e, by simp only [h, conclude, settle]⟩
    | outOfStack =>
      exact .inr ⟨⟨.tooDeep c.limit.depth, t.span⟩, by simp only [h, conclude, settle]⟩
    | _ => exact hexpected.elim

/-- A name for functions into a variable that is bound nowhere, defined by itself. -/
def looping : Aliases :=
  (∅ : Aliases).insert "A" (.arrow (.named "A") (.var (-1)))

theorem looping_wellFormed : looping.WellFormed := by
  have hname : (Ty.named "A").WellFormed := wellFormed_leaf ⟨nofun, trivial⟩ rfl
  have hvar : (Ty.var (-1)).WellFormed := wellFormed_leaf (proper_var _) rfl
  exact Aliases.wellFormed_empty.insert
    ⟨⟨nofun, trivial⟩, by simpa [children] using ⟨hname, hvar⟩⟩

/-- The identity function at every type. -/
def identity : Term :=
  .tyAbs (.abs (.var 0) (.var 0 none) none) none

/-- The identity function at a type that cannot be resolved is an error, and the one at every type
has a type, over the same definitions. -/
theorem typeOfClosed_total_looping :
    looping.WellFormed ∧
      (typeOfClosed ⟨looping, ⟨40, none⟩, false⟩ (.abs (.named "A") (.var 0 none) none)).result =
        .error (.type ⟨.tooDeep 40, none⟩) ∧
      (typeOfClosed ⟨looping, ⟨40, none⟩, false⟩ identity).result =
        .ok (.binder .all (.arrow (.var 0) (.var 0))) ∧
      (Ty.binder .all (.arrow (.var 0) (.var 0))).WellFormed := by
  have herror : (typeOfClosed ⟨looping, ⟨40, none⟩, false⟩
      (.abs (.named "A") (.var 0 none) none)).result = .error (.type ⟨.tooDeep 40, none⟩) := rfl
  have hok : (typeOfClosed ⟨looping, ⟨40, none⟩, false⟩ identity).result =
      .ok (.binder .all (.arrow (.var 0) (.var 0))) := rfl
  have hidentity : identity.WellFormed := Term.wellFormed_of_formed (n := 3) rfl
  refine ⟨looping_wellFormed, herror, hok, ?_⟩
  obtain ⟨T, hT, hwf⟩ | ⟨e, he⟩ :=
    typeOfClosed_total ⟨looping, ⟨40, none⟩, false⟩ identity looping_wellFormed hidentity
  · exact Except.ok.inj (hok.symm.trans hT) ▸ hwf
  · exact absurd (hok.symm.trans he) nofun

end Checker

end PolyLambda
