import PolyLambda.Proofs.Safe
import PolyLambda.Proofs.Typing

/-!
# PolyLambda.Proofs.Sound

The checker is sound: a type that it gives is a type that the typing rules give. The rules take
written types as they stand and compare types up to conversion, while the checker resolves
written types and compares for equality; the step between the two is always one use of the
conversion rule.

* `Sees` is the situation in which the checker follows the rules: the context represents the
  open binders.
* `Check.rule_typed` is the step from the parts of a term to the term, `Checker.infer_typed` the
  statement for the checker.
* `Checker.typeOf_sound`: what is given for a term in a context of its own, and what is inferred in
  any context that can be reached, is derivable.
-/

namespace PolyLambda

open Ty

variable {Γ : Context} {Δ : Telescope}

/-! ## the situation -/

/-- A context over closed definitions that represents the open binders. -/
structure Sees (Γ : Context) (Δ : Telescope) : Prop where
  closed : Γ.aliases.Closed
  good : Γ.Good
  represents : Γ.Represents Δ

namespace Sees

/-- What soundness asks of a context is more than safety does. -/
theorem ready (h : Sees Γ Δ) (t : Term) : Check.Ready False Fault.Expected Γ t :=
  ⟨h.good, False.elim, False.elim⟩

/-- A variable may be seen at a type that is convertible with the one it is bound at. -/
theorem bindOne (h : Sees Γ Δ) {S T U : Ty} (hST : Conv Γ.aliases S T)
    (hU : Γ.resolve T = .ok U) : Sees (Γ.bindOne U) (.term S :: Δ) := by
  obtain ⟨hsteps, hsettled⟩ := Context.resolve_ok hU
  exact ⟨h.closed, h.good.bindOne hsettled, h.represents.bindOne (hST.trans (.of_steps hsteps))⟩

/-- A scope is seen as one. -/
theorem openScope (h : Sees Γ Δ) : Sees Γ.openScope (.scope :: Δ) :=
  ⟨h.closed, h.good.openScope, h.represents.openScope⟩

/-- Several variables may be seen at convertible types. -/
theorem bind (h : Sees Γ Δ) {Ss Ts Us : List Ty} (hSs : List.Forall₂ (Conv Γ.aliases) Ss Ts)
    (hUs : List.Forall₂ (fun T U => Γ.resolve T = .ok U) Ts Us) :
    Sees (Γ.bind Us) (Δ.bind Ss) := by
  induction Ss generalizing Γ Δ Ts Us with
  | nil =>
    cases hSs
    cases hUs
    exact h
  | cons S Ss ih =>
    obtain ⟨T, Ts, hST, hSs', rfl⟩ := List.forall₂_cons_left_iff.1 hSs
    obtain ⟨U, Us, hU, hUs', rfl⟩ := List.forall₂_cons_left_iff.1 hUs
    exact ih (h.bindOne hST hU) hSs' hUs'

/-- The look-up of a variable gives a type convertible with the type of the variable. -/
theorem find (h : Sees Γ Δ) {i : Int} {T : Ty} (hT : Γ.find i = .ok (some T)) :
    ∃ (k : Nat) (S : Ty), i = k ∧ Δ.lookup k = some S ∧ Conv Γ.aliases S T := by
  cases he : Γ.entry? i with
  | none => simp [Context.find, he] at hT
  | some e =>
    have hd := h.good.balanced e (Context.mem_of_entry he)
    obtain rfl := Option.some.inj (Context.find_ok he hd hT)
    cases i with
    | negSucc k => contradiction
    | ofNat k =>
      obtain ⟨hnone, -⟩ | ⟨e', S, he', hS, -, hconv⟩ := h.represents.lookup h.closed k
      · rw [Context.entry?, hnone] at he
        contradiction
      · obtain rfl := Option.some.inj (he'.symm.trans he)
        exact ⟨k, S, rfl, hS, hconv⟩

end Sees

/-! ## one step of the checker -/

namespace Check

variable {limit : Limit} {infer : Term → Check Ty} {s : Option Span}

/-- Gives types that the rules give, and says nothing of failures. -/
abbrev TypedIn (x : Check Ty) (Γ : Context) (Δ : Telescope) (t : Term) : Prop :=
  x.Meets False Γ (Typed Γ.aliases Δ t) Fault.Expected

/-- What the rules may assume of the function for the parts. -/
abbrev TypedParts (infer : Term → Check Ty) : Prop :=
  ∀ (t : Term) (Γ : Context) (Δ : Telescope), Sees Γ Δ →
    (infer t).Meets False Γ
      (fun T => T.Inferred Γ.aliases Γ.limit.levels ∧ Typed Γ.aliases Δ t T) Fault.Expected

/-- The type that is found is the one that is seen, lifted out of the scopes in between. -/
theorem typed_var {i : Int} (h : Sees Γ Δ) :
    TypedIn (rule limit infer (.var i s)) Γ Δ (.var i s) := by
  refine .bind (P := fun r => Γ.find i = .ok r) (.ask (fun _ hr => hr) fun _ _ => False.elim) ?_
  intro r hr
  split
  · next T =>
    obtain ⟨k, S, rfl, hS, hconv⟩ := h.find hr
    exact .pure (.conv (.var hS) hconv)
  · exact .fail False.elim

/-- The parameter is seen at its written type, and bound at the resolved one. -/
theorem typed_abs {param : Ty} {body : Term} (ih : TypedParts infer) (h : Sees Γ Δ) :
    TypedIn (rule limit infer (.abs param body s)) Γ Δ (.abs param body s) := by
  refine ((h.ready (.abs param body s)).resolve (by simp)).bind fun A hA => ?_
  have hconv : Conv Γ.aliases param A := .of_steps hA.1
  refine .bind (P := fun B => Typed Γ.aliases (.term param :: Δ) body B) ?_ fun B hB => ?_
  · refine .binding_one (fun U hU => ?_) fun _ _ => False.elim
    exact (ih body _ _ (h.bindOne hconv hU)).mono fun B hB => hB.2
  · exact .pure (.conv (.abs hB) (hconv.arrow (.refl B)))

/-- The comparison makes the type of the argument the domain. -/
theorem typed_app {fn arg : Term} (ih : TypedParts infer) (h : Sees Γ Δ) :
    TypedIn (rule limit infer (.app fn arg s)) Γ Δ (.app fn arg s) := by
  refine (ih fn Γ Δ h).bind fun F hF => ?_
  refine (ih arg Γ Δ h).bind fun A hA => ?_
  split
  · next dom cod =>
    refine (meets_expect False.elim).bind fun _ heq => ?_
    exact .pure (.app hF.2 (heq ▸ hA.2))
  · exact .fail False.elim

theorem typed_fix {inner : Term} (ih : TypedParts infer) (h : Sees Γ Δ) :
    TypedIn (rule limit infer (.fix inner s)) Γ Δ (.fix inner s) := by
  refine (ih inner Γ Δ h).bind fun F hF => ?_
  split
  · next dom cod =>
    refine (meets_expect False.elim).bind fun _ heq => ?_
    rw [heq] at hF
    exact .pure (.fix hF.2)
  · exact .fail False.elim

/-- Both branches have the type of the first, since the two are compared. -/
theorem typed_ite {guard yes no : Term} (ih : TypedParts infer) (h : Sees Γ Δ) :
    TypedIn (rule limit infer (.ite guard yes no s)) Γ Δ (.ite guard yes no s) := by
  refine (ih guard Γ Δ h).bind fun G hG => ?_
  split
  · next hbool =>
    refine (ih yes Γ Δ h).bind fun A hA => ?_
    refine (ih no Γ Δ h).bind fun B hB => ?_
    split
    · next heq => exact .pure (.ite (hbool ▸ hG.2) hA.2 (heq ▸ hB.2))
    · exact .fail False.elim
  · exact .fail False.elim

/-- The annotation is convertible with the variant that it resolves to. -/
theorem typed_inject {label : String} {payload : Term} {ty : Ty} (ih : TypedParts infer)
    (h : Sees Γ Δ) :
    TypedIn (rule limit infer (.inject label payload ty s)) Γ Δ (.inject label payload ty s) := by
  refine ((h.ready (.inject label payload ty s)).resolve (by simp)).bind
    fun V hV => ?_
  split
  · next fields =>
    split
    · next T hT =>
      have hconv : Conv Γ.aliases ty (.variant fields) := .of_steps hV.1
      have hmem := (Coverage.field?_eq_some hV.2.wellFormed).1 hT
      refine (ih payload Γ Δ h).bind fun A hA => ?_
      refine (meets_expect False.elim).bind fun _ heq => ?_
      exact .pure (.conv (.inject hconv hmem (heq ▸ hA.2)) hconv)
    · exact .fail False.elim
  · exact .fail False.elim

/-- The index is one of the product, hence not negative. -/
theorem typed_proj {inner : Term} {i : Int} (ih : TypedParts infer) (h : Sees Γ Δ) :
    TypedIn (rule limit infer (.proj inner i s)) Γ Δ (.proj inner i s) := by
  refine (ih inner Γ Δ h).bind fun F hF => ?_
  split
  · next Ts =>
    split
    · next T hT =>
      cases i with
      | ofNat k => exact .pure (.proj hF.2 hT)
      | negSucc k => contradiction
    · exact .fail False.elim
  · exact .fail False.elim

/-- The components are typed one by one. -/
theorem typed_tuple {items : List Term} (ih : TypedParts infer) (h : Sees Γ Δ) :
    TypedIn (rule limit infer (.tuple items s)) Γ Δ (.tuple items s) := by
  refine (meets_mapM (List.forall₂_same.2 fun t _ => ih t Γ Δ h)).bind fun Ts hTs => ?_
  exact .pure (.tuple hTs.length_eq fun t T hT => (List.forall₂_zip hTs hT).2)

/-- The body is typed with the inferred type of what is bound. -/
theorem typed_letIn {bound body : Term} (ih : TypedParts infer) (h : Sees Γ Δ) :
    TypedIn (rule limit infer (.letIn bound body s)) Γ Δ (.letIn bound body s) := by
  refine (ih bound Γ Δ h).bind fun A hA => ?_
  refine .binding_one (fun U hU => ?_) fun _ _ => False.elim
  exact (ih body _ _ (h.bindOne (.refl A) hU)).mono fun B hB => .letIn hA.2 hB.2

/-- The body is typed inside a scope. -/
theorem typed_tyAbs {body : Term} (ih : TypedParts infer) (h : Sees Γ Δ) :
    TypedIn (rule limit infer (.tyAbs body s)) Γ Δ (.tyAbs body s) := by
  refine .bind (.inScope h.good.balanced (ih body _ _ h.openScope)) fun B hB => ?_
  exact .pure (.tyAbs hB.2)

/-- The instance is taken at the resolved argument, and is convertible with that at the written one.
-/
theorem typed_tyApp {inner : Term} {arg : Ty} (ih : TypedParts infer) (h : Sees Γ Δ) :
    TypedIn (rule limit infer (.tyApp inner arg s)) Γ Δ (.tyApp inner arg s) := by
  have hready := h.ready (.tyApp inner arg s)
  refine (hready.resolve (by simp)).bind fun A hA => ?_
  refine (ih inner Γ Δ h).bind fun F hF => ?_
  split
  · next body =>
    have hbody : body.WellFormed := (hF.1.child (by simp [children])).wellFormed
    refine (hready.instantiate hbody hA.2.wellFormed).mono fun U hU => ?_
    have harg : Conv Γ.aliases arg A := .of_steps hA.1
    exact .conv (.tyApp hF.2) (.inst_steps h.closed (.refl body) harg hU.1)
  · exact .fail False.elim

/-- What is unrolled once is an instance at the recursive type itself. -/
theorem typed_roll {ty : Ty} {inner : Term} (ih : TypedParts infer) (h : Sees Γ Δ) :
    TypedIn (rule limit infer (.roll ty inner s)) Γ Δ (.roll ty inner s) := by
  have hready := h.ready (.roll ty inner s)
  refine (hready.resolve (by simp)).bind fun R hR => ?_
  split
  · next body =>
    have hbody : body.WellFormed := hR.2.wellFormed.child (by simp [children])
    have hconv : Conv Γ.aliases ty (.binder .mu body) := .of_steps hR.1
    refine (hready.instantiate hbody hR.2.wellFormed).bind fun U hU => ?_
    refine (ih inner Γ Δ h).bind fun A hA => ?_
    refine (meets_expect False.elim).bind fun _ heq => ?_
    -- the checker instantiates with the resolved type, the rule with the written one
    have hunrolled : Conv Γ.aliases (body.inst ty) U :=
      .inst_steps h.closed (.refl body) hconv hU.1
    exact .pure (.conv (.roll hconv (.conv (heq ▸ hA.2) hunrolled.symm)) hconv)
  · exact .fail False.elim

theorem typed_unroll {ty : Ty} {inner : Term} (ih : TypedParts infer) (h : Sees Γ Δ) :
    TypedIn (rule limit infer (.unroll ty inner s)) Γ Δ (.unroll ty inner s) := by
  have hready := h.ready (.unroll ty inner s)
  refine (hready.resolve (by simp)).bind fun R hR => ?_
  split
  · next body =>
    have hbody : body.WellFormed := hR.2.wellFormed.child (by simp [children])
    have hconv : Conv Γ.aliases ty (.binder .mu body) := .of_steps hR.1
    refine (ih inner Γ Δ h).bind fun A hA => ?_
    refine (meets_expect False.elim).bind fun _ heq => ?_
    refine (hready.instantiate hbody hR.2.wellFormed).mono fun U hU => ?_
    have hunrolled : Conv Γ.aliases (body.inst ty) U :=
      .inst_steps h.closed (.refl body) hconv hU.1
    exact .conv (.unroll hconv (.conv (heq ▸ hA.2) hconv.symm)) hunrolled
  · exact .fail False.elim

/-- The inner type is compared with the instance at the resolved witness. -/
theorem typed_pack {witness ty : Ty} {inner : Term} (ih : TypedParts infer) (h : Sees Γ Δ) :
    TypedIn (rule limit infer (.pack witness inner ty s)) Γ Δ (.pack witness inner ty s) := by
  have hready := h.ready (.pack witness inner ty s)
  refine (hready.resolve (by simp)).bind fun W hW => ?_
  refine (hready.resolve (T := ty) (by simp)).bind fun X hX => ?_
  split
  · next body =>
    have hbody : body.WellFormed := hX.2.wellFormed.child (by simp [children])
    have hconv : Conv Γ.aliases ty (.binder .ex body) := .of_steps hX.1
    refine (hready.instantiate hbody hW.2.wellFormed).bind fun U hU => ?_
    refine (ih inner Γ Δ h).bind fun A hA => ?_
    refine (meets_expect False.elim).bind fun _ heq => ?_
    have hwitness : Conv Γ.aliases witness W := .of_steps hW.1
    have hopened : Conv Γ.aliases (body.inst witness) U :=
      .inst_steps h.closed (.refl body) hwitness hU.1
    exact .pure (.conv (.pack hconv (.conv (heq ▸ hA.2) hopened.symm)) hconv)
  · exact .fail False.elim

/-- A type that is lowered out of the scope is the lift of the result, so the result does not
mention what is hidden. -/
theorem typed_unpack {package body : Term} (ih : TypedParts infer) (h : Sees Γ Δ) :
    TypedIn (rule limit infer (.unpack package body s)) Γ Δ (.unpack package body s) := by
  refine (ih package Γ Δ h).bind fun X hX => ?_
  split
  · next hidden =>
    refine .bind (P := fun B => Typed Γ.aliases (.term hidden :: .scope :: Δ) body B)
      (.inScope h.good.balanced ?_) fun B hB => ?_
    · refine .binding_one (fun U hU => ?_) fun _ _ => False.elim
      exact (ih body _ _ (h.openScope.bindOne (.refl hidden) hU)).mono fun B hB => hB.2
    · exact (meets_lower False.elim).mono fun C hC => .unpack hX.2 (hC ▸ hB)
  · exact .fail False.elim

/-- Patterns that are accepted cover the variant, and what they bind are parts of it. -/
theorem typed_caseOf {scrutinee : Term} {arms : List (Arm Term)} (ih : TypedParts infer)
    (h : Sees Γ Δ) :
    TypedIn (rule limit infer (.caseOf scrutinee arms s)) Γ Δ (.caseOf scrutinee arms s) := by
  refine (ih scrutinee Γ Δ h).bind fun V hV => ?_
  split
  · next fields =>
    refine .bind (P := fun bound => Coverage.check fields s arms = .ok bound)
      (.ofExcept (fun bound hb => mapError_eq_ok.1 hb) fun _ _ => False.elim) fun bound hb => ?_
    obtain ⟨hcov, hopens⟩ := (Coverage.check_eq_ok hV.1.wellFormed).1 hb
    refine (meets_armsType (R := fun a T => Typed Γ.aliases (Δ.bind a.2) a.1.body T)
      (hcov.zip_ne_nil hopens) ?_ False.elim).mono fun C hC => ?_
    · rintro ⟨a, Ts⟩ _
      refine .binding (fun Us hUs => ?_) False.elim
      have hsees := h.bind (List.forall₂_same.2 fun T _ => .refl T) hUs
      have harm := ih a.body (Γ.bind Us) (Δ.bind Ts) hsees
      rw [bind_eq] at harm ⊢
      exact harm.mono fun T hT => hT.2
    · refine .caseOf hV.2 hcov (hopens.imp fun a Ts ho => ho.mono ?_) fun a Ts ha => hC (a, Ts) ha
      exact fun T U hTU => hTU ▸ .refl T
  · exact .fail False.elim

/-- One step: if the types of the parts are derivable, so is the type of the term. -/
theorem rule_typed {t : Term} (ih : TypedParts infer) (h : Sees Γ Δ) :
    TypedIn (rule limit infer t) Γ Δ t := by
  cases t with
  | hole => exact .fail False.elim
  | lit value s => exact .pure .lit
  | var i s => exact typed_var h
  | abs param body s => exact typed_abs ih h
  | app fn arg s => exact typed_app ih h
  | fix inner s => exact typed_fix ih h
  | ite guard yes no s => exact typed_ite ih h
  | inject label payload ty s => exact typed_inject ih h
  | proj inner i s => exact typed_proj ih h
  | tuple items s => exact typed_tuple ih h
  | letIn bound body s => exact typed_letIn ih h
  | tyAbs body s => exact typed_tyAbs ih h
  | tyApp inner arg s => exact typed_tyApp ih h
  | roll ty inner s => exact typed_roll ih h
  | unroll ty inner s => exact typed_unroll ih h
  | pack witness inner ty s => exact typed_pack ih h
  | unpack package body s => exact typed_unpack ih h
  | caseOf scrutinee arms s => exact typed_caseOf ih h

end Check

/-! ## the checker -/

/-- A context that can be reached over closed definitions represents the binders left open. -/
theorem Context.Reaches.sees {aliases : Aliases} (hcl : aliases.Closed)
    (h : Context.Reaches aliases Γ Δ) : Γ.aliases = aliases ∧ Sees Γ Δ := by
  obtain ⟨rfl, hrep⟩ := h.represents
  exact ⟨rfl, hcl, h.good, hrep⟩

namespace Checker

open Check

/-- The types that the checker gives are derivable. -/
theorem infer_typed (c : Checker) (n : Nat) : TypedParts (c.infer n) := by
  induction n with
  | zero => exact fun t Γ Δ h => .fail False.elim
  | succ n ih =>
    intro t Γ Δ h
    -- that the type is settled where needed is known already; the rule adds the derivation
    have hinferred := c.infer_inferred (n + 1) t Γ (h.ready t)
    exact hinferred.and (meets_infer (rule_typed ih h))

/-- A check succeeds exactly if inference does, with the same type. -/
theorem typeOf_eq_ok {c : Checker} {t : Term} {T : Ty} :
    ((c.typeOf t).run Γ).result = .ok T ↔ ((c.infer c.limit.levels t).run Γ).result = .ok T := by
  rw [run_typeOf]
  cases h : (c.infer c.limit.levels t).run Γ with
  | mk result Γ' log =>
    cases result with
    | ok U => simp only [conclude]
    | error e => cases hs : c.settle t e <;> simp [conclude, hs]

/-- Soundness: over closed definitions, what the checker gives for a term in a context of its
own is derivable without binders, and what it infers in a context that can be reached is
derivable under the binders that are open there. -/
theorem typeOf_sound (c : Checker) (hcl : c.aliases.Closed) :
    (∀ t T, (c.typeOfClosed t).result = .ok T → Typed c.aliases [] t T) ∧
    ∀ Γ Δ, Context.Reaches c.aliases Γ Δ → ∀ n t T,
      ((c.infer n t).run Γ).result = .ok T → Typed c.aliases Δ t T := by
  have hinfer : ∀ Γ Δ, Context.Reaches c.aliases Γ Δ → ∀ n t T,
      ((c.infer n t).run Γ).result = .ok T → Typed c.aliases Δ t T := by
    intro Γ Δ hreach n t T hT
    obtain ⟨hal, hsees⟩ := hreach.sees hcl
    cases c.infer_typed n t Γ Δ hsees with
    | ok h ha =>
      obtain rfl := Except.ok.inj ((congrArg Outcome.result h).symm.trans hT)
      exact hal ▸ ha.2
    | error h _ => simp [h] at hT
  exact ⟨fun t T hT => hinfer _ _ (.fresh c.limit) c.limit.levels t T (typeOf_eq_ok.1 hT), hinfer⟩

/-- A name for the numbers. -/
def numbers : Aliases :=
  (∅ : Aliases).insert "N" .nat

theorem numbers_closed : numbers.Closed :=
  Aliases.closed_empty.insert (.node nofun (by simp [children]))

/-- A function applied to a number, and a variable whose type is lifted over a scope. -/
theorem typeOf_sound_numbers :
    Typed numbers [] (.app (.abs (.named "N") (.var 0 none) none) (.lit (.nat 3) none) none) .nat ∧
    Typed numbers [.scope, .term (.var 0), .scope] (.var 0 none) (.var 1) := by
  have hsound := typeOf_sound ⟨numbers, ⟨9, none⟩, false⟩ numbers_closed
  have hreach := (Context.Reaches.fresh ⟨9, none⟩ : Context.Reaches numbers _ _)
  exact ⟨hsound.1 _ _ rfl, hsound.2 _ _ (.openScope (.push hreach.openScope rfl)) 9 _ _ rfl⟩

end Checker

end PolyLambda
