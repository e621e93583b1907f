import PolyLambda.Proofs.Sound

/-!
# PolyLambda.Proofs.Complete

The checker is complete: a term that has a type by the typing rules is refused only for want of
levels, and the type that the checker gives is convertible with every type the term has. So
types are unique up to conversion, as far as the checker reaches.

The checker compares resolved types for equality. It never tells convertible types apart,
since convertible resolved types are equal, and it finds a type of the form that a rule asks for,
since a resolved type convertible with one of that form is of that form.

* `Fault.Exhausted` are the faults that mean a want of levels.
* `Check.Agrees`: a type is inferred that is convertible with a given one, or levels run out. For
  each rule there is a lemma that takes this from the parts of a term to the term.
* `Checker.infer_complete` puts them together, by induction over the derivation.
* `Checker.typeOf_complete`: completeness, and uniqueness of types.
-/

namespace PolyLambda

open Ty

/-- The faults that mean a want of levels. -/
def Fault.Exhausted : Fault → Prop
  | .type ⟨.tooDeep _, _⟩ => True
  | .outOfStack => True
  | _ => False

/-- Levels run out at the limit or on the machine. -/
theorem Fault.Exhausted.cases {e : Fault} (h : e.Exhausted) :
    e = .outOfStack ∨ ∃ depth span, e = .type ⟨.tooDeep depth, span⟩ := by
  unfold Exhausted at h
  split at h
  · next depth span => exact .inr ⟨depth, span, rfl⟩
  · exact .inl rfl
  · exact h.elim

theorem Limit.overrun_exhausted (limit : Limit) (span : Option Span) :
    (limit.overrun span).Exhausted := by
  unfold overrun
  split <;> trivial

namespace Check

variable {Γ : Context} {Δ : Telescope} {limit : Limit} {infer : Term → Check Ty} {A B C S T : Ty}
  {s : Option Span}

/-- A type as the checker gives it that is convertible with `S`. -/
abbrev Found (Γ : Context) (S T : Ty) : Prop :=
  T.Inferred Γ.aliases Γ.limit.levels ∧ Conv Γ.aliases S T

/-- A type convertible with `S` is inferred, or levels run out. -/
abbrev Agrees (x : Check Ty) (Γ : Context) (S : Ty) : Prop :=
  x.Meets True Γ (Found Γ S) Fault.Exhausted

/-- Types that are convertible with one type are found equal. -/
theorem Found.eq {U V : Ty} (hcl : Γ.aliases.Closed) (hU : Found Γ S U) (hV : Found Γ S V) :
    U = V :=
  (hU.2.symm.trans hV.2).eq_of_resolved hcl hU.1.resolved hV.1.resolved

/-- Two types that are both resolved and convertible with a third are the same, so the comparison
succeeds. -/
theorem expect_found {U V : Ty} {part whole : Term} (hcl : Γ.aliases.Closed) (hU : Found Γ S U)
    (hV : Found Γ S V) :
    (expect U V part whole).Meets True Γ (fun _ => V = U) Fault.Exhausted :=
  meets_expect fun _ hne => absurd (hV.eq hcl hU) hne

/-! ## one step of the checker -/

/-- What a rule does: a type convertible with `S` is given, or levels run out. -/
abbrev Arrives (x : Check Ty) (Γ : Context) (S : Ty) : Prop :=
  x.Meets True Γ (Conv Γ.aliases S) Fault.Exhausted

/-- A variable that is seen at a type is found at one convertible with it. -/
theorem arrives_var {i : Nat} (hsees : Sees Γ Δ) (hi : Δ.lookup i = some T) :
    Arrives (rule limit infer (.var i s)) Γ T := by
  obtain ⟨-, hnone⟩ | ⟨e, S, he, hS, hd, hconv⟩ := hsees.represents.lookup hsees.closed i
  · rw [hnone] at hi
    contradiction
  obtain rfl := Option.some.inj (hS.symm.trans hi)
  have hentry : Γ.entry? i = some e := he
  have hwf : e.ty.WellFormed := (hsees.good.settled e (Context.mem_of_entry hentry)).wellFormed
  refine .bind (P := fun r => r = some (e.ty.lift (Γ.depth - e.depth) 0)) (.ask ?_ ?_) ?_
  · exact fun r hr => Context.find_ok hentry hd hr
  · intro f hf _
    rw [Context.find_error hentry hd hwf hf]
    exact Γ.limit.overrun_exhausted none
  · intro r hr
    rw [hr]
    exact .pure hconv

/-- The body is checked in a context that sees the parameter at its written type. -/
theorem arrives_abs {body : Term} (hsees : Sees Γ Δ)
    (h : Ready True Fault.Exhausted Γ (.abs A body s))
    (hbody : ∀ U, Sees (Γ.bindOne U) (.term A :: Δ) →
      Ready True Fault.Exhausted (Γ.bindOne U) body → Agrees (infer body) (Γ.bindOne U) B) :
    Arrives (rule limit infer (.abs A body s)) Γ (.arrow A B) := by
  refine (h.resolve (by simp)).bind fun A' hA' => ?_
  have hconv : Conv Γ.aliases A A' := .of_steps hA'.1
  refine .bind (P := fun B' => Conv Γ.aliases B B') ?_ fun B' hB' => .pure (hconv.arrow hB')
  refine h.binding_one hA'.2.inferred fun U hU h' => ?_
  have hpart := h'.part (u := body) (by simp)
  exact (hbody U (hsees.bindOne hconv hU) hpart).mono fun B' hB' => hB'.2

/-- A type that is convertible with an arrow, and resolved, is an arrow. -/
theorem arrives_app {fn arg : Term} (hcl : Γ.aliases.Closed)
    (hf : Agrees (infer fn) Γ (.arrow A B)) (ha : Agrees (infer arg) Γ A) :
    Arrives (rule limit infer (.app fn arg s)) Γ B := by
  refine hf.bind fun F hF => ?_
  obtain ⟨dom, cod, rfl, hdom, hcod⟩ := hF.2.arrow_inv hcl hF.1.resolved
  refine ha.bind fun A' hA' => ?_
  have hfound : Found Γ A dom := ⟨hF.1.child (by simp [children]), .of_steps hdom⟩
  refine (expect_found hcl hfound hA').bind fun _ _ => ?_
  exact .pure (.of_steps hcod)

theorem arrives_fix {inner : Term} (hcl : Γ.aliases.Closed)
    (hf : Agrees (infer inner) Γ (.arrow A A)) :
    Arrives (rule limit infer (.fix inner s)) Γ A := by
  refine hf.bind fun F hF => ?_
  obtain ⟨dom, cod, rfl, hdom, hcod⟩ := hF.2.arrow_inv hcl hF.1.resolved
  have hdom' : Found Γ A dom := ⟨hF.1.child (by simp [children]), .of_steps hdom⟩
  have hcod' : Found Γ A cod := ⟨hF.1.child (by simp [children]), .of_steps hcod⟩
  refine (expect_found hcl hdom' hcod').bind fun _ _ => ?_
  exact .pure hdom'.2

/-- The branches are convertible and resolved, so they are found to be the same. -/
theorem arrives_ite {guard yes no : Term} (hcl : Γ.aliases.Closed)
    (hg : Agrees (infer guard) Γ .bool) (hy : Agrees (infer yes) Γ A)
    (hn : Agrees (infer no) Γ A) : Arrives (rule limit infer (.ite guard yes no s)) Γ A := by
  refine hg.bind fun G hG => ?_
  rw [hG.2.base_inv hcl hG.1.resolved, if_pos rfl]
  refine hy.bind fun A' hA' => ?_
  refine hn.bind fun B' hB' => ?_
  rw [if_pos (hA'.eq hcl hB')]
  exact .pure hA'.2

/-- The annotation resolves to a variant with the same labels. -/
theorem arrives_inject {label : String} {payload : Term} {V : Ty} {fields : List (Field Ty)}
    (hcl : Γ.aliases.Closed) (h : Ready True Fault.Exhausted Γ (.inject label payload V s))
    (hV : Conv Γ.aliases V (.variant fields)) (hl : ⟨label, A⟩ ∈ fields)
    (hp : Agrees (infer payload) Γ A) :
    Arrives (rule limit infer (.inject label payload V s)) Γ V := by
  refine (h.resolve (by simp)).bind fun V' hV' => ?_
  have hconv : Conv Γ.aliases V V' := .of_steps hV'.1
  obtain ⟨gs, rfl, hlabels, hsteps⟩ := (hV.symm.trans hconv).variant_inv hcl hV'.2.resolved
  obtain ⟨U, hU, hstep⟩ := exists_field_of_steps hlabels hsteps hl
  have hfield : field? gs label = some U := (Coverage.field?_eq_some hV'.2.wellFormed).2 hU
  have hfound : Found Γ A U := ⟨hV'.2.inferred.child (List.mem_map_of_mem hU), .of_steps hstep⟩
  simp only [hfield]
  refine hp.bind fun A' hA' => ?_
  refine (expect_found hcl hfound hA').bind fun _ _ => ?_
  exact .pure hconv

/-- The type that is found is a product with as many components. -/
theorem arrives_proj {inner : Term} {Ts : List Ty} {i : Nat} (hcl : Γ.aliases.Closed)
    (hp : Agrees (infer inner) Γ (.product Ts)) (hi : Ts[i]? = some T) :
    Arrives (rule limit infer (.proj inner i s)) Γ T := by
  refine hp.bind fun F hF => ?_
  obtain ⟨Us, rfl, hUs⟩ := hF.2.product_inv hcl hF.1.resolved
  obtain ⟨U, hU, hstep⟩ := getElem?_of_forall₂ hUs hi
  have hitem : item? Us i = some U := hU
  simp only [hitem]
  exact .pure (.of_steps hstep)

/-- Convertible components make convertible products. -/
theorem arrives_tuple {items : List Term} {Ts : List Ty} (hlen : items.length = Ts.length)
    (h : ∀ t T, (t, T) ∈ items.zip Ts → Agrees (infer t) Γ T) :
    Arrives (rule limit infer (.tuple items s)) Γ (.product Ts) := by
  have hitems : List.Forall₂ (fun t T => Agrees (infer t) Γ T) items Ts :=
    List.forall₂_iff_zip.2 ⟨hlen, fun {t T} ht => h t T ht⟩
  refine (meets_mapM hitems).bind fun Us hUs => ?_
  exact .pure (.product (hUs.imp fun T U hU => hU.2))

/-- The body is checked in a context that sees what is bound at the type it has. -/
theorem arrives_letIn {bound body : Term} (hsees : Sees Γ Δ)
    (h : Ready True Fault.Exhausted Γ (.letIn bound body s)) (hb : Agrees (infer bound) Γ A)
    (hbody : ∀ U, Sees (Γ.bindOne U) (.term A :: Δ) →
      Ready True Fault.Exhausted (Γ.bindOne U) body → Agrees (infer body) (Γ.bindOne U) B) :
    Arrives (rule limit infer (.letIn bound body s)) Γ B := by
  refine hb.bind fun A' hA' => ?_
  refine h.binding_one hA'.1 fun U hU h' => ?_
  have hpart := h'.part (u := body) (by simp)
  exact (hbody U (hsees.bindOne hA'.2 hU) hpart).mono fun B' hB' => hB'.2

theorem arrives_tyAbs {body : Term} (hsees : Sees Γ Δ)
    (hbody : Agrees (infer body) Γ.openScope B) :
    Arrives (rule limit infer (.tyAbs body s)) Γ (.binder .all B) := by
  refine .bind (.inScope hsees.good.balanced hbody) fun B' hB' => ?_
  exact .pure hB'.2.binder

/-- Instances of convertible bodies at convertible arguments are convertible. -/
theorem arrives_tyApp {inner : Term} (hcl : Γ.aliases.Closed)
    (h : Ready True Fault.Exhausted Γ (.tyApp inner A s))
    (hf : Agrees (infer inner) Γ (.binder .all B)) :
    Arrives (rule limit infer (.tyApp inner A s)) Γ (B.inst A) := by
  refine (h.resolve (by simp)).bind fun A' hA' => ?_
  refine hf.bind fun F hF => ?_
  obtain ⟨body, rfl, hbody⟩ := hF.2.binder_inv hcl hF.1.resolved
  have hwf : body.WellFormed := (hF.1.child (by simp [children])).wellFormed
  refine (h.instantiate hwf hA'.2.wellFormed).mono fun U hU => ?_
  exact .inst_steps hcl (.of_steps hbody) (.of_steps hA'.1) hU.1

/-- The instance at the resolved recursive type is convertible with that at the written one. -/
theorem arrives_roll {R : Ty} {inner : Term} (hcl : Γ.aliases.Closed)
    (h : Ready True Fault.Exhausted Γ (.roll R inner s))
    (hR : Conv Γ.aliases R (.binder .mu B)) (hi : Agrees (infer inner) Γ (B.inst R)) :
    Arrives (rule limit infer (.roll R inner s)) Γ R := by
  refine (h.resolve (by simp)).bind fun R' hR' => ?_
  have hconv : Conv Γ.aliases R R' := .of_steps hR'.1
  obtain ⟨body, rfl, hbody⟩ := (hR.symm.trans hconv).binder_inv hcl hR'.2.resolved
  have hwf : body.WellFormed := hR'.2.wellFormed.child (by simp [children])
  refine (h.instantiate hwf hR'.2.wellFormed).bind fun U hU => ?_
  refine hi.bind fun A hA => ?_
  have hunrolled : Conv Γ.aliases (B.inst R) U :=
    .inst_steps hcl (.of_steps hbody) hconv hU.1
  refine (expect_found hcl ⟨hU.2.inferred, hunrolled⟩ hA).bind fun _ _ => ?_
  exact .pure hconv

theorem arrives_unroll {R : Ty} {inner : Term} (hcl : Γ.aliases.Closed)
    (h : Ready True Fault.Exhausted Γ (.unroll R inner s))
    (hR : Conv Γ.aliases R (.binder .mu B)) (hi : Agrees (infer inner) Γ R) :
    Arrives (rule limit infer (.unroll R inner s)) Γ (B.inst R) := by
  refine (h.resolve (by simp)).bind fun R' hR' => ?_
  have hconv : Conv Γ.aliases R R' := .of_steps hR'.1
  obtain ⟨body, rfl, hbody⟩ := (hR.symm.trans hconv).binder_inv hcl hR'.2.resolved
  have hwf : body.WellFormed := hR'.2.wellFormed.child (by simp [children])
  refine hi.bind fun A hA => ?_
  refine (expect_found hcl ⟨hR'.2.inferred, hconv⟩ hA).bind fun _ _ => ?_
  refine (h.instantiate hwf hR'.2.wellFormed).mono fun U hU => ?_
  exact .inst_steps hcl (.of_steps hbody) hconv hU.1

/-- The instance at the resolved witness is convertible with that at the written one. -/
theorem arrives_pack {W X : Ty} {inner : Term} (hcl : Γ.aliases.Closed)
    (h : Ready True Fault.Exhausted Γ (.pack W inner X s))
    (hX : Conv Γ.aliases X (.binder .ex B)) (hi : Agrees (infer inner) Γ (B.inst W)) :
    Arrives (rule limit infer (.pack W inner X s)) Γ X := by
  refine (h.resolve (by simp)).bind fun W' hW' => ?_
  refine (h.resolve (T := X) (by simp)).bind fun X' hX' => ?_
  have hconv : Conv Γ.aliases X X' := .of_steps hX'.1
  obtain ⟨body, rfl, hbody⟩ := (hX.symm.trans hconv).binder_inv hcl hX'.2.resolved
  have hwf : body.WellFormed := hX'.2.wellFormed.child (by simp [children])
  refine (h.instantiate hwf hW'.2.wellFormed).bind fun U hU => ?_
  refine hi.bind fun A hA => ?_
  have hopened : Conv Γ.aliases (B.inst W) U :=
    .inst_steps hcl (.of_steps hbody) (.of_steps hW'.1) hU.1
  refine (expect_found hcl ⟨hU.2.inferred, hopened⟩ hA).bind fun _ _ => ?_
  exact .pure hconv

/-- The type of the body is convertible with a lift, so what it reduces to does not mention what is
hidden, either. -/
theorem arrives_unpack {package body : Term} (hsees : Sees Γ Δ)
    (h : Ready True Fault.Exhausted Γ (.unpack package body s))
    (hp : Agrees (infer package) Γ (.binder .ex B))
    (hbody : ∀ U, Sees (Γ.openScope.bindOne U) (.term B :: .scope :: Δ) →
      Ready True Fault.Exhausted (Γ.openScope.bindOne U) body →
      Agrees (infer body) (Γ.openScope.bindOne U) (C.lift 1 0)) :
    Arrives (rule limit infer (.unpack package body s)) Γ C := by
  refine hp.bind fun F hF => ?_
  obtain ⟨hidden, rfl, hhidden⟩ := hF.2.binder_inv hsees.closed hF.1.resolved
  refine .bind (P := Found Γ (C.lift 1 0)) (.inScope hsees.good.balanced ?_) fun X hX => ?_
  · refine h.openScope.binding_one (hF.1.child (by simp [children])) fun U hU h' => ?_
    have hpart := h'.part (u := body) (by simp)
    exact hbody U (hsees.openScope.bindOne (.of_steps hhidden) hU) hpart
  · -- the inferred type is a lifted one, since the type it computes from is
    have hsteps := hX.2.steps_of_resolved hsees.closed hX.1.resolved
    obtain ⟨C', hC', rfl⟩ := hsteps.of_lift hsees.closed
    have hw : True → (C'.lift 1 0).WellFormed ∧ (limit.overrun none).Exhausted ∧
        (¬ (C'.lift 1 0).Avoids → Fault.Exhausted (.type ⟨.escape (C'.lift 1 0), s⟩)) := fun _ =>
      ⟨hX.1.wellFormed, limit.overrun_exhausted none, fun hesc => absurd (avoids_lift C') hesc⟩
    refine (meets_lower hw).mono fun U hU => ?_
    rw [← lift_one_injective hU]
    exact .of_steps hC'

/-- Covering depends on labels only, and patterns open convertible types alike. -/
theorem arrives_caseOf {scrutinee : Term} {arms : List (Arm Term)} {fields : List (Field Ty)}
    {bound : List (List Ty)} (hsees : Sees Γ Δ)
    (h : Ready True Fault.Exhausted Γ (.caseOf scrutinee arms s))
    (hs : Agrees (infer scrutinee) Γ (.variant fields))
    (hcov : Covers (labels fields) (arms.map (·.pattern)))
    (hb : List.Forall₂ (fun a Ts => a.pattern.Opens (Conv Γ.aliases) fields Ts) arms bound)
    (harms : ∀ a Ts, (a, Ts) ∈ arms.zip bound → ∀ Us, Sees (Γ.bind Us) (Δ.bind Ts) →
      Ready True Fault.Exhausted (Γ.bind Us) a.body → Agrees (infer a.body) (Γ.bind Us) C) :
    Arrives (rule limit infer (.caseOf scrutinee arms s)) Γ C := by
  refine hs.bind fun V hV => ?_
  have hsteps := hV.2.steps_of_resolved hsees.closed hV.1.resolved
  obtain ⟨gs, rfl, hlabels, -⟩ := hV.2.variant_inv hsees.closed hV.1.resolved
  obtain ⟨bound', hopens, hbound⟩ :=
    Pattern.exists_opens_of_conv hsees.closed hb hsteps hV.1.resolved
  have hcov' : Covers (labels gs) (arms.map (·.pattern)) := hlabels ▸ hcov
  have hcheck : Coverage.check gs s arms = .ok bound' :=
    (Coverage.check_eq_ok hV.1.wellFormed).2 ⟨hcov', hopens⟩
  have hne := hcov'.zip_ne_nil hopens
  refine .bind (P := fun b => b = bound') (.ofExcept ?_ ?_) ?_
  · intro b hb
    exact Except.ok.inj ((mapError_eq_ok.1 hb).symm.trans hcheck)
  · intro e he _
    simp [hcheck, Except.mapError] at he
  · rintro b rfl
    refine (meets_armsType (R := fun _ T => Found Γ C T) hne ?_ ?_).mono fun T hT => ?_
    · rintro ⟨a, Us⟩ ha
      obtain ⟨Ts, hTs, hconv⟩ := hbound a Us ha
      have hbody : a.body ∈ (Term.caseOf scrutinee arms s).subterms := by
        simpa using .inr ⟨a, (List.of_mem_zip ha).1, rfl⟩
      refine h.arm (List.forall₂_zip hopens ha) hV.1.settled fun Vs hVs h' => ?_
      have harm := harms a Ts hTs Vs (hsees.bind hconv hVs) (h'.part hbody)
      rwa [bind_eq] at harm ⊢
    · intro _ a _ b _ T U hT hU hne
      exact absurd (hU.eq hsees.closed hT) hne
    · obtain ⟨a, ha⟩ := List.exists_mem_of_ne_nil _ hne
      exact (hT a ha).2

end Check

/-! ## the checker -/

namespace Checker

open Check

variable {c : Checker} {n : Nat} {t : Term} {Γ : Context} {Δ : Telescope} {S : Ty}

/-- Wherever the checker may work on `t`, with any number of levels, it gives a type convertible
with `S` or runs out of levels. -/
abbrev Completes (c : Checker) (aliases : Aliases) (Δ : Telescope) (t : Term) (S : Ty) : Prop :=
  ∀ (n : Nat) (Γ : Context), Γ.aliases = aliases → Sees Γ Δ → Ready True Fault.Exhausted Γ t →
    Agrees (c.infer n t) Γ S

/-- What the rules do, the checker does. -/
theorem completes_of_rule {aliases : Aliases}
    (h : ∀ (n : Nat) (Γ : Context), Γ.aliases = aliases → Sees Γ Δ →
      Ready True Fault.Exhausted Γ t → Arrives (rule c.limit (c.infer n) t) Γ S) :
    c.Completes aliases Δ t S := by
  intro n Γ hal hsees hready
  have hregular := c.infer_inferred n t Γ
    ⟨hready.good, hready.wellFormed, fun _ => Limit.overrun_expected⟩
  have harrives : Arrives (c.infer n t) Γ S := by
    cases n with
    | zero =>
      have hwf := (hready.wellFormed trivial).2
      exact .fail fun _ => hwf.overrun_eq ▸ c.limit.overrun_exhausted t.span
    | succ n => exact meets_infer (h n Γ hal hsees hready)
  exact (harrives.and hregular).mono fun T hT => hT.symm

/-- Where a type is derivable, the checker gives a convertible one or runs out of levels. The
induction is over the derivation; the conversion rule only changes what the type is compared
with. -/
theorem infer_complete {aliases : Aliases} (h : Typed aliases Δ t S) :
    c.Completes aliases Δ t S := by
  induction h with
  | lit =>
    refine completes_of_rule fun n Γ hal hsees hready => ?_
    exact .pure (.refl _)
  | var hi =>
    refine completes_of_rule ?_
    rintro n Γ rfl hsees hready
    exact arrives_var hsees hi
  | abs _ ih =>
    refine completes_of_rule ?_
    rintro n Γ rfl hsees hready
    exact arrives_abs hsees hready fun U hs hr => ih n _ rfl hs hr
  | app _ _ ihf iha =>
    refine completes_of_rule ?_
    rintro n Γ rfl hsees hready
    have hf := ihf n Γ rfl hsees (hready.part (by simp))
    have ha := iha n Γ rfl hsees (hready.part (by simp))
    exact arrives_app hsees.closed hf ha
  | fix _ ih =>
    refine completes_of_rule ?_
    rintro n Γ rfl hsees hready
    exact arrives_fix hsees.closed (ih n Γ rfl hsees (hready.part (by simp)))
  | ite _ _ _ ihg ihy ihn =>
    refine completes_of_rule ?_
    rintro n Γ rfl hsees hready
    have hg := ihg n Γ rfl hsees (hready.part (by simp))
    have hy := ihy n Γ rfl hsees (hready.part (by simp))
    have hn := ihn n Γ rfl hsees (hready.part (by simp))
    exact arrives_ite hsees.closed hg hy hn
  | inject hV hl _ ih =>
    refine completes_of_rule ?_
    rintro n Γ rfl hsees hready
    have hp := ih n Γ rfl hsees (hready.part (by simp))
    exact arrives_inject hsees.closed hready hV hl hp
  | proj _ hi ih =>
    refine completes_of_rule ?_
    rintro n Γ rfl hsees hready
    exact arrives_proj hsees.closed (ih n Γ rfl hsees (hready.part (by simp))) hi
  | tuple hlen _ ih =>
    refine completes_of_rule ?_
    rintro n Γ rfl hsees hready
    refine arrives_tuple hlen fun t T ht => ih t T ht n Γ rfl hsees (hready.part ?_)
    simpa using (List.of_mem_zip ht).1
  | letIn _ _ ihb ih =>
    refine completes_of_rule ?_
    rintro n Γ rfl hsees hready
    have hb := ihb n Γ rfl hsees (hready.part (by simp))
    exact arrives_letIn hsees hready hb fun U hs hr => ih n _ rfl hs hr
  | tyAbs _ ih =>
    refine completes_of_rule ?_
    rintro n Γ rfl hsees hready
    exact arrives_tyAbs hsees (ih n _ rfl hsees.openScope (hready.openScope.part (by simp)))
  | tyApp _ ih =>
    refine completes_of_rule ?_
    rintro n Γ rfl hsees hready
    exact arrives_tyApp hsees.closed hready (ih n Γ rfl hsees (hready.part (by simp)))
  | roll hR _ ih =>
    refine completes_of_rule ?_
    rintro n Γ rfl hsees hready
    exact arrives_roll hsees.closed hready hR (ih n Γ rfl hsees (hready.part (by simp)))
  | unroll hR _ ih =>
    refine completes_of_rule ?_
    rintro n Γ rfl hsees hready
    exact arrives_unroll hsees.closed hready hR (ih n Γ rfl hsees (hready.part (by simp)))
  | pack hE _ ih =>
    refine completes_of_rule ?_
    rintro n Γ rfl hsees hready
    exact arrives_pack hsees.closed hready hE (ih n Γ rfl hsees (hready.part (by simp)))
  | unpack _ _ ihp ih =>
    refine completes_of_rule ?_
    rintro n Γ rfl hsees hready
    have hp := ihp n Γ rfl hsees (hready.part (by simp))
    exact arrives_unpack hsees hready hp fun U hs hr => ih n _ rfl hs hr
  | caseOf _ hcov hb _ ihs ih =>
    refine completes_of_rule ?_
    rintro n Γ rfl hsees hready
    have hs := ihs n Γ rfl hsees (hready.part (by simp))
    refine arrives_caseOf hsees hready hs hcov hb fun a Ts ha Us hs hr => ?_
    exact ih a Ts ha n _ (by rw [bind_eq]) hs hr
  -- the only rule that is not about a form of term: the type found is convertible with both
  | conv _ hAB ih =>
    rintro n Γ rfl hsees hready
    exact (ih n Γ rfl hsees hready).mono fun T hT => ⟨hT.1, hAB.symm.trans hT.2⟩

/-- A want of levels is reported as nesting beyond the limit. -/
theorem typeOf_exhausted {e : Fault} (h : ((c.infer c.limit.levels t).run Γ).result = .error e)
    (he : e.Exhausted) :
    ∃ depth span, ((c.typeOf t).run Γ).result = .error (.type ⟨.tooDeep depth, span⟩) := by
  obtain ⟨depth, span, hsettle⟩ : ∃ depth span, c.settle t e = .type ⟨.tooDeep depth, span⟩ := by
    obtain rfl | ⟨depth, span, rfl⟩ := he.cases
    · exact ⟨c.limit.depth, t.span, rfl⟩
    · exact ⟨depth, span, rfl⟩
  refine ⟨depth, span, ?_⟩
  cases hrun : (c.infer c.limit.levels t).run Γ with
  | mk result Γ' log =>
    rw [hrun] at h
    obtain rfl : result = .error e := h
    simp only [run_typeOf, conclude, hrun, hsettle]

/-- Completeness and uniqueness of types. Over well-formed closed definitions, if a well-formed
term has a type without binders, then the checker gives a type convertible with it, or the nesting
exceeds the limit. Two types of the term are convertible, unless it does. -/
theorem typeOf_complete (c : Checker) (hcl : c.aliases.Closed) (hal : c.aliases.WellFormed)
    (t : Term) (ht : t.WellFormed) :
    (∀ S, Typed c.aliases [] t S →
      (∃ T, (c.typeOfClosed t).result = .ok T ∧ Conv c.aliases T S) ∨
        ∃ depth span, (c.typeOfClosed t).result = .error (.type ⟨.tooDeep depth, span⟩)) ∧
    ((∀ depth span, (c.typeOfClosed t).result ≠ .error (.type ⟨.tooDeep depth, span⟩)) →
      ∀ S S', Typed c.aliases [] t S → Typed c.aliases [] t S' → Conv c.aliases S S') := by
  have hsees : Sees c.freshContext [] := ⟨hcl, Context.good_fresh c.aliases c.limit, .nil⟩
  have hready : Ready True Fault.Exhausted c.freshContext t :=
    ⟨hsees.good, fun _ => ⟨hal, ht⟩, fun _ => Limit.overrun_exhausted⟩
  have hcomplete : ∀ S, Typed c.aliases [] t S →
      (∃ T, (c.typeOfClosed t).result = .ok T ∧ Conv c.aliases T S) ∨
        ∃ depth span, (c.typeOfClosed t).result = .error (.type ⟨.tooDeep depth, span⟩) := by
    intro S hS
    cases infer_complete hS c.limit.levels c.freshContext rfl hsees hready with
    | @ok T _ h hT => exact .inl ⟨T, typeOf_eq_ok.2 (by rw [h]), hT.2.symm⟩
    | error h he => exact .inr (typeOf_exhausted (congrArg Outcome.result h) (he trivial).2)
  refine ⟨hcomplete, fun hlimit S S' hS hS' => ?_⟩
  obtain ⟨T, hT, hconv⟩ | ⟨depth, span, herr⟩ := hcomplete S hS
  · obtain ⟨T', hT', hconv'⟩ | ⟨depth, span, herr⟩ := hcomplete S' hS'
    · obtain rfl := Except.ok.inj (hT.symm.trans hT')
      exact hconv.symm.trans hconv'
    · exact absurd herr (hlimit depth span)
  · exact absurd herr (hlimit depth span)

theorem numbers_wellFormed : numbers.WellFormed :=
  Aliases.wellFormed_empty.insert (wellFormed_leaf ⟨nofun, trivial⟩ rfl)

/-- The identity function on the numbers, which are named in one of its types and not in the other.
All its types are convertible. -/
theorem typeOf_complete_numbers :
    numbers.Closed ∧ numbers.WellFormed ∧
      (typeOfClosed ⟨numbers, ⟨9, none⟩, false⟩ (.abs (.named "N") (.var 0 none) none)).result =
        .ok (.arrow .nat .nat) ∧
      Conv numbers (.arrow .nat .nat) (.arrow (.named "N") (.named "N")) ∧
      ∀ S, Typed numbers [] (.abs (.named "N") (.var 0 none) none) S →
        Conv numbers S (.arrow (.named "N") (.named "N")) := by
  have hresult : (typeOfClosed ⟨numbers, ⟨9, none⟩, false⟩
      (.abs (.named "N") (.var 0 none) none)).result = .ok (.arrow .nat .nat) := rfl
  have htyped : Typed numbers [] (.abs (.named "N") (.var 0 none) none)
      (.arrow (.named "N") (.named "N")) := .abs (.var rfl)
  obtain ⟨hcomplete, hunique⟩ := typeOf_complete ⟨numbers, ⟨9, none⟩, false⟩ numbers_closed
    numbers_wellFormed (.abs (.named "N") (.var 0 none) none) (Term.wellFormed_identity "N")
  obtain ⟨T, hT, hconv⟩ | ⟨_, _, herror⟩ := hcomplete _ htyped
  · obtain rfl := Except.ok.inj (hresult.symm.trans hT)
    refine ⟨numbers_closed, numbers_wellFormed, hresult, hconv, fun S hS => ?_⟩
    exact hunique (fun _ _ h => absurd (hresult.symm.trans h) nofun) S _ hS htyped
  · exact absurd (hresult.symm.trans herror) nofun

end Checker

end PolyLambda
