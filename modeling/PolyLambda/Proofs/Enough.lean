import PolyLambda.Proofs.Decided
import PolyLambda.Proofs.Program

/-!
# PolyLambda.Proofs.Enough

Without type operators, and over definitions that are not circular, every check has a limit that is
high enough for it. Types grow while a term is checked: names are replaced by their definitions,
recursive types are unrolled, binders are instantiated, and each type is walked through again when
it is bound, looked up or taken out of a scope. All types that come up are ground, however, so each
step has an answer that does not depend on the limit, and needs only as many levels as the types in
it nest deep.

* `Check.rule_decided` is the step from the parts of a term to the term.
* `Checker.infer_decided` is the induction over terms.
* `Checker.typeOfClosed_decided`: a high enough limit never stands in the way.
-/

namespace PolyLambda

open Ty

namespace Check

variable {aliases : Aliases} {Γ : Context} {infer : Limit → Nat → Term → Check Ty}
  {s : Option Span} {t : Term} {T : Ty}

/-! ## operations of the rules -/

/-- What the rules may assume of a part of a term. -/
abbrev DecidedPart (aliases : Aliases) (infer : Limit → Nat → Term → Check Ty) (t : Term) : Prop :=
  ∀ {Γ : Context}, Γ.Ground aliases → Decided (fun l n => infer l n t) Γ (·.Ground aliases)

/-- A type as it may be written. -/
abbrev Written (T : Ty) : Prop :=
  T.WellFormed ∧ T.OperatorFree

/-- A type that is written in a term is resolved, if levels suffice, to one that needs no more. -/
theorem decided_resolve (hal : aliases.Tame) (hΓ : Γ.Ground aliases) (hT : Written T) :
    Decided (fun _ _ => resolve T) Γ (·.Ground aliases) := by
  obtain rfl := hΓ.aliases_eq
  exact .ask (q := fun _ Γ => Γ.resolve T) (Context.decided_resolve hal hT)

/-- An instance of such types is such a type, and nothing in it is left to be applied. -/
theorem decided_instantiate {body A : Ty} (hΓ : Γ.Ground aliases) (hb : body.Ground aliases)
    (hA : A.Ground aliases) :
    Decided (fun l _ => instantiate l body A) Γ (·.Ground aliases) := by
  obtain rfl := hΓ.aliases_eq
  simp only [instantiate_eq]
  exact .ask (q := fun l Γ => Γ.instantiate l body A) (Context.decided_instantiate hb hA)

/-- Comparing types needs no levels. -/
theorem decided_expect {expected actual : Ty} {part whole : Term} :
    Decided (fun _ _ => expect expected actual part whole) Γ fun _ => True := by
  unfold expect
  split
  · exact .pure trivial
  · exact .reject not_false

/-- A type under a binder that is no operator is ground if its body is. -/
theorem ground_binder {b : Binder} (hb : ∀ kind, b ≠ .op kind) (hT : T.Ground aliases) :
    (Ty.binder b T).Ground aliases :=
  ⟨⟨⟨nofun, trivial⟩, nofun, fun kind h => hb kind (Shape.binder.inj h)⟩,
    List.forall_mem_singleton.2 hT⟩

theorem ground_arrow {A B : Ty} (hA : A.Ground aliases) (hB : B.Ground aliases) :
    (Ty.arrow A B).Ground aliases :=
  ⟨⟨⟨nofun, trivial⟩, nofun, nofun⟩, by simpa [children] using ⟨hA, hB⟩⟩

theorem ground_product {Ts : List Ty} (h : ∀ T ∈ Ts, T.Ground aliases) :
    (Ty.product Ts).Ground aliases :=
  ⟨⟨⟨nofun, trivial⟩, nofun, nofun⟩, h⟩

/-- Literals have ground types. -/
theorem ground_literal (value : Literal) : value.ty.Ground aliases := by
  have hbase : ∀ b, (Ty.base b).Ground aliases := fun b =>
    ⟨⟨⟨nofun, trivial⟩, nofun, nofun⟩, by simp [children]⟩
  cases value with
  | unit => exact hbase _
  | bool _ => exact hbase _
  | nat _ => exact hbase _
  | prim op => cases op <;> exact ground_arrow (hbase _) (hbase _)

/-! ## one step -/

/-- The type of the parameter is written, and the body is decided with it bound. -/
theorem decided_abs {P : Ty} {body : Term} (hal : aliases.Tame) (hΓ : Γ.Ground aliases)
    (hP : Written P) (hb : DecidedPart aliases infer body) :
    Decided (fun l n => rule l (infer l n) (.abs P body s)) Γ (·.Ground aliases) := by
  refine (decided_resolve hal hΓ hP).bind fun A hA => ?_
  refine .bind (.binding hΓ (by simpa using hA) hb) fun B hB => ?_
  exact .pure (ground_arrow hA hB)

/-- Two parts and a comparison. -/
theorem decided_app {fn arg : Term} (hΓ : Γ.Ground aliases) (hf : DecidedPart aliases infer fn)
    (ha : DecidedPart aliases infer arg) :
    Decided (fun l n => rule l (infer l n) (.app fn arg s)) Γ (·.Ground aliases) := by
  refine (hf hΓ).bind fun F hF => ?_
  refine (ha hΓ).bind fun A _ => ?_
  cases F with
  | arrow dom cod =>
    refine decided_expect.bind fun _ _ => ?_
    exact .pure (hF.child (by simp [children]))
  | _ => exact .reject not_false

theorem decided_fix {inner : Term} (hΓ : Γ.Ground aliases) (hi : DecidedPart aliases infer inner) :
    Decided (fun l n => rule l (infer l n) (.fix inner s)) Γ (·.Ground aliases) := by
  refine (hi hΓ).bind fun F hF => ?_
  cases F with
  | arrow dom cod =>
    refine decided_expect.bind fun _ _ => ?_
    exact .pure (hF.child (by simp [children]))
  | _ => exact .reject not_false

/-- The answer of the guard decides whether the branches are come to at all. -/
theorem decided_ite {guard yes no : Term} (hΓ : Γ.Ground aliases)
    (hg : DecidedPart aliases infer guard) (hy : DecidedPart aliases infer yes)
    (hn : DecidedPart aliases infer no) :
    Decided (fun l n => rule l (infer l n) (.ite guard yes no s)) Γ (·.Ground aliases) := by
  refine (hg hΓ).bind fun G _ => ?_
  by_cases hG : G = .bool
  · simp only [if_pos hG]
    refine (hy hΓ).bind fun A hA => ?_
    refine (hn hΓ).bind fun B _ => ?_
    split
    · exact .pure hA
    · exact .reject not_false
  · simp only [if_neg hG]
    exact .reject not_false

/-- The annotation is written; what it says of the label depends on no limit. -/
theorem decided_inject {label : String} {payload : Term} (hal : aliases.Tame)
    (hΓ : Γ.Ground aliases) (hp : DecidedPart aliases infer payload) (hT : Written T) :
    Decided (fun l n => rule l (infer l n) (.inject label payload T s)) Γ (·.Ground aliases) := by
  refine (decided_resolve hal hΓ hT).bind fun V hV => ?_
  cases V with
  | variant fields =>
    cases hl : field? fields label with
    | some A =>
      simp only [hl]
      refine (hp hΓ).bind fun B _ => ?_
      exact decided_expect.bind fun _ _ => .pure hV
    | none =>
      simp only [hl]
      exact .reject not_false
  | _ => exact .reject not_false

/-- Components of ground products are ground. -/
theorem decided_proj {inner : Term} {i : Int} (hΓ : Γ.Ground aliases)
    (hi : DecidedPart aliases infer inner) :
    Decided (fun l n => rule l (infer l n) (.proj inner i s)) Γ (·.Ground aliases) := by
  refine (hi hΓ).bind fun F hF => ?_
  cases F with
  | product Ts =>
    cases hT : item? Ts i with
    | some T =>
      simp only [hT]
      exact .pure (hF.child (mem_of_item hT))
    | none =>
      simp only [hT]
      exact .reject not_false
  | _ => exact .reject not_false

/-- The type that is bound is ground, since it was inferred. -/
theorem decided_letIn {bound body : Term} (hΓ : Γ.Ground aliases)
    (hb : DecidedPart aliases infer bound) (hbody : DecidedPart aliases infer body) :
    Decided (fun l n => rule l (infer l n) (.letIn bound body s)) Γ (·.Ground aliases) := by
  refine (hb hΓ).bind fun A hA => ?_
  exact .binding hΓ (by simpa using hA) hbody

/-- A scope does not change what is ground. -/
theorem decided_tyAbs {body : Term} (hΓ : Γ.Ground aliases) (hb : DecidedPart aliases infer body) :
    Decided (fun l n => rule l (infer l n) (.tyAbs body s)) Γ (·.Ground aliases) := by
  refine .bind (.inScope hΓ.balanced (hb hΓ.openScope)) fun B hB => ?_
  exact .pure (ground_binder nofun hB)

/-- The instance at a ground argument is ground. -/
theorem decided_tyApp {inner : Term} (hal : aliases.Tame) (hΓ : Γ.Ground aliases)
    (hi : DecidedPart aliases infer inner) (hT : Written T) :
    Decided (fun l n => rule l (infer l n) (.tyApp inner T s)) Γ (·.Ground aliases) := by
  refine (decided_resolve hal hΓ hT).bind fun A hA => ?_
  refine (hi hΓ).bind fun F hF => ?_
  cases F with
  | binder b body =>
    cases b with
    | all => exact decided_instantiate hΓ (hF.child (by simp [children])) hA
    | _ => exact .reject not_false
  | _ => exact .reject not_false

/-- A recursive type is unrolled once, which is an instance. -/
theorem decided_roll {inner : Term} (hal : aliases.Tame) (hΓ : Γ.Ground aliases)
    (hT : Written T) (hi : DecidedPart aliases infer inner) :
    Decided (fun l n => rule l (infer l n) (.roll T inner s)) Γ (·.Ground aliases) := by
  refine (decided_resolve hal hΓ hT).bind fun R hR => ?_
  cases R with
  | binder b body =>
    cases b with
    | mu =>
      refine (decided_instantiate hΓ (hR.child (by simp [children])) hR).bind fun U _ => ?_
      refine (hi hΓ).bind fun A _ => ?_
      exact decided_expect.bind fun _ _ => .pure hR
    | _ => exact .reject not_false
  | _ => exact .reject not_false

/-- So is what the inner term unrolls to. -/
theorem decided_unroll {inner : Term} (hal : aliases.Tame) (hΓ : Γ.Ground aliases)
    (hT : Written T) (hi : DecidedPart aliases infer inner) :
    Decided (fun l n => rule l (infer l n) (.unroll T inner s)) Γ (·.Ground aliases) := by
  refine (decided_resolve hal hΓ hT).bind fun R hR => ?_
  cases R with
  | binder b body =>
    cases b with
    | mu =>
      refine (hi hΓ).bind fun A _ => ?_
      refine decided_expect.bind fun _ _ => ?_
      exact decided_instantiate hΓ (hR.child (by simp [children])) hR
    | _ => exact .reject not_false
  | _ => exact .reject not_false

/-- The witness is written, and the instance at it is ground. -/
theorem decided_pack {W : Ty} {inner : Term} (hal : aliases.Tame) (hΓ : Γ.Ground aliases)
    (hW : Written W) (hT : Written T) (hi : DecidedPart aliases infer inner) :
    Decided (fun l n => rule l (infer l n) (.pack W inner T s)) Γ (·.Ground aliases) := by
  refine (decided_resolve hal hΓ hW).bind fun V hV => ?_
  refine (decided_resolve hal hΓ hT).bind fun E hE => ?_
  cases E with
  | binder b body =>
    cases b with
    | ex =>
      refine (decided_instantiate hΓ (hE.child (by simp [children])) hV).bind fun U _ => ?_
      refine (hi hΓ).bind fun A _ => ?_
      exact decided_expect.bind fun _ _ => .pure hE
    | _ => exact .reject not_false
  | _ => exact .reject not_false

/-- What is hidden is bound in a scope; the type of the body is lowered out of it. -/
theorem decided_unpack {package body : Term} (hΓ : Γ.Ground aliases)
    (hp : DecidedPart aliases infer package) (hb : DecidedPart aliases infer body) :
    Decided (fun l n => rule l (infer l n) (.unpack package body s)) Γ (·.Ground aliases) := by
  refine (hp hΓ).bind fun X hX => ?_
  cases X with
  | binder b hidden =>
    cases b with
    | ex =>
      have hhidden : ∀ T ∈ [hidden], T.Ground aliases :=
        List.forall_mem_singleton.2 (hX.child (by simp [children]))
      refine .bind (.inScope hΓ.balanced (.binding hΓ.openScope hhidden hb)) fun B hB => ?_
      simp only [lower_eq]
      exact .ask (q := fun l _ => l.lower B s) (Limit.decided_lower hB)
    | _ => exact .reject not_false
  | _ => exact .reject not_false

/-! ## the arms of a case -/

/-- What is wrong with a pattern is never the depth of nesting. -/
theorem coverage_step_error {fields : List (Field Ty)} {seen : Coverage.Progress} {p : Pattern}
    {m : Mistake} (h : Coverage.step fields seen p = .error m) (depth : Int) :
    m ≠ .tooDeep depth := by
  rintro rfl
  cases p with
  | product items => simp [Coverage.step] at h
  | wild | bind =>
    simp only [Coverage.step, Coverage.catchAll] at h
    split at h <;> simp at h
  | con label payload =>
    simp only [Coverage.step, Coverage.catchLabel] at h
    split at h
    · simp at h
    · split at h
      · simp at h
      · obtain h | ⟨_, _, h⟩ := bind_eq_error.1 h
        · obtain ⟨_, _, h⟩ := mapError_eq_error.1 h
          contradiction
        · contradiction

/-- Nor what is wrong with the patterns of a case. -/
theorem coverage_steps_error {fields : List (Field Ty)} {seen : Coverage.Progress}
    {arms : List (Arm Term)} {e : TypeError} (h : Coverage.steps fields s seen arms = .error e)
    (depth : Int) : e.mistake ≠ .tooDeep depth := by
  induction arms generalizing seen with
  | nil => simp [Coverage.steps] at h
  | cons a arms ih =>
    rw [Coverage.steps] at h
    obtain h | ⟨p, -, h⟩ := bind_eq_error.1 h
    · obtain ⟨m, hm, rfl⟩ := mapError_eq_error.1 h
      exact coverage_step_error hm depth
    · obtain h | ⟨_, -, h⟩ := bind_eq_error.1 h
      · exact ih h
      · contradiction

/-- The check of the arms does not depend on levels. -/
theorem coverage_check_error {fields : List (Field Ty)} {arms : List (Arm Term)} {e : TypeError}
    (h : Coverage.check fields s arms = .error e) (depth : Int) : e.mistake ≠ .tooDeep depth := by
  unfold Coverage.check at h
  split at h
  · rw [← Except.error.inj h]
    exact nofun
  · obtain h | ⟨p, -, h⟩ := bind_eq_error.1 h
    · exact coverage_steps_error h depth
    · dsimp only at h
      split at h
      · contradiction
      · rw [← Except.error.inj h]
        exact nofun

/-- The patterns are checked against a type, without levels. -/
theorem decided_coverage {fields : List (Field Ty)} {arms : List (Arm Term)} :
    Decided (fun _ _ => ofExcept ((Coverage.check fields s arms).mapError .type)) Γ
      fun bound => Coverage.check fields s arms = .ok bound := by
  refine .ask (q := fun _ _ => (Coverage.check fields s arms).mapError .type) ?_
  cases hcheck : Coverage.check fields s arms with
  | ok bound => exact .ok ⟨0, fun _ _ => rfl⟩ rfl
  | error e =>
    exact .error ⟨0, fun _ _ => rfl⟩ (Fault.not_exhausted (coverage_check_error hcheck))

/-- The arms are decided one after another. -/
theorem decided_armsType {arms : List (Arm Term × List Ty)} (hne : arms ≠ [])
    (h : ∀ a ∈ arms, Decided (fun l n => Check.binding a.2 (infer l n a.1.body)) Γ
      (·.Ground aliases)) :
    Decided (fun l n => armsType (infer l n) s arms) Γ (·.Ground aliases) := by
  cases arms with
  | nil => exact absurd rfl hne
  | cons first rest =>
    obtain ⟨hfirst, hrest⟩ := List.forall_mem_cons.1 h
    simp only [armsType]
    refine hfirst.bind fun T hT => ?_
    refine .bind (.forM fun a ha => ?_) fun _ _ => .pure hT
    refine (hrest a ha).bind fun U _ => ?_
    split
    · exact .pure trivial
    · exact .reject not_false

/-- The types that patterns bind are parts of the inferred variant, so they are ground. -/
theorem decided_caseOf {scrutinee : Term} {arms : List (Arm Term)} (hΓ : Γ.Ground aliases)
    (hs : DecidedPart aliases infer scrutinee)
    (ha : ∀ a ∈ arms, DecidedPart aliases infer a.body) :
    Decided (fun l n => rule l (infer l n) (.caseOf scrutinee arms s)) Γ (·.Ground aliases) := by
  refine (hs hΓ).bind fun V hV => ?_
  cases V with
  | variant fields =>
    refine .bind decided_coverage fun bound hbound => ?_
    obtain ⟨hcov, hopens⟩ := (Coverage.check_eq_ok hV.wellFormed).1 hbound
    have hfield : ∀ f ∈ fields, f.ty.Ground aliases :=
      fun f hf => hV.child (List.mem_map_of_mem (f := Field.ty) hf)
    refine decided_armsType (hcov.zip_ne_nil hopens) fun a hmem => ?_
    have hbound : ∀ T ∈ a.2, T.Ground aliases :=
      (List.forall₂_zip hopens hmem).forall (fun Vs hT _ hV => hT.child hV) hfield hV
    exact .binding hΓ hbound (ha a.1 (List.of_mem_zip hmem).1)
  | _ => exact .reject not_false

/-- One step: if the checks of the parts are decided, so is the check of the term. -/
theorem rule_decided (hal : aliases.Tame) (hΓ : Γ.Ground aliases) (ht : t ≠ .hole)
    (hty : ∀ T ∈ t.types, Written T) (ih : ∀ u ∈ t.subterms, DecidedPart aliases infer u) :
    Decided (fun l n => rule l (infer l n) t) Γ (·.Ground aliases) := by
  cases t with
  | hole => exact absurd rfl ht
  | lit value s => exact .pure (ground_literal value)
  | var i s =>
    simp only [rule_var_eq]
    exact .ask (q := fun _ Γ => Γ.lookUp i s) (hΓ.decided_lookUp i)
  | abs T body s => exact decided_abs hal hΓ (hty T (by simp)) (ih body (by simp))
  | app fn arg s => exact decided_app hΓ (ih fn (by simp)) (ih arg (by simp))
  | fix inner s => exact decided_fix hΓ (ih inner (by simp))
  | ite guard yes no s =>
    exact decided_ite hΓ (ih guard (by simp)) (ih yes (by simp)) (ih no (by simp))
  | inject label payload T s =>
    exact decided_inject hal hΓ (ih payload (by simp)) (hty T (by simp))
  | proj inner i s => exact decided_proj hΓ (ih inner (by simp))
  | tuple items s =>
    refine .bind (.mapM fun u hu => ih u (by simpa using hu) hΓ) fun Ts hTs => ?_
    exact .pure (ground_product hTs)
  | letIn bound body s => exact decided_letIn hΓ (ih bound (by simp)) (ih body (by simp))
  | tyAbs body s => exact decided_tyAbs hΓ (ih body (by simp))
  | tyApp inner T s => exact decided_tyApp hal hΓ (ih inner (by simp)) (hty T (by simp))
  | roll T inner s => exact decided_roll hal hΓ (hty T (by simp)) (ih inner (by simp))
  | unroll T inner s => exact decided_unroll hal hΓ (hty T (by simp)) (ih inner (by simp))
  | pack W inner T s =>
    exact decided_pack hal hΓ (hty W (by simp)) (hty T (by simp)) (ih inner (by simp))
  | unpack package body s => exact decided_unpack hΓ (ih package (by simp)) (ih body (by simp))
  | caseOf scrutinee arms s =>
    refine decided_caseOf hΓ (ih scrutinee (by simp)) fun a ha => ih a.body ?_
    simpa using .inr ⟨a, ha, rfl⟩

end Check

namespace Checker

open Check

variable {aliases : Aliases} {t : Term} {d : Nat}

/-- What holds of a rule holds of the checker one level up. -/
theorem ends_infer {Γ : Context} {trace : Bool} {r : Except Fault Ty}
    (h : Ends (fun l n => rule l (infer ⟨aliases, l, trace⟩ n) t) Γ r) :
    Ends (fun l n => infer ⟨aliases, l, trace⟩ n t) Γ r := by
  obtain ⟨k, hk⟩ := h
  refine ⟨k + 1, fun l n hl hn => ?_⟩
  obtain ⟨n, rfl⟩ : ∃ m, n = m + 1 := ⟨n - 1, by omega⟩
  obtain ⟨log, hrun⟩ := hk l n (by omega) (by omega)
  exact run_infer_of_rule (c := ⟨aliases, l, trace⟩) hrun

/-- Over a tame table, inference on a term without operators is decided in every ground context. -/
theorem infer_decided (hal : aliases.Tame) (trace : Bool) (hwf : t.WellFormed)
    (ht : t.EveryType (fun _ T => T.OperatorFree) d) :
    DecidedPart aliases (fun l n => infer ⟨aliases, l, trace⟩ n) t := by
  induction ht with
  | @intro d t hty _ ih =>
    intro Γ hΓ
    have hparts : ∀ u ∈ t.subterms,
        DecidedPart aliases (fun l n => infer ⟨aliases, l, trace⟩ n) u := by
      intro u hu
      obtain ⟨p, hp, rfl⟩ := List.mem_map.1 hu
      exact ih p hp (hwf.part hu)
    have hrule := rule_decided hal hΓ hwf.ne_hole (fun T hT => ⟨hwf.type hT, hty T hT⟩) hparts
    cases hrule with
    | ok h hT => exact .ok (ends_infer h) hT
    | error h he => exact .error (ends_infer h) he

/-- Over well-formed definitions without circles, and where no type operator is written, neither in
a definition nor in the term, there is a depth from which on the check of a well-formed term never
fails for want of levels, if the machine has as many: it gives a type, or finds another mistake. -/
theorem typeOfClosed_decided (aliases : Aliases) (hal : aliases.WellFormed)
    (hac : aliases.Acyclic)
    (hop : ∀ name T, aliases.definition? name = some T → T.OperatorFree) (trace : Bool) (t : Term)
    (ht : t.WellFormed) (hop' : t.EveryType (fun _ T => T.OperatorFree) 0) :
    ∃ bound : Nat, ∀ (m : Int) (frames : Option Nat), bound ≤ m → (∀ k ∈ frames, bound ≤ k) →
      (∃ T, (typeOfClosed ⟨aliases, ⟨m, frames⟩, trace⟩ t).result = .ok T) ∨
        ∃ e, (typeOfClosed ⟨aliases, ⟨m, frames⟩, trace⟩ t).result = .error (.type e) ∧
          ∀ depth, e.mistake ≠ .tooDeep depth := by
  have hground : ∀ limit, (Context.fresh aliases limit).Ground aliases := fun _ =>
    ⟨by simp [Context.Balanced, Context.fresh], by simp [Context.fresh], rfl⟩
  cases infer_decided ⟨hal, hac, hop⟩ trace ht hop' (hground ⟨0, none⟩) with
  | ok h _ =>
    obtain ⟨bound, hbound⟩ := h.of_depth
    refine ⟨bound, fun m frames hm hframes => .inl ?_⟩
    obtain ⟨log, hrun⟩ := hbound m frames hm hframes
    exact ⟨_, congrArg Outcome.result (run_typeOf_of_ok (c := ⟨aliases, ⟨m, frames⟩, trace⟩) hrun)⟩
  | @error e h he =>
    obtain ⟨bound, hbound⟩ := h.of_depth
    refine ⟨bound, fun m frames hm hframes => .inr ?_⟩
    obtain ⟨log, hrun⟩ := hbound m frames hm hframes
    obtain ⟨_, htop⟩ := run_typeOf_of_error (c := ⟨aliases, ⟨m, frames⟩, trace⟩) hrun
    have herror := congrArg Outcome.result htop
    rw [settle_eq he] at herror
    have hgood : (Context.fresh aliases ⟨m, frames⟩).Good := Context.good_fresh _ _
    obtain ⟨⟨mistake, span⟩, rfl⟩ := (typeOf_meets hgood fun _ => ⟨hal, ht⟩).of_error herror
    refine ⟨_, herror, ?_⟩
    -- a fault that stays from some depth on is no want of levels
    rintro depth rfl
    exact he trivial

/-- A name for the functions on numbers, beside the name for the numbers. -/
def functions : Aliases :=
  numbers.insert "F" (.arrow (.named "N") (.named "N"))

/-- The type of functions that take their own kind and give a function on numbers. -/
def selfTaking : Ty :=
  .binder .mu (.arrow (.var 0) (.named "F"))

/-- A function that applies what it is given to itself. -/
def selfApplying : Term :=
  .abs selfTaking (.app (.unroll selfTaking (.var 0 none) none) (.var 0 none) none) none

/-- The second name refers to the first one, which refers to none. -/
theorem functions_acyclic : functions.Acyclic := by
  have hname : ∀ {name key : String}, (Ty.named name).Mentions key → key = name := by
    intro name key h
    cases h with
    | here => rfl
    | inside hA _ => simp [children] at hA
  refine Aliases.acyclic_of_rank (fun name => if name = "F" then 1 else 0) ?_
  rintro a b ⟨T, hT, hb⟩
  by_cases ha : a = "F"
  · subst ha
    obtain rfl : _ = T := Option.some.inj hT
    cases hb with
    | @inside _ A hA hb =>
      obtain rfl : A = .named "N" := by simpa [children] using hA
      simp [hname hb]
  · rw [functions, Aliases.definition?_insert_of_ne ha] at hT
    obtain rfl | hT := Aliases.definition?_insert hT
    · cases hb with
      | inside hA _ => simp [children] at hA
    · contradiction

theorem functions_wellFormed : functions.WellFormed := by
  have hname : (Ty.named "N").WellFormed := wellFormed_leaf ⟨nofun, trivial⟩ rfl
  have hnames : ∀ T ∈ [Ty.named "N", .named "N"], T.WellFormed := by simpa using hname
  exact numbers_wellFormed.insert ⟨⟨nofun, trivial⟩, hnames⟩

/-- A type that has no part is no operator. -/
theorem operatorFree_leaf {T : Ty} (h : T.children = []) (hT : ∀ b, T.shape ≠ .binder b) :
    T.OperatorFree :=
  ⟨fun kind => hT (.op kind), by simp [h]⟩

theorem functions_operatorFree :
    ∀ name T, functions.definition? name = some T → T.OperatorFree := by
  have hname : (Ty.named "N").OperatorFree := operatorFree_leaf rfl nofun
  have hnames : ∀ T ∈ [Ty.named "N", .named "N"], T.OperatorFree := by simpa using hname
  intro name T hT
  obtain rfl | hT := Aliases.definition?_insert hT
  · exact ⟨nofun, hnames⟩
  · obtain rfl | hT := Aliases.definition?_insert hT
    · exact operatorFree_leaf rfl nofun
    · contradiction

theorem selfApplying_operatorFree : selfApplying.EveryType (fun _ T => T.OperatorFree) 0 := by
  have hbody : ∀ T ∈ [Ty.var 0, .named "F"], T.OperatorFree := by
    simpa using ⟨operatorFree_leaf rfl nofun, operatorFree_leaf rfl nofun⟩
  have harrow : (Ty.arrow (.var 0) (.named "F")).OperatorFree := ⟨nofun, hbody⟩
  have hself : selfTaking.OperatorFree := ⟨nofun, List.forall_mem_singleton.2 harrow⟩
  have hvar : (Term.var 0 none).EveryType (fun _ T => T.OperatorFree) 0 :=
    ⟨by simp, by simp⟩
  have hunroll : (Term.unroll selfTaking (.var 0 none) none).EveryType
      (fun _ T => T.OperatorFree) 0 := ⟨by simpa using hself, by simpa using hvar⟩
  have happ : (Term.app (.unroll selfTaking (.var 0 none) none) (.var 0 none) none).EveryType
      (fun _ T => T.OperatorFree) 0 := ⟨by simp, by simpa using ⟨hunroll, hvar⟩⟩
  exact ⟨by simpa [selfApplying] using hself, by simpa [selfApplying] using happ⟩

/-- The self-application has no value, but the check of it needs no more than some depth: from
there on it gives a type, in which the names are resolved. -/
theorem typeOfClosed_decided_selfApplying :
    functions.WellFormed ∧ functions.Acyclic ∧ selfApplying.WellFormed ∧
      ∃ bound : Nat, ∀ m : Int, bound ≤ m →
        (typeOfClosed ⟨functions, ⟨m, none⟩, false⟩ selfApplying).result =
          .ok (.arrow (.binder .mu (.arrow (.var 0) (.arrow .nat .nat))) (.arrow .nat .nat)) := by
  have hwf : selfApplying.WellFormed := Term.wellFormed_of_formed (n := 6) rfl
  have hnine : (typeOfClosed ⟨functions, ⟨9, none⟩, false⟩ selfApplying).result =
      .ok (.arrow (.binder .mu (.arrow (.var 0) (.arrow .nat .nat))) (.arrow .nat .nat)) := rfl
  refine ⟨functions_wellFormed, functions_acyclic, hwf, ?_⟩
  obtain ⟨bound, hbound⟩ := typeOfClosed_decided functions functions_wellFormed functions_acyclic
    functions_operatorFree false selfApplying hwf selfApplying_operatorFree
  refine ⟨max 9 bound, fun m hbig => ?_⟩
  have hm : (typeOfClosed ⟨functions, ⟨m, none⟩, false⟩ selfApplying).result = _ :=
    typeOfClosed_ok_of_le functions_wellFormed (by omega) hwf hnine
  obtain ⟨T, hT⟩ | ⟨e, he, -⟩ := hbound m none (by omega) nofun
  · rw [hT, Except.ok.inj (hm.symm.trans hT)]
  · exact absurd (hm.symm.trans he) nofun

end Checker

end PolyLambda
