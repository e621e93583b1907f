import PolyLambda.Check.Checker
import PolyLambda.Proofs.Located
import PolyLambda.Proofs.Printing

/-!
# PolyLambda.Proofs.Mismatch

Mistakes about two types. The checker reports that a type is not the expected one, or that two arms
have different types. It does so only where the two types are different, whatever the context and
the term are; and then their texts are different too, unless names or labels are no identifiers. So
the message of such a mistake never shows the same text twice.

* `Check.Raises` says of a computation that all its faults have some property, in any context.
* `Check.rule_distinct` is the step from the parts of a term to the term, `Checker.infer_distinct`
  the statement for the checker.
* `Checker.render_unambiguous`: types have different texts, and so have the types in a mistake.
-/

namespace PolyLambda

open Ty

/-! ## mistakes about two types -/

/-- The two types that a mistake says are different. -/
def Mistake.sides : Mistake → Option (Ty × Ty)
  | .mismatch expected actual _ => some (expected, actual)
  | .arms first other => some (first, other)
  | _ => none

/-- If the fault is a mistake about two types, these are different. -/
def Fault.Distinct : Fault → Prop
  | .type e => ∀ p ∈ e.mistake.sides, p.1 ≠ p.2
  | _ => True

/-- A mistake that names no two types has nothing to tell apart. -/
theorem Fault.distinct_of_sides {m : Mistake} {span : Option Span} (h : m.sides = none) :
    (Fault.type ⟨m, span⟩).Distinct := by
  simp [Distinct, h]

/-- A mistake that names two types which differ tells them apart. -/
theorem Fault.distinct_of_ne {m : Mistake} {T U : Ty} {span : Option Span}
    (h : m.sides = some (T, U)) (hne : T ≠ U) : (Fault.type ⟨m, span⟩).Distinct := by
  simpa [Distinct, h] using hne

theorem Limit.overrun_distinct (l : Limit) (span : Option Span) : (l.overrun span).Distinct := by
  unfold Limit.overrun
  split
  · trivial
  · exact Fault.distinct_of_sides rfl

/-- A traversal of a type never fails because two types differ. -/
theorem Limit.run_distinct {α : Type} {l : Limit} {walk : Nat → Except Ty.Fault α} {e : Fault}
    (h : l.run walk = .error e) : e.Distinct := by
  obtain ⟨d, -, rfl⟩ := mapError_eq_error.1 h
  cases d with
  | tooDeep => exact l.overrun_distinct none
  | _ => trivial

theorem Context.find_distinct {Γ : Context} {i : Int} {e : Fault} (h : Γ.find i = .error e) :
    e.Distinct := by
  unfold find at h
  split at h
  · contradiction
  · split at h
    · contradiction
    · obtain h | ⟨U, -, h⟩ := bind_eq_error.1 h
      · exact Limit.run_distinct h
      · contradiction

namespace Coverage

variable {fields : List (Field Ty)} {seen : Progress} {span : Option Span}

/-- The check of an arm compares no types. -/
theorem step_sides {p : Pattern} {m : Mistake} (h : step fields seen p = .error m) :
    m.sides = none := by
  cases p with
  | wild | bind =>
    rw [step, catchAll] at h
    split at h
    · exact Except.error.inj h ▸ rfl
    · contradiction
  | product items => exact Except.error.inj h ▸ rfl
  | con label payload =>
    rw [step, catchLabel] at h
    split at h
    · exact Except.error.inj h ▸ rfl
    · split at h
      · exact Except.error.inj h ▸ rfl
      · obtain h | ⟨Ts, -, h⟩ := bind_eq_error.1 h
        · obtain ⟨flaw, -, rfl⟩ := mapError_eq_error.1 h
          rfl
        · contradiction

theorem steps_sides {arms : List (Arm Term)} {e : TypeError}
    (h : steps fields span seen arms = .error e) : e.mistake.sides = none := by
  induction arms generalizing seen with
  | nil => contradiction
  | cons arm arms ih =>
    obtain h | ⟨first, -, h⟩ := bind_eq_error.1 h
    · obtain ⟨m, hm, rfl⟩ := mapError_eq_error.1 h
      exact step_sides hm
    · obtain h | ⟨rest, -, h⟩ := bind_eq_error.1 h
      · exact ih h
      · contradiction

/-- What is wrong with the patterns of a case is never that two types differ. -/
theorem check_sides {arms : List (Arm Term)} {e : TypeError}
    (h : check fields span arms = .error e) : e.mistake.sides = none := by
  unfold check at h
  split at h
  · exact Except.error.inj h ▸ rfl
  · obtain h | ⟨rest, -, h⟩ := bind_eq_error.1 h
    · exact steps_sides h
    · dsimp only at h
      split at h
      · contradiction
      · exact Except.error.inj h ▸ rfl

end Coverage

namespace Check

variable {α β : Type} {x : Check α} {f : α → Check β} {E : Fault → Prop}

/-! ## all faults of a computation -/

/-- Whatever the context is, the computation fails only with faults that have `E`. -/
def Raises (x : Check α) (E : Fault → Prop) : Prop :=
  ∀ Γ e, (x.run Γ).result = .error e → E e

theorem raises_pure (a : α) : (pure a : Check α).Raises E := by
  intro Γ e he
  rw [run_pure] at he
  contradiction

theorem raises_emit (event : Event) : (emit event).Raises E := by
  intro Γ e he
  have hrun : ((emit event).run Γ).result = .ok () := rfl
  rw [hrun] at he
  contradiction

theorem raises_ask {g : Context → Except Fault α} (h : ∀ Γ e, g Γ = .error e → E e) :
    (ask g).Raises E := h

theorem raises_ofExcept {r : Except Fault α} (h : ∀ e, r = .error e → E e) :
    (ofExcept r).Raises E := fun _ => h

theorem raises_fail {e : Fault} (h : E e) : (fail e : Check α).Raises E := by
  rintro Γ _ ⟨⟩
  exact h

/-- A change of the context fails only if the change itself is refused. -/
theorem raises_modify {g : Context → Except Fault Context} (h : ∀ Γ e, g Γ = .error e → E e) :
    (modify g).Raises E := by
  intro Γ e he
  cases hg : g Γ with
  | ok Δ =>
    rw [run_modify_of_ok hg] at he
    contradiction
  | error d =>
    rw [run_modify_of_error hg] at he
    exact Except.error.inj he ▸ h Γ d hg

/-- A sequence fails only where one of its parts does. -/
theorem Raises.bind (hx : x.Raises E) (hf : ∀ a, (f a).Raises E) : (x >>= f).Raises E := by
  intro Γ e he
  rcases hrun : x.run Γ with ⟨d | a, Δ, log⟩
  · rw [run_bind_of_error hrun] at he
    exact Except.error.inj he ▸ hx Γ d (by rw [hrun])
  · rw [run_bind_of_ok hrun] at he
    exact hf a Δ e he

/-- Whether the body fails or what is run after it, the fault is one of either. -/
theorem Raises.ensuring {last : Check Unit} (hx : x.Raises E) (hlast : last.Raises E) :
    (ensuring x last).Raises E := by
  intro Γ e he
  cases hl : (last.run (x.run Γ).context).result with
  | ok _ => exact hx Γ e (by simpa [Check.ensuring, hl] using he)
  | error d =>
    obtain rfl : d = e := by simpa [Check.ensuring, hl] using he
    exact hlast _ _ hl

theorem Raises.forM {γ : Type} {g : γ → Check Unit} (h : ∀ c, (g c).Raises E) (cs : List γ) :
    (cs.forM g).Raises E := by
  induction cs with
  | nil => exact raises_pure ()
  | cons c cs ih => exact (h c).bind fun _ => ih

theorem Raises.mapM {γ : Type} {g : γ → Check α} (h : ∀ c, (g c).Raises E) (cs : List γ) :
    (cs.mapM g).Raises E := by
  induction cs with
  | nil => exact raises_pure []
  | cons c cs ih =>
    rw [List.mapM_cons]
    exact (h c).bind fun _ => ih.bind fun _ => raises_pure _

/-! ## the rules -/

/-- A rule that finds a mistake of another sort tells nothing apart. -/
theorem raises_reject {m : Mistake} {span : Option Span} (h : m.sides = none) :
    (reject m span : Check α).Raises Fault.Distinct :=
  raises_fail (Fault.distinct_of_sides h)

/-- Resolving fails in a traversal. -/
theorem raises_resolve (T : Ty) : (resolve T).Raises Fault.Distinct :=
  raises_ask fun _ _ => Limit.run_distinct

/-- Instantiating fails in a traversal, or in the resolution of the instance. -/
theorem raises_instantiate (limit : Limit) (body A : Ty) :
    (instantiate limit body A).Raises Fault.Distinct :=
  (raises_ofExcept fun _ => Limit.run_distinct).bind raises_resolve

/-- A type that cannot leave its scope is refused alone, not beside another one. -/
theorem raises_lower (limit : Limit) (B : Ty) (span : Option Span) :
    (lower limit B span).Raises Fault.Distinct := by
  refine (raises_ofExcept fun _ => Limit.run_distinct).bind fun b => ?_
  split
  · exact raises_reject rfl
  · exact raises_ofExcept fun _ => Limit.run_distinct

/-- A mismatch is found by comparing the two types that it names. -/
theorem raises_expect (expected actual : Ty) (part whole : Term) :
    (expect expected actual part whole).Raises Fault.Distinct := by
  unfold expect
  split
  · exact raises_pure ()
  · next hne => exact raises_fail (Fault.distinct_of_ne rfl (Ne.symm hne))

/-- Binding variables around a computation adds failures to resolve, and of closing out of order. -/
theorem Raises.binding (hx : x.Raises Fault.Distinct) (Ts : List Ty) :
    (binding Ts x).Raises Fault.Distinct := by
  have hpush : (pushAll Ts).Raises Fault.Distinct := by
    refine Raises.forM (fun T => raises_modify fun Γ e he => ?_) Ts
    obtain he | ⟨U, -, he⟩ := bind_eq_error.1 he
    · exact Limit.run_distinct he
    · contradiction
  have hpop : (popAll Ts).Raises Fault.Distinct := by
    refine Raises.forM (fun T => raises_modify fun Γ e he => ?_) Ts
    unfold Context.pop at he
    split at he
    · exact Except.error.inj he ▸ trivial
    · contradiction
  exact hpush.bind fun _ => hx.ensuring hpop

/-- A scope around a computation adds failures of closing out of order. -/
theorem Raises.inScope (hx : x.Raises Fault.Distinct) : (inScope x).Raises Fault.Distinct := by
  have hopen : openScope.Raises Fault.Distinct :=
    raises_modify fun Γ e he => by contradiction
  have hclose : closeScope.Raises Fault.Distinct := by
    refine raises_modify fun Γ e he => ?_
    unfold Context.closeScope at he
    split at he
    · exact Except.error.inj he ▸ trivial
    · split at he
      · exact Except.error.inj he ▸ trivial
      · contradiction
  exact hopen.bind fun _ => hx.ensuring hclose

/-- A choice is refused for two types that differ. -/
theorem raises_arms {A B : Ty} (hne : A ≠ B) (span : Option Span) :
    (reject (.arms A B) span : Check α).Raises Fault.Distinct :=
  raises_fail (Fault.distinct_of_ne rfl hne)

/-- Later arms are compared with the first one, and refused only if their types differ. -/
theorem raises_armsType {infer : Term → Check Ty} (ih : ∀ t, (infer t).Raises Fault.Distinct)
    (span : Option Span) (arms : List (Arm Term × List Ty)) :
    (armsType infer span arms).Raises Fault.Distinct := by
  cases arms with
  | nil => exact raises_fail trivial
  | cons first rest =>
    refine ((ih first.1.body).binding first.2).bind fun T => ?_
    refine Raises.bind (Raises.forM (fun b => ?_) rest) fun _ => raises_pure T
    refine ((ih b.1.body).binding b.2).bind fun U => ?_
    split
    · exact raises_pure ()
    · next hne => exact raises_arms (Ne.symm hne) _

/-- The patterns are checked before any types of arms are known. -/
theorem raises_coverage (fields : List (Field Ty)) (span : Option Span) (arms : List (Arm Term)) :
    (ofExcept ((Coverage.check fields span arms).mapError .type)).Raises Fault.Distinct := by
  refine raises_ofExcept fun e he => ?_
  obtain ⟨error, herror, rfl⟩ := mapError_eq_error.1 he
  exact Fault.distinct_of_sides (Coverage.check_sides herror)

/-! ### one rule at a time -/

/-- The check of every term tells apart the types that it says are different. -/
abbrev DistinctParts (infer : Term → Check Ty) : Prop :=
  ∀ t, (infer t).Raises Fault.Distinct

variable {limit : Limit} {infer : Term → Check Ty} {span : Option Span}

/-- A variable is unbound, or its type cannot be lifted. -/
theorem distinct_var (index : Int) :
    (rule limit infer (.var index span)).Raises Fault.Distinct := by
  refine Raises.bind (raises_ask fun _ _ => Context.find_distinct) fun T => ?_
  split
  · exact raises_pure _
  · exact raises_reject rfl

theorem distinct_abs (ih : DistinctParts infer) (param : Ty) (body : Term) :
    (rule limit infer (.abs param body span)).Raises Fault.Distinct := by
  refine (raises_resolve param).bind fun A => ?_
  exact ((ih body).binding [A]).bind fun B => raises_pure _

/-- The argument is compared with the domain. -/
theorem distinct_app (ih : DistinctParts infer) (fn arg : Term) :
    (rule limit infer (.app fn arg span)).Raises Fault.Distinct := by
  refine (ih fn).bind fun F => (ih arg).bind fun A => ?_
  split
  · exact (raises_expect _ _ _ _).bind fun _ => raises_pure _
  · exact raises_reject rfl

/-- The domain is compared with the codomain. -/
theorem distinct_fix (ih : DistinctParts infer) (inner : Term) :
    (rule limit infer (.fix inner span)).Raises Fault.Distinct := by
  refine (ih inner).bind fun F => ?_
  split
  · exact (raises_expect _ _ _ _).bind fun _ => raises_pure _
  · exact raises_reject rfl

/-- The branches are refused only if their types are not the same. -/
theorem distinct_ite (ih : DistinctParts infer) (guard yes no : Term) :
    (rule limit infer (.ite guard yes no span)).Raises Fault.Distinct := by
  refine (ih guard).bind fun G => ?_
  split
  · refine (ih yes).bind fun A => (ih no).bind fun B => ?_
    split
    · exact raises_pure _
    · next hne => exact raises_arms hne span
  · exact raises_reject rfl

/-- The payload is compared with what the variant has at the label. -/
theorem distinct_inject (ih : DistinctParts infer) (label : String) (payload : Term) (ty : Ty) :
    (rule limit infer (.inject label payload ty span)).Raises Fault.Distinct := by
  refine (raises_resolve ty).bind fun V => ?_
  split
  · split
    · refine (ih payload).bind fun A => ?_
      exact (raises_expect _ _ _ _).bind fun _ => raises_pure _
    · exact raises_reject rfl
  · exact raises_reject rfl

theorem distinct_proj (ih : DistinctParts infer) (inner : Term) (index : Int) :
    (rule limit infer (.proj inner index span)).Raises Fault.Distinct := by
  refine (ih inner).bind fun P => ?_
  split
  · split
    · exact raises_pure _
    · exact raises_reject rfl
  · exact raises_reject rfl

/-- Only traversals can fail once there is a universal type. -/
theorem distinct_tyApp (ih : DistinctParts infer) (inner : Term) (arg : Ty) :
    (rule limit infer (.tyApp inner arg span)).Raises Fault.Distinct := by
  refine (raises_resolve arg).bind fun A => (ih inner).bind fun F => ?_
  split
  · exact raises_instantiate limit _ A
  · exact raises_reject rfl

/-- The inner type is compared with the unrolled one. -/
theorem distinct_roll (ih : DistinctParts infer) (ty : Ty) (inner : Term) :
    (rule limit infer (.roll ty inner span)).Raises Fault.Distinct := by
  refine (raises_resolve ty).bind fun R => ?_
  split
  · refine (raises_instantiate limit _ _).bind fun U => (ih inner).bind fun A => ?_
    exact (raises_expect _ _ _ _).bind fun _ => raises_pure _
  · exact raises_reject rfl

/-- The inner type is compared with the recursive one. -/
theorem distinct_unroll (ih : DistinctParts infer) (ty : Ty) (inner : Term) :
    (rule limit infer (.unroll ty inner span)).Raises Fault.Distinct := by
  refine (raises_resolve ty).bind fun R => ?_
  split
  · refine (ih inner).bind fun A => ?_
    exact (raises_expect _ _ _ _).bind fun _ => raises_instantiate limit _ _
  · exact raises_reject rfl

/-- The inner type is compared with the instance at the witness. -/
theorem distinct_pack (ih : DistinctParts infer) (witness : Ty) (inner : Term) (ty : Ty) :
    (rule limit infer (.pack witness inner ty span)).Raises Fault.Distinct := by
  refine (raises_resolve witness).bind fun W => (raises_resolve ty).bind fun E => ?_
  split
  · refine (raises_instantiate limit _ W).bind fun U => (ih inner).bind fun A => ?_
    exact (raises_expect _ _ _ _).bind fun _ => raises_pure _
  · exact raises_reject rfl

/-- An escaping type is refused by itself. -/
theorem distinct_unpack (ih : DistinctParts infer) (package body : Term) :
    (rule limit infer (.unpack package body span)).Raises Fault.Distinct := by
  refine (ih package).bind fun P => ?_
  split
  · exact ((ih body).binding _).inScope.bind fun B => raises_lower limit B span
  · exact raises_reject rfl

/-- First the patterns are checked, and then the arms compared. -/
theorem distinct_caseOf (ih : DistinctParts infer) (scrutinee : Term) (arms : List (Arm Term)) :
    (rule limit infer (.caseOf scrutinee arms span)).Raises Fault.Distinct := by
  refine (ih scrutinee).bind fun V => ?_
  split
  · exact (raises_coverage _ span arms).bind fun bound => raises_armsType ih span _
  · exact raises_reject rfl

/-- If the checks of all terms tell different types apart, so does a rule that uses them. -/
theorem rule_distinct (ih : DistinctParts infer) (t : Term) :
    (rule limit infer t).Raises Fault.Distinct := by
  cases t with
  | hole => exact raises_fail trivial
  | lit value span => exact raises_pure _
  | var index span => exact distinct_var index
  | abs param body span => exact distinct_abs ih param body
  | app fn arg span => exact distinct_app ih fn arg
  | fix inner span => exact distinct_fix ih inner
  | ite guard yes no span => exact distinct_ite ih guard yes no
  | inject label payload ty span => exact distinct_inject ih label payload ty
  | proj inner index span => exact distinct_proj ih inner index
  | tuple items span => exact (Raises.mapM ih items).bind fun Ts => raises_pure _
  | letIn bound body span => exact (ih bound).bind fun A => (ih body).binding [A]
  | tyAbs body span => exact (ih body).inScope.bind fun B => raises_pure _
  | tyApp inner arg span => exact distinct_tyApp ih inner arg
  | roll ty inner span => exact distinct_roll ih ty inner
  | unroll ty inner span => exact distinct_unroll ih ty inner
  | pack witness inner ty span => exact distinct_pack ih witness inner ty
  | unpack package body span => exact distinct_unpack ih package body
  | caseOf scrutinee arms span => exact distinct_caseOf ih scrutinee arms

end Check

/-! ## the checker -/

namespace Checker

variable {c : Checker} {t : Term} {Γ : Context} {e : TypeError} {A B : Ty}

/-- Inference tells different types apart, with any number of levels left. -/
theorem infer_distinct (c : Checker) (n : Nat) (t : Term) :
    (c.infer n t).Raises Fault.Distinct := by
  induction n generalizing t with
  | zero =>
    refine Check.raises_fail ?_
    cases t with
    -- a hole has no place that could be named, so it fails in a way of its own
    | hole =>
      change (if c.limit.machineBound then Fault.outOfStack else .holeSpan).Distinct
      split <;> trivial
    | _ => exact c.limit.overrun_distinct _
  | succ n ih =>
    refine (Check.rule_distinct ih t).bind fun T => ?_
    split
    · exact (Check.raises_emit _).bind fun _ => Check.raises_pure T
    · exact Check.raises_pure T

/-- The check of a term ends with the fault of the inference, or with the limit in its place. -/
theorem typeOf_distinct (c : Checker) (t : Term) : (c.typeOf t).Raises Fault.Distinct := by
  intro Γ e he
  obtain ⟨f, hf, rfl⟩ := typeOf_error he
  have hdistinct : f.Distinct := infer_distinct c _ t Γ f hf
  cases f with
  | outOfStack => exact Fault.distinct_of_sides rfl
  | _ => exact hdistinct

/-- A program fails where one of its terms does, or where a type cannot be bound. -/
theorem declarations_distinct (c : Checker) (types : Table Ty) (ds : List Declaration) :
    (c.declarations types ds).Raises Fault.Distinct := by
  induction ds generalizing types with
  | nil => exact Check.raises_pure types
  | cons d ds ih =>
    cases d with
    | hole => exact ih types
    | type name ty =>
      have hdefine : (Check.define name ty).Raises Fault.Distinct :=
        (Check.raises_emit _).bind fun _ => Check.raises_modify fun _ _ he => by contradiction
      exact hdefine.bind fun _ => ih types
    | term name body =>
      exact (typeOf_distinct c body).bind fun T =>
        (Check.raises_emit _).bind fun _ => (ih _).binding [T]

/-- The checker ends with this error, on a term in some context or on a program. -/
inductive Reports (c : Checker) (e : TypeError) : Prop where
  | term (t : Term) (Γ : Context) (h : ((c.typeOf t).run Γ).result = .error (.type e))
  | program (ds : List Declaration) (h : (c.program ds).result = .error (.type e))

/-- The two types in a mistake that the checker reports are never the same. -/
theorem Reports.distinct (h : c.Reports e) : (Fault.type e).Distinct := by
  cases h with
  | term t Γ h => exact typeOf_distinct c t Γ _ h
  | program ds h => exact declarations_distinct c ∅ ds _ _ (c.program_eq ds ▸ h)

/-- Types that are printed legibly have different texts if they are different. So the two types that
a mistake of the checker says are different are printed as different texts. -/
theorem render_unambiguous (c : Checker) :
    (∀ T U : Ty, T.Readable → U.Readable → T.render = U.render → T = U) ∧
      (∀ expected actual argument span, c.Reports ⟨.mismatch expected actual argument, span⟩ →
        expected.Readable → actual.Readable → expected.render ≠ actual.render) ∧
      ∀ first other span, c.Reports ⟨.arms first other, span⟩ →
        first.Readable → other.Readable → first.render ≠ other.render := by
  refine ⟨fun T U => render_inj, ?_, ?_⟩
  · intro expected actual argument span h hexpected hactual htext
    exact h.distinct (expected, actual) rfl (render_inj hexpected hactual htext)
  · intro first other span h hfirst hother htext
    exact h.distinct (first, other) rfl (render_inj hfirst hother htext)

/-- An operator over operators, which gives a recursive type. -/
def operator : Ty :=
  .binder (.op (.arrow (.arrow .star .star) .star))
    (.binder .mu (.variant [⟨"leaf", .unit⟩, ⟨"node", .product [.app (.var 1) (.named "Tree")]⟩]))

/-- A function on products with one component, applied to a number. -/
def unwrapped : Term :=
  .app (.abs (.product [.nat]) (.var 0 none) none) (.lit (.nat 3) none) none

/-- A choice between two functions, on types that are not known. -/
def undecided : List Declaration :=
  [.term "f" (.ite (.lit (.bool true) none) (.abs (.named "A") (.var 0 none) none)
    (.abs (.named "B") (.var 0 none) none) none)]

/-- A mismatch between a product of one component and the component, and a choice between functions
on two unknown types. -/
theorem render_unambiguous_unwrapped :
    let c : Checker := ⟨∅, ⟨20, none⟩, false⟩
    let A : Ty := .arrow (.named "A") (.named "A")
    let B : Ty := .arrow (.named "B") (.named "B")
    (operator.render = "lambda X::(* => *) => *.rec <leaf: Unit | node: ((TyVar(1) Tree))>" ∧
        operator = operator.lift 2 0) ∧
      (c.Reports ⟨.mismatch (.product [.nat]) .nat none, none⟩ ∧
        (Ty.product [.nat]).render ≠ Ty.nat.render) ∧
      c.Reports ⟨.arms A B, none⟩ ∧ A.render ≠ B.render := by
  intro c A B
  have hmismatch : c.Reports ⟨.mismatch (.product [.nat]) .nat none, none⟩ :=
    .term unwrapped c.freshContext (by decide +kernel)
  have harms : c.Reports ⟨.arms A B, none⟩ := .program undecided rfl
  obtain ⟨hinj, hexpected, hdifferent⟩ := render_unambiguous c
  refine ⟨⟨by decide +kernel, ?_⟩, ⟨hmismatch, ?_⟩, harms, ?_⟩
  · exact hinj _ _ (readable_of_isReadable (n := 6) rfl) (readable_of_isReadable (n := 6) rfl)
      (by decide +kernel)
  · exact hexpected _ _ _ _ hmismatch (readable_of_isReadable (n := 2) rfl)
      (readable_of_isReadable (n := 1) rfl)
  · exact hdifferent _ _ _ harms (readable_of_isReadable (n := 2) rfl)
      (readable_of_isReadable (n := 2) rfl)

end Checker

end PolyLambda
