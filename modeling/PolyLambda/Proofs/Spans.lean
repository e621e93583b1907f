import PolyLambda.Proofs.Program
import PolyLambda.Proofs.Coupling

/-!
# PolyLambda.Proofs.Spans

Spans are for messages only. Two terms that are the same but for their spans, and those of their
arms, are checked with the same verdict: both have the same type, or the same mistake is found in
both, at places that may differ. Also the order in which mistakes are looked for does not depend
on spans, so it is always the same one that is found first.

* `Term.matches_of_same` says what it means that two terms are compared as equal, form by form, and
  `Term.alike_of_same` that such terms are alike in the sense of couplings.
* `Fault.Alike` relates faults that differ in spans only, and `Coupling.placed` puts two checks
  side by side that may differ in this way.
* `Checker.typeOfClosed_spans`: spans do not influence what is found.
-/

namespace PolyLambda

open Ty

/-! ## the same terms -/

namespace Term

theorem sameItems_iff {ts us : List Term} :
    sameItems ts us = true ↔ List.Forall₂ (fun t u => t.same u = true) ts us := by
  induction ts generalizing us with
  | nil => cases us <;> simp [sameItems]
  | cons t ts ih => cases us <;> simp [sameItems, ih]

theorem sameArms_iff {as bs : List (Arm Term)} :
    sameArms as bs = true ↔ List.Forall₂ (fun a b => a.same b = true) as bs := by
  induction as generalizing bs with
  | nil => cases bs <;> simp [sameArms]
  | cons a as ih => cases bs <;> simp [sameArms, Arm.same, ih]

/-- What the comparison of two terms comes to: they are of one form, with the same types, labels,
indices and patterns, and their parts are compared as equal. -/
inductive Matches : Term → Term → Prop where
  | lit {value s s'} : Matches (.lit value s) (.lit value s')
  | var {i s s'} : Matches (.var i s) (.var i s')
  | abs {T t t' s s'} (h : t.same t' = true) : Matches (.abs T t s) (.abs T t' s')
  | app {f f' a a' s s'} (hf : f.same f' = true) (ha : a.same a' = true) :
      Matches (.app f a s) (.app f' a' s')
  | fix {t t' s s'} (h : t.same t' = true) : Matches (.fix t s) (.fix t' s')
  | ite {g g' t t' u u' s s'} (hg : g.same g' = true) (ht : t.same t' = true)
      (hu : u.same u' = true) : Matches (.ite g t u s) (.ite g' t' u' s')
  | inject {label T t t' s s'} (h : t.same t' = true) :
      Matches (.inject label t T s) (.inject label t' T s')
  | proj {i t t' s s'} (h : t.same t' = true) : Matches (.proj t i s) (.proj t' i s')
  | tuple {ts ts' s s'} (h : List.Forall₂ (fun t t' => t.same t' = true) ts ts') :
      Matches (.tuple ts s) (.tuple ts' s')
  | letIn {t t' u u' s s'} (ht : t.same t' = true) (hu : u.same u' = true) :
      Matches (.letIn t u s) (.letIn t' u' s')
  | tyAbs {t t' s s'} (h : t.same t' = true) : Matches (.tyAbs t s) (.tyAbs t' s')
  | tyApp {T t t' s s'} (h : t.same t' = true) : Matches (.tyApp t T s) (.tyApp t' T s')
  | roll {T t t' s s'} (h : t.same t' = true) : Matches (.roll T t s) (.roll T t' s')
  | unroll {T t t' s s'} (h : t.same t' = true) : Matches (.unroll T t s) (.unroll T t' s')
  | pack {W T t t' s s'} (h : t.same t' = true) : Matches (.pack W t T s) (.pack W t' T s')
  | unpack {t t' u u' s s'} (ht : t.same t' = true) (hu : u.same u' = true) :
      Matches (.unpack t u s) (.unpack t' u' s')
  | caseOf {t t' as as' s s'} (h : t.same t' = true)
      (has : List.Forall₂ (fun a a' => a.pattern = a'.pattern ∧ a.body.same a'.body = true)
        as as') :
      Matches (.caseOf t as s) (.caseOf t' as' s')

/-- Terms that are the same up to places match node by node. -/
theorem matches_of_same {t t' : Term} (ht : t ≠ .hole) (h : t.same t' = true) : Matches t t' := by
  -- terms of two forms are never compared as equal, so that one case is left for each form
  cases t <;> cases t' <;>
    simp only [same, sameItems_iff, sameArms_iff, Bool.and_eq_true, decide_eq_true_eq,
      Bool.false_eq_true] at h
  · exact absurd rfl ht
  · exact h ▸ .lit
  · exact h ▸ .var
  · exact h.1 ▸ .abs h.2
  · exact .app h.1 h.2
  · exact .fix h
  · exact .ite h.1.1 h.1.2 h.2
  · obtain ⟨⟨rfl, hpayload⟩, rfl⟩ := h
    exact .inject hpayload
  · exact h.2 ▸ .proj h.1
  · exact .tuple h
  · exact .letIn h.1 h.2
  · exact .tyAbs h
  · exact h.2 ▸ .tyApp h.1
  · exact h.1 ▸ .roll h.2
  · exact h.1 ▸ .unroll h.2
  · obtain ⟨⟨rfl, hinner⟩, rfl⟩ := h
    exact .pack hinner
  · exact .unpack h.1 h.2
  · exact .caseOf h.1 (h.2.imp fun a a' ha => by simpa [Arm.same] using ha)

/-- Terms that are compared as equal differ in their spans only. -/
theorem alike_of_same {d : Nat} {t t' : Term} (ht : t.WellFormed) (h : t.same t' = true) :
    t.Alike (fun _ => Eq) (fun _ _ => True) d t' := by
  induction ht generalizing d t' with
  | @intro t hhole _ _ ih =>
    have hpart : ∀ {d u u'}, u ∈ t.subterms → u.same u' = true →
        u.Alike (fun _ => Eq) (fun _ _ => True) d u' := fun hu h => ih _ hu h
    have hmatches := matches_of_same hhole h
    clear h
    cases hmatches with
    | lit => exact .lit trivial
    | var => exact .var trivial
    | abs h => exact .abs rfl (hpart (by simp) h) trivial
    | app hf ha => exact .app (hpart (by simp) hf) (hpart (by simp) ha) trivial
    | fix h => exact .fix (hpart (by simp) h) trivial
    | ite hg ht hu =>
      exact .ite (hpart (by simp) hg) (hpart (by simp) ht) (hpart (by simp) hu) trivial
    | inject h => exact .inject (hpart (by simp) h) rfl trivial
    | proj h => exact .proj (hpart (by simp) h) trivial
    | tuple h =>
      refine .tuple h.length_eq (fun u u' hu => ?_) trivial
      exact hpart (by simpa using (List.of_mem_zip hu).1) (List.forall₂_zip h hu)
    | letIn ht hu => exact .letIn (hpart (by simp) ht) (hpart (by simp) hu) trivial
    | tyAbs h => exact .tyAbs (hpart (by simp) h) trivial
    | tyApp h => exact .tyApp (hpart (by simp) h) rfl trivial
    | roll h => exact .roll rfl (hpart (by simp) h) trivial
    | unroll h => exact .unroll rfl (hpart (by simp) h) trivial
    | pack h => exact .pack rfl (hpart (by simp) h) rfl trivial
    | unpack ht hu => exact .unpack (hpart (by simp) ht) (hpart (by simp) hu) trivial
    | caseOf h has =>
      refine .caseOf (hpart (by simp) h) (has.imp fun _ _ ha => ⟨ha.1, trivial⟩) ?_ trivial
      intro a a' ha
      refine hpart ?_ (List.forall₂_zip has ha).2
      simpa using .inr ⟨a, (List.of_mem_zip ha).1, rfl⟩

end Term

/-! ## the same faults -/

/-- A mistake without the place of an argument. -/
def Mistake.unplaced : Mistake → Mistake
  | .mismatch expected actual _ => .mismatch expected actual none
  | m => m

/-- Mistakes that are alike are equal without their places. -/
theorem Mistake.Alike.unplaced_eq {S : Option Span → Option Span → Prop} {m m' : Mistake}
    (h : m.Alike S m') : m.unplaced = m'.unplaced := by
  cases h <;> rfl

/-- Places are in no message, and they make no difference to the kind of a mistake. -/
theorem Mistake.message_unplaced (m : Mistake) :
    m.unplaced.message = m.message ∧ m.unplaced.kind = m.kind := by
  cases m <;> exact ⟨rfl, rfl⟩

/-- Faults that differ in spans only. -/
inductive Fault.Alike : Fault → Fault → Prop where
  | refl (e : Fault) : Alike e e
  | type {m m' : Mistake} {s s' : Option Span} (h : m.Alike (fun _ _ => True) m') :
      Alike (.type ⟨m, s⟩) (.type ⟨m', s'⟩)

/-- A fault of a check, and a fault of another check in answer to it. -/
def Fault.Echoed (e : Fault) : Option Fault → Prop
  | none => False
  | some e' => e.Alike e'

theorem Limit.overrun_alike (limit : Limit) (s s' : Option Span) :
    (limit.overrun s).Alike (limit.overrun s') := by
  unfold overrun
  split
  · exact .refl _
  · exact .type (.refl _)

/-! ## the checks side by side -/

/-- A check beside itself, where spans are not looked at, in contexts that have `n` levels. -/
def Coupling.placed (l : Limit) (aliases : Aliases) (n : Nat) : Coupling l l where
  Contexts Γ Γ' := Γ' = Γ ∧ Γ.Good ∧ Γ.aliases = aliases ∧ Γ.limit.levels = n
  Types _ T := T.Inferred aliases n
  Written _ := Eq
  Spans _ _ := True
  Fails := Fault.Echoed
  good := by
    rintro _ Γ ⟨rfl, h, -, -⟩
    exact ⟨h, h⟩
  openScope := by
    rintro _ Γ ⟨rfl, h, hal, hlim⟩
    exact ⟨rfl, h.openScope, hal, hlim⟩
  push := by
    rintro _ Γ T ⟨rfl, h, hal, hlim⟩ _
    refine .same (fun U hU => ?_) fun e _ => .refl e
    exact ⟨rfl, h.bindOne (Context.resolve_ok hU).2, hal, hlim⟩
  inferred := by
    rintro _ Γ T ⟨rfl, -, rfl, rfl⟩ hT
    exact ⟨hT, hT⟩
  node hs hc := .plain hs hc
  child h hA := h.child hA
  lookUp := by
    rintro _ Γ i s s' ⟨rfl, h, rfl, rfl⟩ -
    have hfind : Matched Fault.Echoed (Γ.find i) (Γ.find i) fun r => Γ.find i = .ok r :=
      .same (fun _ hr => hr) fun e _ => .refl e
    refine hfind.bind fun r hr => ?_
    cases r with
    | none => exact .error rfl rfl (.type (.refl _))
    | some T => exact .ok rfl rfl (h.find_inferred hr)
  resolve := by
    rintro _ Γ T _ ⟨rfl, -, rfl, rfl⟩ rfl
    exact .same (fun U hU => (Context.resolve_ok hU).2.inferred) fun e _ => .refl e
  instantiate := by
    rintro _ Γ body A ⟨rfl, -, rfl, rfl⟩ _ _
    exact .same (fun U hU => (Context.instantiate_settled hU).inferred) fun e _ => .refl e
  lower := by
    rintro d B s s' hB -
    have hoccurs : Matched Fault.Echoed (l.run fun n => B.occurs n 0) (l.run fun n => B.occurs n 0)
        fun b => (l.run fun n => B.occurs n 0) = .ok b := .same (fun _ hb => hb) fun e _ => .refl e
    refine hoccurs.bind fun b hb => ?_
    cases b with
    | true => exact .error rfl rfl (.type (.refl _))
    | false =>
      have havoids : B.Avoids := by simpa using occurs_ok (mapError_eq_ok.1 hb)
      refine .same (fun U hU => ?_) fun e _ => .refl e
      rw [(Ty.lower_ok havoids (mapError_eq_ok.1 hU)).2.2] at hB
      exact inferred_lift.1 hB
  mistake hm _ := .type hm
  orElse _ _ := trivial

namespace Checker

variable {c : Checker} {t t' : Term} {Γ : Context}

/-- Inference does not look at spans. -/
theorem infer_placed (c : Checker) (n : Nat) (Γ : Context) :
    (Coupling.placed c.limit Γ.aliases Γ.limit.levels).Parts (c.infer n) (c.infer n) := by
  refine Coupling.infer_inStep (Nat.le_refl n) fun ht => .inr ⟨rfl, ?_⟩
  cases ht <;> exact c.limit.overrun_alike _ _

/-- Faults that are alike are reported alike. -/
theorem settle_alike {e e' : Fault} (h : e.Alike e') :
    (c.settle t e).Alike (c.settle t' e') := by
  cases h with
  | type hm => exact .type hm
  | refl =>
    cases e with
    | outOfStack => exact .type (.refl _)
    | _ => exact .refl _

/-- In any context, terms that differ in their spans only are given the same type, or faults that
differ in spans only. -/
theorem typeOf_spans (hΓ : Γ.Good) (ht : t.WellFormed) (h : t.same t' = true) :
    (∃ T, ((c.typeOf t).run Γ).result = .ok T ∧ ((c.typeOf t').run Γ).result = .ok T) ∨
      ∃ e e', ((c.typeOf t).run Γ).result = .error e ∧ ((c.typeOf t').run Γ).result = .error e' ∧
        e.Alike e' := by
  cases c.infer_placed c.limit.levels Γ ⟨rfl, hΓ, rfl, rfl⟩ (Term.alike_of_same ht h) with
  | ok h h' _ => exact .inl ⟨_, by rw [run_typeOf_of_ok h], by rw [run_typeOf_of_ok h']⟩
  | stop _ he => exact he.elim
  | error h h' he =>
    obtain ⟨_, hrun⟩ := run_typeOf_of_error h
    obtain ⟨_, hrun'⟩ := run_typeOf_of_error h'
    exact .inr ⟨_, _, by rw [hrun], by rw [hrun'], settle_alike he⟩

/-- Over well-formed aliases, well-formed terms that are the same up to spans have the same type,
or there is the same mistake in both: of the same kind, with the same message and the same details,
up to the place of an argument. -/
theorem typeOfClosed_spans (c : Checker) (hal : c.aliases.WellFormed) {t t' : Term}
    (ht : t.WellFormed) (h : t.same t' = true) :
    (∃ T, (c.typeOfClosed t).result = .ok T ∧ (c.typeOfClosed t').result = .ok T) ∨
      ∃ e e', (c.typeOfClosed t).result = .error (.type e) ∧
        (c.typeOfClosed t').result = .error (.type e') ∧
        e.mistake.kind = e'.mistake.kind ∧ e.mistake.message = e'.mistake.message ∧
        e.mistake.unplaced = e'.mistake.unplaced := by
  have hgood : c.freshContext.Good := Context.good_fresh _ _
  obtain hok | ⟨e, e', he, he', halike⟩ := typeOf_spans hgood ht h
  · exact .inl hok
  · obtain ⟨m, rfl⟩ := (typeOf_meets hgood fun _ => ⟨hal, ht⟩).of_error he
    have hplaced : ∃ m', e' = .type m' ∧ m.mistake.unplaced = m'.mistake.unplaced := by
      cases halike with
      | refl => exact ⟨m, rfl, rfl⟩
      | type hm => exact ⟨_, rfl, hm.unplaced_eq⟩
    obtain ⟨m', rfl, hm⟩ := hplaced
    refine .inr ⟨m, m', he, he', ?_, ?_, hm⟩
    · rw [← m.mistake.message_unplaced.2, hm, m'.mistake.message_unplaced.2]
    · rw [← m.mistake.message_unplaced.1, hm, m'.mistake.message_unplaced.1]

/-- The successor function, applied to a truth value that was written at some place. -/
def mistyped (place : Option Span) : Term :=
  .app (.lit (.prim .succ) none) (.lit (.bool true) place) place

/-- The same mistake, once with the place of the argument and once without. -/
theorem typeOfClosed_spans_mistyped :
    (mistyped (some (.ofColumns 1 6 4 none))).WellFormed ∧
      (mistyped (some (.ofColumns 1 6 4 none))).same (mistyped none) = true ∧
      ∃ e e', (typeOfClosed ⟨∅, ⟨9, none⟩, false⟩
          (mistyped (some (.ofColumns 1 6 4 none)))).result = .error (.type e) ∧
        (typeOfClosed ⟨∅, ⟨9, none⟩, false⟩ (mistyped none)).result = .error (.type e') ∧
        e ≠ e' ∧ e.mistake.message = e'.mistake.message := by
  have hwf : (mistyped (some (.ofColumns 1 6 4 none))).WellFormed :=
    Term.wellFormed_of_formed (n := 2) rfl
  have hsame : (mistyped (some (.ofColumns 1 6 4 none))).same (mistyped none) = true := by
    decide
  have hplaced : (typeOfClosed ⟨∅, ⟨9, none⟩, false⟩
      (mistyped (some (.ofColumns 1 6 4 none)))).result = .error (.type
        ⟨.mismatch .nat .bool (some (.ofColumns 1 6 4 none)),
          some (.ofColumns 1 6 4 none)⟩) := rfl
  have hbare : (typeOfClosed ⟨∅, ⟨9, none⟩, false⟩ (mistyped none)).result =
      .error (.type ⟨.mismatch .nat .bool none, none⟩) := rfl
  refine ⟨hwf, hsame, ?_⟩
  obtain ⟨T, hT, -⟩ | ⟨e, e', he, he', -, hmessage, -⟩ :=
    typeOfClosed_spans ⟨∅, ⟨9, none⟩, false⟩ Aliases.wellFormed_empty hwf hsame
  · exact absurd (hplaced.symm.trans hT) nofun
  · refine ⟨e, e', he, he', ?_, hmessage⟩
    rintro rfl
    exact absurd (hplaced.symm.trans (he.trans (he'.symm.trans hbare))) (by decide)

end Checker

end PolyLambda
