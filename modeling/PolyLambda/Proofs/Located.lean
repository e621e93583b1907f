import PolyLambda.Proofs.Coupling

/-!
# PolyLambda.Proofs.Located

Where mistakes are reported. A rule reports a mistake at the term it is about, at a part of it, or
at an arm, so if every node and every arm of a term has a span, the span of a mistake is one of
them. Also where the term nests too deep for the limit, this is reported at the node that is too
deep.

There is one exception. Where a type nests too deep while it is resolved, instantiated, looked up or
lowered, the limit is reported by the traversal of the type, which knows no span; and no rule adds
one. So a mistake that is found in a term with all its spans is located in the term, or it says
without any place that the limit was exceeded.

* `Context.Good.lookUp_error`, `Context.instantiate_error` and `Limit.lower_error`: how the
  operations of the rules fail.
* `Coupling.located` puts a check beside itself, and follows the places of its faults.
* `Checker.typeOfClosed_located`: mistakes are located, with that exception.
* `Checker.typeOfClosed_unlocated`: a mistake without a place.
-/

namespace PolyLambda

open Ty

/-! ## how operations fail -/

variable {l : Limit} {Γ : Context} {e : Fault} {s : Option Span}

/-- A traversal of types that needs only levels fails without a place. -/
theorem Limit.run_error {α : Type} {walk : Nat → Except Ty.Fault α}
    (hwalk : ∀ d, walk l.levels = .error d → d = .tooDeep) (h : l.run walk = .error e) :
    e = l.overrun none := by
  obtain ⟨d, hd, rfl⟩ := mapError_eq_error.1 h
  rw [hwalk d hd]
  rfl

theorem Context.Good.lookUp_error (hΓ : Γ.Good) {i : Int} (h : Γ.lookUp i s = .error e) :
    e = .type ⟨.unbound i, s⟩ ∨ e = Γ.limit.overrun none := by
  obtain h | ⟨r, -, h⟩ := bind_eq_error.1 h
  · exact .inr (hΓ.find_overrun h)
  · cases r with
    | none => exact .inl (Except.error.inj h).symm
    | some T => contradiction

theorem Context.instantiate_error (hal : Γ.aliases.WellFormed) {body A : Ty}
    (hb : body.WellFormed) (hA : A.WellFormed) (h : Γ.instantiate Γ.limit body A = .error e) :
    e = Γ.limit.overrun none := by
  obtain h | ⟨V, hV, h⟩ := bind_eq_error.1 h
  · exact Γ.limit.run_error (fun _ hd => Ty.instantiate_error hb hA hd) h
  · obtain ⟨-, -, rfl⟩ := instantiate_ok (mapError_eq_ok.1 hV)
    exact Context.resolve_error hal (hb.inst hA) h

theorem Limit.lower_error {B : Ty} (hB : B.WellFormed) (h : l.lower B s = .error e) :
    e = .type ⟨.escape B, s⟩ ∨ e = l.overrun none := by
  obtain h | ⟨b, hb, h⟩ := bind_eq_error.1 h
  · exact .inr (l.run_error (fun _ hd => occurs_error hB hd) h)
  · cases b with
    | true => exact .inl (Except.error.inj h).symm
    | false =>
      have havoids : B.Avoids := by simpa using occurs_ok (mapError_eq_ok.1 hb)
      have hlower : (l.run fun n => B.shift n (-1)) = .error e := h
      exact .inr (l.run_error (fun _ hd => Ty.lower_error hB havoids hd) hlower)

/-! ## faults with a place -/

namespace Term

/-- A test for all spans of a term that nests at most `n` deep. -/
def placed : (n : Nat) → Term → Bool
  | 0, _ => false
  | n + 1, t => t.marks.all (·.isSome) && t.subterms.all (placed n)

theorem isSome_of_placed {n : Nat} {t : Term} (h : t.placed n = true) :
    ∀ s, t.Place s → s.isSome := by
  intro s hs
  induction hs generalizing n with
  | @here t hmem =>
    cases n with
    | zero => contradiction
    | succ n =>
      rw [placed, Bool.and_eq_true, List.all_eq_true] at h
      exact h.1 s hmem
  | @part t u hu _ ih =>
    cases n with
    | zero => contradiction
    | succ n =>
      rw [placed, Bool.and_eq_true, List.all_eq_true, List.all_eq_true] at h
      exact ih (h.2 u hu)

end Term

/-- A fault that is reported at one of the given places, or the want of levels without a place. -/
inductive Fault.Located (P : Option Span → Prop) (l : Limit) : Fault → Prop where
  | placed {m : Mistake} {s : Option Span} (h : P s) : Located P l (.type ⟨m, s⟩)
  | overrun : Located P l (l.overrun none)

/-- Where a term nests too deep, its own place is reported, if the machine does not give out. -/
theorem Limit.overrun_located {P : Option Span → Prop} (hs : P s) : (l.overrun s).Located P l := by
  by_cases hm : l.machineBound = true
  · have hnone : l.overrun s = l.overrun none := by
      rw [Limit.overrun, Limit.overrun, if_pos hm, if_pos hm]
    exact hnone ▸ .overrun
  · rw [Limit.overrun, if_neg hm]
    exact .placed hs

/-- A check beside itself, over well-formed definitions and with all spans among the given
places. -/
def Coupling.located (c : Checker) (hal : c.aliases.WellFormed) (P : Option Span → Prop) :
    Coupling c.limit c.limit where
  Contexts Γ Γ' := Γ = Γ' ∧ Γ.Good ∧ Γ.aliases = c.aliases ∧ Γ.limit = c.limit
  Types _ T := T.Inferred c.aliases c.limit.levels
  Written _ T T' := T = T' ∧ T.WellFormed
  Spans s s' := s = s' ∧ P s
  Fails e _ := e.Located P c.limit
  good := by
    rintro Γ _ ⟨rfl, h, -, -⟩
    exact ⟨h, h⟩
  openScope := by
    rintro Γ _ ⟨rfl, h, hΓ, hlim⟩
    exact ⟨rfl, h.openScope, hΓ, hlim⟩
  push := by
    rintro Γ _ T ⟨rfl, h, hΓ, hlim⟩ hT
    refine .same (fun U hU => ?_) fun e he => ?_
    · exact ⟨rfl, h.bindOne (Context.resolve_ok hU).2, hΓ, hlim⟩
    · rw [Context.resolve_error (hΓ ▸ hal) hT.wellFormed he, hlim]
      exact .overrun
  inferred := by
    rintro Γ _ T ⟨rfl, -, hΓ, hlim⟩ hT
    rw [← hΓ, ← hlim] at hT
    exact ⟨hT, hT⟩
  node hs hc := .plain hs hc
  child h hA := h.child hA
  lookUp := by
    rintro Γ _ i s _ ⟨rfl, h, hΓ, hlim⟩ ⟨rfl, hs⟩
    rw [← hΓ, ← hlim]
    refine .same (fun T hT => h.lookUp_inferred hT) fun e he => ?_
    obtain rfl | rfl := h.lookUp_error he
    · exact .placed hs
    · exact .overrun
  resolve := by
    rintro Γ _ T _ ⟨rfl, -, hΓ, hlim⟩ ⟨rfl, hT⟩
    rw [← hΓ] at hal
    rw [← hΓ, ← hlim]
    refine .same (fun U hU => (Context.resolve_ok hU).2.inferred) fun e he => ?_
    exact Context.resolve_error hal hT he ▸ .overrun
  instantiate := by
    rintro Γ _ body A ⟨rfl, -, hΓ, hlim⟩ hb hA
    rw [← hΓ] at hal
    rw [← hΓ, ← hlim]
    refine .same (fun U hU => (Context.instantiate_settled hU).inferred) fun e he => ?_
    exact Context.instantiate_error hal hb.wellFormed hA.wellFormed he ▸ .overrun
  lower := by
    rintro d B s _ hB ⟨rfl, hs⟩
    refine .same (fun U hU => ?_) fun e he => ?_
    · rw [Limit.lower_ok hU] at hB
      exact inferred_lift.1 hB
    · obtain rfl | rfl := Limit.lower_error hB.wellFormed he
      · exact .placed hs
      · exact .overrun
  mistake _ hs := .placed hs.2
  orElse := by
    rintro s _ r _ ⟨rfl, hs⟩ ⟨rfl, hr⟩
    refine ⟨rfl, ?_⟩
    cases s with
    | none => exact hr
    | some s => exact hs

/-! ## the checker -/

namespace Checker

variable {c : Checker} {t : Term}

/-- Inference of a term fails at one of its places, or for want of levels without a place. -/
theorem infer_located (c : Checker) (n : Nat) (hal : c.aliases.WellFormed) (ht : t.WellFormed)
    (h : ((c.infer n t).run c.freshContext).result = .error e) :
    e.Located (t.Place ·) c.limit := by
  let K := Coupling.located c hal (t.Place ·)
  have hparts : K.Parts (c.infer n) (c.infer n) := by
    refine K.infer_inStep (Nat.le_refl n) fun ht => .inl ?_
    rw [ht.overrun_eq]
    exact Limit.overrun_located ht.span.2
  have hgood : c.freshContext.Good := Context.good_fresh c.aliases c.limit
  have hterm : K.Terms c.freshContext.depth t t :=
    ht.everyType.alike (fun _ _ hT => ⟨rfl, hT⟩) (fun s hs => ⟨rfl, hs⟩) ht
  cases hparts ⟨rfl, hgood, rfl, rfl⟩ hterm with
  | ok hrun _ _ =>
    rw [hrun] at h
    contradiction
  | stop hrun he | error hrun _ he =>
    rw [hrun] at h
    exact Except.error.inj h ▸ he

/-- A check that fails has failed in the inference. -/
theorem typeOf_error (h : ((c.typeOf t).run Γ).result = .error e) :
    ∃ f, ((c.infer c.limit.levels t).run Γ).result = .error f ∧ c.settle t f = e := by
  cases hrun : (c.infer c.limit.levels t).run Γ with
  | mk result Δ log =>
    cases result with
    | ok T =>
      rw [run_typeOf_of_ok hrun] at h
      contradiction
    | error f =>
      obtain ⟨_, htop⟩ := run_typeOf_of_error hrun
      rw [htop] at h
      exact ⟨f, rfl, Except.error.inj h⟩

/-- What a check reports is reported at a place of the term, or is the want of levels. If the
machine gives out, the place is that of the whole term. -/
theorem settle_located (h : e.Located (t.Place ·) c.limit) {error : TypeError}
    (hs : c.settle t e = .type error) :
    t.Place error.span ∨
      c.limit.machineBound = false ∧ error = ⟨.tooDeep c.limit.depth, none⟩ := by
  cases h with
  | placed hplace =>
    obtain rfl := Fault.type.inj hs
    exact .inl hplace
  | overrun =>
    by_cases hm : c.limit.machineBound = true
    · rw [Limit.overrun, if_pos hm] at hs
      obtain rfl := Fault.type.inj hs
      exact .inl (.here t.span_mem_marks)
    · rw [Limit.overrun, if_neg hm] at hs
      exact .inr ⟨Bool.eq_false_iff.2 hm, (Fault.type.inj hs).symm⟩

/-- A type error in a term with all its spans is reported at a node or an arm of the term. The only
other report is that a type nests too deep for the configured limit: it has no place. -/
theorem typeOfClosed_located (c : Checker) (hal : c.aliases.WellFormed) (ht : t.WellFormed)
    (hspans : ∀ s, t.Place s → s.isSome) {error : TypeError}
    (h : (c.typeOfClosed t).result = .error (.type error)) :
    (∃ s, error.span = some s ∧ t.Place (some s)) ∨
      c.limit.machineBound = false ∧ error = ⟨.tooDeep c.limit.depth, none⟩ := by
  obtain ⟨f, hf, hs⟩ := typeOf_error h
  obtain hplace | hlimit := settle_located (c.infer_located _ hal ht hf) hs
  · obtain ⟨s, hsome⟩ := Option.isSome_iff_exists.1 (hspans _ hplace)
    exact .inl ⟨s, hsome, hsome ▸ hplace⟩
  · exact .inr hlimit

/-- A case with all its spans, whose arms have different types. -/
def unequalArms : Term :=
  .caseOf
    (.inject "l" (.lit .unit (some (.ofColumns 1 8 4 none)))
      (.variant [⟨"l", .unit⟩, ⟨"r", .unit⟩]) (some (.ofColumns 1 6 7 none)))
    [⟨.con "l" .wild, .lit (.bool true) (some (.ofColumns 2 8 4 none)),
        some (.ofColumns 2 1 11 none)⟩,
      ⟨.con "r" .wild, .lit (.nat 0) (some (.ofColumns 3 8 1 none)), some (.ofColumns 3 1 8 none)⟩]
    (some (.ofColumns 1 1 30 none))

/-- The error is reported at the second arm. -/
theorem typeOfClosed_located_unequalArms :
    (∀ s, unequalArms.Place s → s.isSome) ∧
      (typeOfClosed ⟨∅, ⟨20, none⟩, false⟩ unequalArms).result =
        .error (.type ⟨.arms .bool .nat, some (.ofColumns 3 1 8 none)⟩) ∧
      unequalArms.Place (some (.ofColumns 3 1 8 none)) := by
  have hspans : ∀ s, unequalArms.Place s → s.isSome := Term.isSome_of_placed (n := 3) rfl
  have hrun : (typeOfClosed ⟨∅, ⟨20, none⟩, false⟩ unequalArms).result =
      .error (.type ⟨.arms .bool .nat, some (.ofColumns 3 1 8 none)⟩) := by rfl
  refine ⟨hspans, hrun, ?_⟩
  obtain ⟨s, hs, hplace⟩ | ⟨-, herror⟩ := typeOfClosed_located _ Aliases.wellFormed_empty
    (Term.wellFormed_of_formed (n := 4) rfl) hspans hrun
  · exact Option.some.inj hs ▸ hplace
  · contradiction

/-- A name for functions from itself to the numbers. -/
def recurring : Aliases :=
  (∅ : Aliases).insert "Loop" (.arrow (.named "Loop") .nat)

/-- An identity function with all its spans, at a type that has no end. -/
def endless : Term :=
  .abs (.named "Loop") (.var 0 (some (.ofColumns 1 11 1 none))) (some (.ofColumns 1 1 11 none))

/-- The type of the parameter is refused, and the report does not say where it stands. -/
theorem typeOfClosed_unlocated :
    (∀ s, endless.Place s → s.isSome) ∧ endless.WellFormed ∧ recurring.WellFormed ∧
      (typeOfClosed ⟨recurring, ⟨20, none⟩, false⟩ endless).result =
        .error (.type ⟨.tooDeep 20, none⟩) := by
  have hloop : (Ty.arrow (.named "Loop") .nat).WellFormed := (shift_ok (n := 2) (k := 0) rfl).1
  exact ⟨Term.isSome_of_placed (n := 2) rfl, Term.wellFormed_of_formed (n := 3) rfl,
    Aliases.wellFormed_empty.insert hloop, by rfl⟩

end Checker

end PolyLambda
