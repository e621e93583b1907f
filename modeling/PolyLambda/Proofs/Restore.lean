import PolyLambda.Proofs.Coupling
import PolyLambda.Session

/-!
# PolyLambda.Proofs.Restore

A check leaves everything as it was. Whether it gives a type or fails, in the middle of whatever
binders and however deep, the context has the same variables at the same depths, the same open
scopes and the same aliases afterwards, and the checker counts the same levels. This holds over any
table of aliases, also where definitions have holes or are cyclic.

The count is restored because no level is left without counting back, which the typing rules know
nothing of (`Checker.synthesize_keeps`). What makes the rest hold is the shape of inferred types.
Variables are bound one after another, and a type that did not resolve would leave those before it
bound. The types that the pattern of an arm binds always resolve, since they are parts of an
inferred variant.

* `Coupling.alone` puts a check beside itself, and says only that contexts are restored.
* `Checker.typeOf_restores`: the context, the count, and the session around them are as before.
-/

namespace PolyLambda

open Ty

/-- A check beside itself, over some aliases and under some limit of the context. It may fail in
any way. -/
def Coupling.alone (l : Limit) (aliases : Aliases) (limit : Limit) : Coupling l l where
  Contexts Γ Γ' := Γ = Γ' ∧ Γ.Good ∧ Γ.aliases = aliases ∧ Γ.limit = limit
  Types _ T := T.Inferred aliases limit.levels
  Written _ := Eq
  Spans := Eq
  Fails _ _ := True
  good := by
    rintro Γ _ ⟨rfl, h, -, -⟩
    exact ⟨h, h⟩
  openScope := by
    rintro Γ _ ⟨rfl, h, hal, hlim⟩
    exact ⟨rfl, h.openScope, hal, hlim⟩
  push := by
    rintro Γ _ T ⟨rfl, h, hal, hlim⟩ _
    refine .same (fun U hU => ?_) fun _ _ => trivial
    exact ⟨rfl, h.bindOne (Context.resolve_ok hU).2, hal, hlim⟩
  inferred := by
    rintro Γ _ T ⟨rfl, -, rfl, rfl⟩ hT
    exact ⟨hT, hT⟩
  node hs hc := .plain hs hc
  child := fun h hA => h.child hA
  lookUp := by
    rintro Γ _ i s _ ⟨rfl, h, rfl, rfl⟩ rfl
    exact .same (fun T hT => h.lookUp_inferred hT) fun _ _ => trivial
  resolve := by
    rintro Γ _ T _ ⟨rfl, -, rfl, rfl⟩ rfl
    exact .same (fun U hU => (Context.resolve_ok hU).2.inferred) fun _ _ => trivial
  instantiate := by
    rintro Γ _ body A ⟨rfl, -, rfl, rfl⟩ _ _
    exact .same (fun U hU => (Context.instantiate_settled hU).inferred) fun _ _ => trivial
  lower := by
    rintro d B s _ hB rfl
    refine .same (fun U hU => ?_) fun _ _ => trivial
    rw [Limit.lower_ok hU] at hB
    exact inferred_lift.1 hB
  mistake _ _ := trivial
  orElse := by
    rintro s _ r _ rfl rfl
    rfl

namespace Checker

/-- Inference ends in the context it began in. -/
theorem infer_restores (c : Checker) (n : Nat) {Γ : Context} (hΓ : Γ.Good) {t : Term}
    (ht : t.WellFormed) : ∃ r log, (c.infer n t).run Γ = ⟨r, Γ, log⟩ := by
  let K := Coupling.alone c.limit Γ.aliases Γ.limit
  have hparts : K.Parts (c.infer n) (c.infer n) :=
    K.infer_inStep (Nat.le_refl n) fun _ => .inl trivial
  have hterm : K.Terms Γ.depth t t := ht.alike (fun _ _ _ => rfl) fun _ => rfl
  cases hparts ⟨rfl, hΓ, rfl, rfl⟩ hterm with
  | ok h _ _ => exact ⟨_, _, h⟩
  | stop h _ => exact ⟨_, _, h⟩
  | error h _ _ => exact ⟨_, _, h⟩

/-- A checker at work ends in the context and with the count it began with, whatever this count
is and wherever the recursion is cut off. -/
theorem synthesize_restores (c : Checker) (n count : Nat) {Γ : Context} (hΓ : Γ.Good) {t : Term}
    (ht : t.WellFormed) :
    ∃ r log, (c.synthesize n t).run count Γ = (⟨r, Γ, log⟩, count) := by
  obtain ⟨r, log, hrun⟩ := c.infer_restores (min n (c.limit.levels - count)) hΓ ht
  exact ⟨r, log, by rw [c.synthesize_keeps n count t Γ, hrun]⟩

/-- How a check is concluded does not touch the context. -/
theorem conclude_context (c : Checker) (t : Term) (o : Outcome Ty) :
    (c.conclude t o).context = o.context := by
  unfold conclude
  split
  · rfl
  · split <;> rfl

theorem check_restores (c : Checker) (count : Nat) {Γ : Context} (hΓ : Γ.Good) {t : Term}
    (ht : t.WellFormed) :
    ((c.check t).run count Γ).1.context = Γ ∧ ((c.check t).run count Γ).2 = count := by
  obtain ⟨r, log, hrun⟩ := c.synthesize_restores c.limit.levels count hΓ ht
  simp only [check, conclude_context, hrun, and_self]

/-- A check leaves the context as it was, and the checker counting the levels it did: in the middle
of other work, with any count and any number of levels to go; seen from outside; and in a session,
where the checker, its count and all contexts are as before. -/
theorem typeOf_restores (s : Session) {aliases : Aliases} {Δ : Telescope}
    (h : Context.Reaches aliases s.current Δ) {t : Term} (ht : t.WellFormed) :
    (∀ n count, ((s.checker.synthesize n t).run count s.current).1.context = s.current ∧
        ((s.checker.synthesize n t).run count s.current).2 = count) ∧
      ((s.checker.typeOf t).run s.current).context = s.current ∧
      (s.perform (.typeOf t)).session = s := by
  refine ⟨fun n count => ?_, (s.checker.check_restores 0 h.good ht).1, ?_⟩
  · obtain ⟨r, log, hrun⟩ := s.checker.synthesize_restores n count h.good ht
    rw [hrun]
    exact ⟨rfl, rfl⟩
  · obtain ⟨hcontext, hcount⟩ := s.checker.check_restores s.count h.good ht
    simp only [Session.perform, hcontext, hcount]

/-- A number, and inside a type scope a pair of a number and something of the type of the
scope. -/
def paired : Context :=
  ⟨[⟨.variant [⟨"l", .product [.nat, .var 0]⟩], 1⟩, ⟨.nat, 0⟩], 1, looping, ⟨40, none⟩⟩

/-- A case with an arm that binds both components of a pair and names a fifth variable. -/
def outOfReach : Term :=
  .caseOf (.var 0 none) [⟨.con "l" (.product [.bind, .bind]), .var 4 none, none⟩] none

/-- A session over `paired`, whose checker is in this many levels. -/
def pairedSession (count : Nat) : Session :=
  ⟨⟨∅, ⟨40, none⟩, true⟩, count, paired, none⟩

/-- The check inside the arm fails with four variables bound and two levels entered; two variables
and no level are left. In the last level but one it is the count that makes the check fail. -/
theorem typeOf_restores_outOfReach :
    (∃ Δ, Context.Reaches looping paired Δ) ∧ outOfReach.WellFormed ∧
      ((pairedSession 0).perform (.typeOf outOfReach)).answer =
        .failed (.type ⟨.unbound 4, none⟩) ∧
      ((pairedSession 0).perform (.typeOf outOfReach)).session = pairedSession 0 ∧
      ((pairedSession 39).perform (.typeOf outOfReach)).answer =
        .failed (.type ⟨.tooDeep 40, none⟩) ∧
      ((pairedSession 39).perform (.typeOf outOfReach)).session = pairedSession 39 := by
  have hpush : (Context.fresh looping ⟨40, none⟩).push .nat =
      .ok ⟨[⟨.nat, 0⟩], 0, looping, ⟨40, none⟩⟩ := rfl
  have hreach : Context.Reaches looping paired _ :=
    .push (T := .variant [⟨"l", .product [.nat, .var 0]⟩]) (.openScope (.push (.fresh _) hpush)) rfl
  have hterm : outOfReach.WellFormed := Term.wellFormed_of_formed (n := 2) rfl
  refine ⟨⟨_, hreach⟩, hterm, rfl, ?_, rfl, ?_⟩
  · exact (typeOf_restores (pairedSession 0) hreach hterm).2.2
  · exact (typeOf_restores (pairedSession 39) hreach hterm).2.2

end Checker

end PolyLambda
