import PolyLambda.Proofs.Coupling
import PolyLambda.Proofs.Exhaustive
import PolyLambda.Proofs.Sound

/-!
# PolyLambda.Proofs.ArmOrder

The arms of a case in another order. The check of coverage and the typing of the bodies go through
the arms from left to right, and the type of the case is the one that the first arm has. Still, the
order is of no importance, as long as an arm that catches all the rest comes last.

Coverage asks that each arm be the first to take some label. Two arms with a label each are then
for different labels, and an arm that catches all has no arm after it; said so, nothing is left of
the order. For the bodies, all arms have the same type and each leaves the context as it found it,
so that every one of them is checked in the same context, wherever it stands.

* `Covers.of_perm`: coverage is kept if the arms that catch all stay in last place.
* `Check.rule_caseOf_gives`: when a case has a type, said of each arm for itself.
* `Checker.typeOfClosed_perm`: the type of a case does not depend on the order of its arms.
-/

namespace PolyLambda

/-! ## coverage -/

namespace Pattern

variable {p q : Pattern}

/-- The pattern is a wildcard or a variable, so that it takes every label. -/
def CatchesAll (p : Pattern) : Prop :=
  p = .wild ∨ p = .bind

/-- What catches all takes every label. -/
theorem CatchesAll.takes (h : p.CatchesAll) (label : String) : p.takes label = true := by
  obtain rfl | rfl := h <;> rfl

/-- All other patterns take one label at most. -/
theorem eq_of_takes (hp : ¬ p.CatchesAll) {l l' : String} (h : p.takes l = true)
    (h' : p.takes l' = true) : l = l' := by
  cases p with
  | wild => exact absurd (.inl rfl) hp
  | bind => exact absurd (.inr rfl) hp
  | product items => contradiction
  | con label payload => rw [takes_con.1 h, takes_con.1 h']

/-- No label is taken by both patterns, unless one of them catches all. -/
def Apart (p q : Pattern) : Prop :=
  ¬ p.CatchesAll → ¬ q.CatchesAll → ∀ label, ¬ (p.takes label = true ∧ q.takes label = true)

/-- Being apart does not depend on the order. -/
theorem Apart.symm (h : p.Apart q) : q.Apart p := by
  intro hq hp label htake
  exact h hp hq label htake.symm

end Pattern

namespace Covers

variable {labels : List String} {ps ps' before after : List Pattern} {p : Pattern}

/-- After an arm that catches all no arm is of use. -/
theorem last_of_catchesAll (h : Covers labels (before ++ p :: after)) (hp : p.CatchesAll) :
    after = [] := by
  cases after with
  | nil => rfl
  | cons q after =>
    obtain ⟨label, -, -, hopen⟩ := h.useful (before ++ [p]) q after (by simp)
    have hnot : p.takes label = false := hopen p (by simp)
    rw [hp.takes label] at hnot
    contradiction

/-- Arms for one label each are for different labels. -/
theorem pairwise_apart (h : Covers labels ps) : ps.Pairwise Pattern.Apart := by
  rw [List.pairwise_iff_forall_sublist]
  intro q p hsub _ hp label htake
  obtain ⟨first, rest, rfl, hq, hrest⟩ := List.cons_sublist_iff.1 hsub
  obtain ⟨middle, after, rfl⟩ := List.append_of_mem (List.singleton_sublist.1 hrest)
  -- the later of the two takes a label that the earlier one does not take, and no other
  obtain ⟨own, -, hown, hopen⟩ := h.useful (first ++ middle) p after (by simp)
  obtain rfl := Pattern.eq_of_takes hp htake.2 hown
  have hnot : q.takes label = false := hopen q (by simp [hq])
  rw [htake.1] at hnot
  contradiction

/-- Coverage does not depend on the order, if an arm that catches all comes last. -/
theorem of_perm (h : Covers labels ps) (hperm : ps.Perm ps')
    (hlast : ∀ p ∈ ps'.dropLast, ¬ p.CatchesAll) : Covers labels ps' where
  nonempty := fun hnil => h.nonempty (hnil ▸ hperm).eq_nil
  exhaustive := by
    intro label hl
    obtain ⟨p, hp, htakes⟩ := h.exhaustive label hl
    exact ⟨p, hperm.subset hp, htakes⟩
  useful := by
    rintro before p after rfl
    rw [List.dropLast_append_cons, List.forall_mem_append] at hlast
    have hmem : p ∈ ps := hperm.mem_iff.2 (by simp)
    obtain ⟨before', after', rfl⟩ := List.append_of_mem hmem
    obtain ⟨label, hl, htakes, hopen⟩ := h.useful before' p after' rfl
    refine ⟨label, hl, htakes, fun q hq => ?_⟩
    by_cases hp : p.CatchesAll
    · -- it comes last in both orders, after the same arms
      obtain rfl := h.last_of_catchesAll hp
      have hafter : after = [] := by
        cases after with
        | nil => rfl
        | cons r after => exact absurd hp (hlast.2 p (by simp))
      subst hafter
      exact hopen q ((List.perm_append_right_iff [p]).1 hperm |>.mem_iff.2 hq)
    · have happart : ∀ r ∈ before, r.Apart p := fun r hr =>
        (List.pairwise_append.1 ((hperm.pairwise_iff Pattern.Apart.symm).1 h.pairwise_apart)).2.2
          r hr p List.mem_cons_self
      have hnot := happart q hq (hlast.1 q hq) hp label
      simpa [htakes] using hnot

end Covers

/-! ## what is given -/

namespace Check

variable {α β : Type} {w : Prop} {x : Check α} {f : α → Check β} {Γ : Context} {a : α} {b : β}
  {P : α → Prop} {E : Fault → Prop}

/-- Started in `Γ`, the computation gives `a` and leaves the context as it was. -/
def Gives (x : Check α) (Γ : Context) (a : α) : Prop :=
  ∃ log, x.run Γ = ⟨.ok a, Γ, log⟩

theorem Gives.pure : (pure a : Check α).Gives Γ a :=
  ⟨[], rfl⟩

/-- An answer is used, and the next one given. -/
theorem Gives.bind (hx : x.Gives Γ a) (hf : (f a).Gives Γ b) : (x >>= f).Gives Γ b := by
  obtain ⟨log, hx⟩ := hx
  obtain ⟨log', hf⟩ := hf
  exact ⟨log ++ log', by rw [run_bind_of_ok hx, hf]⟩

theorem Gives.result (h : x.Gives Γ a) : (x.run Γ).result = .ok a := by
  obtain ⟨log, h⟩ := h
  rw [h]

/-- What meets a contract and succeeds gives what it returns. -/
theorem Meets.gives (h : x.Meets w Γ P E) : x.Meets w Γ (fun a => P a ∧ x.Gives Γ a) E := by
  cases h with
  | ok h ha => exact .ok h ⟨ha, _, h⟩
  | error h he => exact .error h he

/-- A list of tests that all pass. -/
theorem gives_forM {γ : Type} {g : γ → Check Unit} {xs : List γ}
    (h : ∀ c ∈ xs, (g c).Gives Γ ()) : (xs.forM g).Gives Γ () := by
  induction xs with
  | nil => exact .pure
  | cons c xs ih =>
    obtain ⟨hc, hxs⟩ := List.forall_mem_cons.1 h
    exact hc.bind (ih hxs)

/-! ## the arms of a case -/

variable {infer : Term → Check Ty} {limit : Limit} {scrutinee : Term} {arms : List (Arm Term)}
  {span : Option Span} {T : Ty}

/-- Arms with one type in common give this type, in whatever order they stand. -/
theorem gives_armsType {bound : List (Arm Term × List Ty)} (hne : bound ≠ [])
    (h : ∀ p ∈ bound, (binding p.2 (infer p.1.body)).Gives Γ T) :
    (armsType infer span bound).Gives Γ T := by
  cases bound with
  | nil => exact absurd rfl hne
  | cons first rest =>
    obtain ⟨hfirst, hrest⟩ := List.forall_mem_cons.1 h
    refine hfirst.bind (Gives.bind (a := ()) (gives_forM fun p hp => ?_) .pure)
    refine (hrest p hp).bind ?_
    rw [if_pos rfl]
    exact .pure

/-- The scrutinee is of the variant with these alternatives, the arms cover it, and each arm for
itself gives `T` with its variables bound. -/
structure Branches (infer : Term → Check Ty) (Γ : Context) (scrutinee : Term)
    (arms : List (Arm Term)) (T : Ty) (fields : List (Field Ty)) : Prop where
  scrutinee : (infer scrutinee).Gives Γ (.variant fields)
  wellFormed : (Ty.variant fields).WellFormed
  covers : Covers (Ty.labels fields) (arms.map (·.pattern))
  arms : ∀ arm ∈ arms, ∃ Us, arm.pattern.Opens Eq fields Us ∧
    (binding Us (infer arm.body)).Gives Γ T

/-- A case analysis with branches of one type has this type. -/
theorem Branches.gives {fields : List (Field Ty)}
    (h : Branches infer Γ scrutinee arms T fields) :
    (rule limit infer (.caseOf scrutinee arms span)).Gives Γ T := by
  obtain ⟨bound, hbound⟩ := exists_forall₂_iff.2 h.arms
  have hopens := hbound.imp fun _ _ hb => hb.1
  have hcheck : Coverage.check fields span arms = .ok bound :=
    (Coverage.check_eq_ok h.wellFormed).2 ⟨h.covers, hopens⟩
  refine h.scrutinee.bind (Gives.bind (a := bound) ⟨[], ?_⟩ ?_)
  · rw [ofExcept, hcheck]
    rfl
  · exact gives_armsType (h.covers.zip_ne_nil hopens) fun p hp => (List.forall₂_zip hbound hp).2

/-- Conversely, a case analysis that has a type has branches of this type. -/
theorem meets_caseOf (ih : RegularParts False infer) (hΓ : Γ.Good) :
    (rule limit infer (.caseOf scrutinee arms span)).Meets False Γ
      (fun T => ∃ fields, Branches infer Γ scrutinee arms T fields) Fault.Expected := by
  have hready : ∀ t, Ready False Fault.Expected Γ t := fun t => ⟨hΓ, False.elim, False.elim⟩
  refine (ih scrutinee Γ (hready _)).gives.bind fun V hV => ?_
  split
  · next fields =>
    refine .bind (P := fun bound => Coverage.check fields span arms = .ok bound)
      (.ofExcept (fun _ hb => mapError_eq_ok.1 hb) fun _ _ => False.elim) fun bound hb => ?_
    obtain ⟨hcov, hopens⟩ := (Coverage.check_eq_ok hV.1.wellFormed).1 hb
    have harms : ∀ p ∈ arms.zip bound, (binding p.2 (infer p.1.body)).Meets False Γ
        (fun T => True ∧ (binding p.2 (infer p.1.body)).Gives Γ T) Fault.Expected := by
      rintro ⟨arm, Us⟩ hmem
      refine ((hready arm.body).arm (List.forall₂_zip hopens hmem) hV.1.settled ?_).gives
      exact fun _ _ h' => (ih arm.body _ h').mono fun _ _ => trivial
    refine (meets_armsType (hcov.zip_ne_nil hopens) harms False.elim).mono fun T hT => ?_
    have hboth := List.forall₂_iff_zip.2 ⟨hopens.length_eq, fun hmem =>
      And.intro (List.forall₂_zip hopens hmem) (hT _ hmem).2⟩
    exact ⟨fields, hV.2, hV.1.wellFormed, hcov, exists_forall₂_iff.1 ⟨bound, hboth⟩⟩
  · exact .fail False.elim

/-- Nothing of this depends on the order, if an arm that catches all comes last. -/
theorem Branches.of_perm {fields : List (Field Ty)} {arms' : List (Arm Term)}
    (h : Branches infer Γ scrutinee arms T fields) (hperm : arms.Perm arms')
    (hlast : ∀ arm ∈ arms'.dropLast, ¬ arm.pattern.CatchesAll) :
    Branches infer Γ scrutinee arms' T fields where
  scrutinee := h.scrutinee
  wellFormed := h.wellFormed
  covers := by
    refine h.covers.of_perm (hperm.map _) ?_
    rwa [← List.map_dropLast, List.forall_mem_map]
  arms := fun arm harm => h.arms arm (hperm.mem_iff.2 harm)

/-- A case has a type exactly if there are alternatives for which each arm has it. -/
theorem rule_caseOf_gives (ih : RegularParts False infer) (hΓ : Γ.Good) :
    (rule limit infer (.caseOf scrutinee arms span)).Gives Γ T ↔
      ∃ fields, Branches infer Γ scrutinee arms T fields := by
  constructor
  · intro h
    exact (meets_caseOf ih hΓ).of_ok h.result
  · rintro ⟨fields, h⟩
    exact h.gives

end Check

/-! ## the checker -/

namespace Checker

open Check

/-- The checker gives a type exactly if the rule for the term does, one level down. -/
theorem infer_succ_gives {c : Checker} {n : Nat} {t : Term} {Γ : Context} {T : Ty} (hΓ : Γ.Good) :
    ((c.infer (n + 1) t).run Γ).result = .ok T ↔ (rule c.limit (c.infer n) t).Gives Γ T := by
  constructor
  · intro h
    have hrule : Regular False (rule c.limit (c.infer n) t) Γ :=
      rule_inferred (c.infer_inferred n) ⟨hΓ, False.elim, False.elim⟩
    exact ((meets_infer hrule.gives).of_ok h).2
  · rintro ⟨log, h⟩
    obtain ⟨log', h'⟩ := run_infer_of_rule h
    rw [h']

/-- The type of a case is the same for every order of its arms in which no arm that catches all
comes before another. -/
theorem typeOfClosed_perm (c : Checker) {scrutinee : Term} {arms arms' : List (Arm Term)}
    {span span' : Option Span} {T : Ty} (hperm : arms.Perm arms')
    (hlast : ∀ arm ∈ arms'.dropLast, ¬ arm.pattern.CatchesAll)
    (h : (c.typeOfClosed (.caseOf scrutinee arms span)).result = .ok T) :
    (c.typeOfClosed (.caseOf scrutinee arms' span')).result = .ok T := by
  have hgood : c.freshContext.Good := Context.good_fresh c.aliases c.limit
  refine typeOf_eq_ok.2 ?_
  replace h := typeOf_eq_ok.1 h
  cases hn : c.limit.levels with
  | zero =>
    rw [hn] at h
    contradiction
  | succ n =>
    rw [hn, infer_succ_gives hgood, rule_caseOf_gives (c.infer_inferred n) hgood] at h
    rw [infer_succ_gives hgood, rule_caseOf_gives (c.infer_inferred n) hgood]
    obtain ⟨fields, h⟩ := h
    exact ⟨fields, h.of_perm hperm hlast⟩

/-- A number, a pair or nothing. -/
def reading : Ty :=
  .variant [⟨"count", .nat⟩, ⟨"pair", .product [.bool, .nat]⟩, ⟨"none", .unit⟩]

/-- Arms that give, as a constant function, the number in a reading, and zero if there is none. -/
def readingArms : List (Arm Term) :=
  [⟨.con "count" .bind, .abs .bool (.var 1 none) none, none⟩,
    ⟨.con "pair" (.product [.wild, .bind]), .abs .bool (.var 1 none) none, none⟩,
    ⟨.wild, .abs .bool (.lit (.nat 0) none) none, none⟩]

/-- The same arms with the first two exchanged, which bind different variables. -/
def readingArms' : List (Arm Term) :=
  [⟨.con "pair" (.product [.wild, .bind]), .abs .bool (.var 1 none) none, none⟩,
    ⟨.con "count" .bind, .abs .bool (.var 1 none) none, none⟩,
    ⟨.wild, .abs .bool (.lit (.nat 0) none) none, none⟩]

theorem typeOfClosed_perm_reading :
    readingArms.Perm readingArms' ∧ (∀ arm ∈ readingArms'.dropLast, ¬ arm.pattern.CatchesAll) ∧
      (typeOfClosed ⟨∅, ⟨9, none⟩, false⟩
        (.caseOf (.inject "count" (.lit (.nat 3) none) reading none) readingArms none)).result =
          .ok (.arrow .bool .nat) ∧
      (typeOfClosed ⟨∅, ⟨9, none⟩, false⟩
        (.caseOf (.inject "count" (.lit (.nat 3) none) reading none) readingArms' none)).result =
          .ok (.arrow .bool .nat) := by
  have hperm : readingArms.Perm readingArms' := .swap _ _ _
  have hlast : ∀ arm ∈ readingArms'.dropLast, ¬ arm.pattern.CatchesAll := by
    simp [readingArms', Pattern.CatchesAll]
  have htype : (typeOfClosed ⟨∅, ⟨9, none⟩, false⟩
      (.caseOf (.inject "count" (.lit (.nat 3) none) reading none) readingArms none)).result =
        .ok (.arrow .bool .nat) := by decide
  exact ⟨hperm, hlast, htype, typeOfClosed_perm _ hperm hlast htype⟩

end Checker

end PolyLambda
