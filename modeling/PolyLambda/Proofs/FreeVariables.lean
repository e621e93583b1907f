import PolyLambda.Proofs.Occurrences

/-!
# PolyLambda.Proofs.FreeVariables

Free variables under shifts and instantiations. A shift, a substitution and the test for a free
variable are three traversals, each of which counts binders for itself. They agree on what is free:
the test says of a shifted type and of an instance what it should say, given its answers for the
types that these come from.

A variable may be free in an instance for two reasons only. It was free in the body, where its index
is greater by one; or the variable of the binder was free there, and it is free in the type that was
put in. So no variable is captured by a binder of the body, none is lost, and none is new.

* `Ty.everyVar_replace_iff`: what holds of every variable after replacing.
* `Ty.lacks_lift`, `Ty.lacks_inst`: which variables do not occur in a lifted type or in an
  instance.
* `Ty.run_occurs_free`: the test for a free variable after a shift, and after an instantiation.
* `Ty.StaysFree.raise_raise`: raising twice is raising once, if what is free stays free.
* `Ty.run_shift_shift`: two shifts are one, for amounts of either sign.
-/

namespace PolyLambda.Ty

variable {n c d e : Nat} {T U A B : Ty} {P Q : Nat → Int → Prop}

/-! ## variables that do not occur -/

/-- What holds of every variable holds of the occurrences. -/
theorem everyVar_iff : T.EveryVar P c ↔ ∀ o ∈ T.occurrences c, P o.under o.index := by
  induction T using byVars generalizing c with
  | var i =>
    rw [occurrences, List.forall_mem_singleton]
    exact ⟨EveryVar.at, .var⟩
  | node T hT ih =>
    rw [occurrences_node hT]
    constructor
    · intro h o ho
      obtain ⟨U, hU, ho⟩ := List.mem_flatMap.1 ho
      exact (ih U hU).1 (h.child hU) o ho
    · intro h
      refine .node hT fun U hU => (ih U hU).2 fun o ho => h o ?_
      exact List.mem_flatMap.2 ⟨U, hU, ho⟩

/-- What holds of every variable after replacing is what makes it hold of all that is put in. -/
theorem everyVar_replace_iff {f : Nat → Int → Ty}
    (h : ∀ n i, (f (c + n) i).EveryVar Q (d + n) ↔ P (e + n) i) :
    (T.replace f c).EveryVar Q d ↔ T.EveryVar P e := by
  induction T using byVars generalizing c d e with
  | var i => exact ⟨fun hi => .var ((h 0 i).1 hi), fun hi => (h 0 i).2 hi.at⟩
  | node T hT ih =>
    have hf : ∀ i, (T.replace f c).shape ≠ .var i := by simpa only [shape_replace hT] using hT
    have hpart : ∀ U ∈ T.children, (U.replace f (c + T.shape.binds)).EveryVar Q
        (d + T.shape.binds) ↔ U.EveryVar P (e + T.shape.binds) := by
      intro U hU
      apply ih U hU
      intro n i
      simpa only [Nat.add_assoc] using h (T.shape.binds + n) i
    constructor
    · intro hT'
      refine .node hT fun U hU => (hpart U hU).1 ?_
      have hmem : U.replace f (c + T.shape.binds) ∈ (T.replace f c).children := by
        rw [children_replace hT]
        exact List.mem_map_of_mem hU
      have hU' := hT'.child hmem
      rwa [shape_replace hT] at hU'
    · intro hT'
      refine .node hf ?_
      rw [children_replace hT, shape_replace hT]
      intro V hV
      obtain ⟨U, hU, rfl⟩ := List.mem_map.1 hV
      exact (hpart U hU).2 (hT'.child hU)

/-- Variable `k`, counted from outside, does not occur in a type that stands under `c` binders. -/
def Lacks (k : Int) (c : Nat) (T : Ty) : Prop :=
  T.EveryVar (fun n j => j ≠ k + n) c

theorem lacks_var {k j : Int} : (Ty.var j).Lacks k c ↔ j ≠ k + c :=
  ⟨EveryVar.at, fun h => EveryVar.var h⟩

/-- Under binders, a type that was lifted over them lacks what it lacks outside. -/
theorem lacks_lift_under (i c : Nat) : (A.lift c 0).Lacks i c ↔ A.Lacks i 0 := by
  apply everyVar_replace_iff
  intro n j
  change ((Ty.var j).lift c (0 + n)).Lacks i (c + n) ↔ j ≠ i + (0 + n : Nat)
  rcases Int.lt_or_le j (0 + n : Nat) with hj | hj
  · rw [lift_var_of_lt hj, lacks_var]
    omega
  · rw [lift_var_of_le hj, lacks_var]
    omega

/-- A lifted type lacks the variables below the lifting, and of the others those that the type
itself lacks. -/
theorem lacks_lift (i d : Nat) : (T.lift d 0).Lacks i 0 ↔ (d ≤ i → T.Lacks (i - d) 0) := by
  have hvar : ∀ n j, (liftVar d (0 + n) j).Lacks i (0 + n) ↔
      ¬ (d ≤ i ∧ j = i - d + (0 + n : Nat)) := by
    intro n j
    change ((Ty.var j).lift d (0 + n)).Lacks i (0 + n) ↔ _
    rcases Int.lt_or_le j (0 + n : Nat) with hj | hj
    · rw [lift_var_of_lt hj, lacks_var]
      omega
    · rw [lift_var_of_le hj, lacks_var]
      omega
  have hlift : (T.lift d 0).Lacks i 0 ↔ T.EveryVar (fun n j => ¬ (d ≤ i ∧ j = i - d + n)) 0 :=
    everyVar_replace_iff hvar
  rw [hlift]
  by_cases hd : d ≤ i
  · simp only [hd, true_and, forall_const]
    rfl
  · simp only [hd, false_and, not_false_eq_true, false_implies, iff_true]
    exact everyVar_of_forall (fun _ _ => trivial) T

/-- An instance lacks what the body lacks one index further up, unless the variable of the binder
occurs and brings it in. -/
theorem lacks_inst (i : Nat) :
    (B.inst A).Lacks i 0 ↔ B.Lacks (i + 1) 0 ∧ (A.Lacks i 0 ∨ B.Lacks 0 0) := by
  have hvar : ∀ n j, (instVar A (0 + n) j).Lacks i (0 + n) ↔
      j ≠ i + 1 + (0 + n : Nat) ∧ (A.Lacks i 0 ∨ j ≠ 0 + (0 + n : Nat)) := by
    intro n j
    change ((Ty.var j).instAt (0 + n) A).Lacks i (0 + n) ↔ _
    rcases Int.lt_trichotomy j (0 + n : Nat) with hj | hj | hj
    · rw [instAt_var_of_lt hj, lacks_var]
      omega
    · rw [hj, instAt_var_self, lacks_lift_under, Int.zero_add, ne_self_iff_false, or_false,
        and_iff_right (by omega)]
    · rw [instAt_var_of_gt hj, lacks_var]
      omega
  have hinst : (B.inst A).Lacks i 0 ↔
      B.EveryVar (fun n j => j ≠ i + 1 + n ∧ (A.Lacks i 0 ∨ j ≠ 0 + n)) 0 :=
    everyVar_replace_iff hvar
  rw [hinst]
  simp only [Lacks, everyVar_iff, forall₂_and, forall_or_left]

/-! ## the test for a free variable -/

/-- Within the limit, the test answers whether the variable occurs. -/
theorem run_occurs {limit : Limit} (hT : T.WellFormed) (hf : T.Fits limit.levels) (k : Int) :
    ∃ b, (limit.run fun n => T.occurs n k) = .ok b ∧ (b = true ↔ ¬ T.Lacks k 0) := by
  obtain ⟨b, hb⟩ := occurs_of_fits hT hf k
  refine ⟨b, mapError_eq_ok.2 hb, ?_⟩
  rw [Lacks, ← occurs_ok hb, Bool.not_eq_false]

/-- Wherever a shift upwards and an instantiation give a type, the test for a free variable has an
answer for it and for the types it comes from. A variable is free in the shifted type exactly if it
is not below the amount, and the one below it by the amount is free in the type itself. It is free
in an instance exactly if the next one is free in the body, or if the variable of the binder is free
in the body and it is free in the type that was put in. -/
theorem run_occurs_free (limit : Limit) (i : Nat) :
    (∀ (d : Nat) {T U : Ty}, (limit.run fun n => T.shift n d) = .ok U →
        ∃ b b', (limit.run fun n => U.occurs n i) = .ok b ∧
          (limit.run fun n => T.occurs n (i - d)) = .ok b' ∧ (b = true ↔ d ≤ i ∧ b' = true)) ∧
      ∀ {A B V : Ty}, (limit.run fun n => B.instantiate n A) = .ok V →
        ∃ b next bound a, (limit.run fun n => V.occurs n i) = .ok b ∧
          (limit.run fun n => B.occurs n (i + 1)) = .ok next ∧
          (limit.run fun n => B.occurs n 0) = .ok bound ∧
          (limit.run fun n => A.occurs n i) = .ok a ∧
          (b = true ↔ next = true ∨ bound = true ∧ a = true) := by
  constructor
  · intro d T U h
    obtain ⟨hT, hf, rfl⟩ := shift_ok (mapError_eq_ok.1 h)
    obtain ⟨b, hb, hfree⟩ := run_occurs (wellFormed_lift.2 hT) (fits_lift.2 hf) i
    obtain ⟨b', hb', hfree'⟩ := run_occurs hT hf (i - d)
    refine ⟨b, b', hb, hb', ?_⟩
    rw [hfree, hfree', lacks_lift, Classical.not_imp]
  · intro A B V h
    have hinst := mapError_eq_ok.1 h
    obtain ⟨hAf, hBf, hVf⟩ := instantiate_fits hinst
    obtain ⟨hB, hA, rfl⟩ := instantiate_ok hinst
    obtain ⟨b, hb, hfree⟩ := run_occurs (hB.inst hA) hVf i
    obtain ⟨next, hnext, hfree'⟩ := run_occurs hB hBf (i + 1)
    obtain ⟨bound, hbound, hfree₀⟩ := run_occurs hB hBf 0
    obtain ⟨a, ha, hfreeA⟩ := run_occurs hA hAf i
    refine ⟨b, next, bound, a, hb, hnext, hbound, ha, ?_⟩
    rw [hfree, hfree', hfree₀, hfreeA, lacks_inst, not_and_or, not_or, and_comm]

/-- Variable `0` under one binder and under two, and variable `2` under two. -/
def twined : Ty :=
  .binder .ex (.arrow (.var 1) (.binder .all (.product [.var 2, .var 0, .var 4])))

/-- A recursive type that mentions variable `3`. -/
def knot : Ty :=
  .binder .mu (.arrow (.var 0) (.var 4))

/-- Variable `2` becomes `4` when the type is shifted by two. In the instance, variable `3` comes in
with the type that is put in, under one binder and under two. -/
theorem run_occurs_free_twined :
    (Limit.run ⟨8, none⟩ fun n => twined.shift n 2) =
        .ok (.binder .ex (.arrow (.var 3) (.binder .all (.product [.var 4, .var 0, .var 6])))) ∧
      (Limit.run ⟨8, none⟩ fun n => (Ty.binder .ex
          (.arrow (.var 3) (.binder .all (.product [.var 4, .var 0, .var 6])))).occurs n 4) =
        .ok true ∧
      (Limit.run ⟨8, none⟩ fun n => twined.instantiate n knot) =
        .ok (.binder .ex (.arrow (.binder .mu (.arrow (.var 0) (.var 5)))
          (.binder .all (.product [.binder .mu (.arrow (.var 0) (.var 6)), .var 0, .var 3])))) ∧
      (Limit.run ⟨8, none⟩ fun n => (Ty.binder .ex (.arrow (.binder .mu (.arrow (.var 0) (.var 5)))
          (.binder .all (.product [.binder .mu (.arrow (.var 0) (.var 6)), .var 0,
            .var 3])))).occurs n 3) = .ok true := by
  have hshift : (Limit.run ⟨8, none⟩ fun n => twined.shift n 2) =
      .ok (.binder .ex (.arrow (.var 3) (.binder .all (.product [.var 4, .var 0, .var 6])))) := rfl
  have hinst : (Limit.run ⟨8, none⟩ fun n => twined.instantiate n knot) =
      .ok (.binder .ex (.arrow (.binder .mu (.arrow (.var 0) (.var 5)))
        (.binder .all (.product [.binder .mu (.arrow (.var 0) (.var 6)), .var 0, .var 3])))) := rfl
  obtain ⟨b, b', hb, hb', hfree⟩ := (run_occurs_free ⟨8, none⟩ 4).1 2 hshift
  obtain ⟨v, next, bound, a, hv, -, hbound, ha, hfree'⟩ := (run_occurs_free ⟨8, none⟩ 3).2 hinst
  have htwo : b' = true := (Except.ok.inj hb').symm
  have hzero : bound = true := (Except.ok.inj hbound).symm
  have hthree : a = true := (Except.ok.inj ha).symm
  exact ⟨hshift, hb.trans (by rw [hfree.2 ⟨by decide, htwo⟩]), hinst,
    hv.trans (by rw [hfree'.2 (.inr ⟨hzero, hthree⟩)])⟩

/-! ## shifts in sequence -/

/-- The free variables of a type stay free when `d` is added to them. -/
def StaysFree (T : Ty) (d : Int) : Prop :=
  ∀ o ∈ T.occurrences 0, o.Free → 0 ≤ o.index - o.under + d

instance (T : Ty) (d : Int) : Decidable (T.StaysFree d) :=
  inferInstanceAs (Decidable (∀ o ∈ T.occurrences 0, o.Free → 0 ≤ o.index - o.under + d))

theorem wellFormed_raise {d : Int} (hT : T.WellFormed) : (T.raise d c).WellFormed := by
  refine EveryShape.replace (P := Shape.Proper) (fun c i => ?_) hT
  unfold raiseVar
  split <;> exact everyShape_var proper_var _

theorem fits_raise {d : Int} : (T.raise d c).Fits n ↔ T.Fits n := by
  refine fits_replace fun c i => ?_
  unfold raiseVar
  split <;> exact ⟨_, rfl⟩

theorem raise_zero (T : Ty) : T.raise 0 c = T := by
  apply replace_id
  intro n i
  simp [raiseVar]

/-- A shift is not refused where free variables stay free. -/
theorem StaysFree.shift {d : Int} (h : T.StaysFree d) (hT : T.WellFormed) (hf : T.Fits n) :
    T.shift n d = .ok (T.raise d 0) := by
  have hnone : (T.occurrences 0).find? (·.Sinks d) = none := by
    rw [List.find?_eq_none]
    intro o ho hsinks
    obtain ⟨hfree, hneg⟩ : o.Sinks d := by simpa using hsinks
    have hup := h o ho hfree
    omega
  rw [shift_eq hT hf, hnone, Option.elim_none]

/-- What is free after a shift was free before. -/
theorem StaysFree.raise {d₁ d₂ : Int} (h : T.StaysFree (d₁ + d₂)) :
    (T.raise d₂ 0).StaysFree d₁ := by
  unfold StaysFree
  rw [occurrences_raise, List.forall_mem_map]
  intro o ho hfree
  by_cases hfree' : o.Free
  · have hup := h o ho hfree'
    rw [Occurrence.raise, if_pos hfree']
    dsimp only
    omega
  · rw [Occurrence.raise, if_neg hfree'] at hfree
    exact absurd hfree hfree'

/-- Raising twice is raising once: a variable that stays free is raised by both. -/
theorem StaysFree.raise_raise {d₁ d₂ : Int} (h : T.StaysFree d₂) :
    (T.raise d₂ 0).raise d₁ 0 = T.raise (d₁ + d₂) 0 := by
  have htwice : (T.raise d₂ 0).raise d₁ 0 =
      T.replace (fun n i => (raiseVar d₂ n i).raise d₁ n) 0 :=
    replace_replace (fun n i => rfl) T
  rw [htwice]
  refine replace_congr (everyVar_iff.2 fun o ho => ?_)
  by_cases hi : o.index < o.under
  · simp only [raiseVar, hi, if_true, Ty.raise, replace]
  · have hup := h o ho (Int.not_lt.1 hi)
    simp only [raiseVar, hi, if_false, Ty.raise, replace]
    rw [if_neg (by omega)]
    congr 1
    omega

/-- Two shifts of a type within the limit are one shift by the sum, if every free variable stays
free in the first and in both together. In particular a shift by zero changes nothing, and a shift
upwards can be undone. -/
theorem run_shift_shift (limit : Limit) (hT : T.WellFormed) (hf : T.height ≤ limit.levels) :
    (∀ d₁ d₂ : Int, T.StaysFree d₂ → T.StaysFree (d₁ + d₂) →
        ∃ U V, (limit.run fun n => T.shift n d₂) = .ok U ∧
          (limit.run fun n => U.shift n d₁) = .ok V ∧
          (limit.run fun n => T.shift n (d₁ + d₂)) = .ok V) ∧
      (limit.run fun n => T.shift n 0) = .ok T ∧
      ∀ d : Nat, ∃ U, (limit.run fun n => T.shift n d) = .ok U ∧
        (limit.run fun n => U.shift n (-d)) = .ok T := by
  have hfits : T.Fits limit.levels := fits_iff.2 hf
  have htwice : ∀ d₁ d₂ : Int, T.StaysFree d₂ → T.StaysFree (d₁ + d₂) →
      (limit.run fun n => T.shift n d₂) = .ok (T.raise d₂ 0) ∧
        (limit.run fun n => (T.raise d₂ 0).shift n d₁) = .ok (T.raise (d₁ + d₂) 0) ∧
        (limit.run fun n => T.shift n (d₁ + d₂)) = .ok (T.raise (d₁ + d₂) 0) := by
    intro d₁ d₂ h₂ h₁
    have hsecond := h₁.raise.shift (wellFormed_raise hT) (fits_raise.2 hfits)
    rw [h₂.raise_raise] at hsecond
    exact ⟨mapError_eq_ok.2 (h₂.shift hT hfits), mapError_eq_ok.2 hsecond,
      mapError_eq_ok.2 (h₁.shift hT hfits)⟩
  have hup : ∀ d : Nat, T.StaysFree d := fun d o _ hfree => by
    have hle : (o.under : Int) ≤ o.index := hfree
    omega
  refine ⟨fun d₁ d₂ h₂ h₁ => ⟨_, _, htwice d₁ d₂ h₂ h₁⟩, ?_, fun d => ?_⟩
  · have hzero := (htwice 0 0 (hup 0) (hup 0)).1
    rwa [raise_zero] at hzero
  · have hsum : -(d : Int) + d = (0 : Nat) := by omega
    obtain ⟨hfirst, hsecond, -⟩ := htwice (-d) d (hup d) (hsum ▸ hup 0)
    rw [hsum, Int.natCast_zero, raise_zero] at hsecond
    exact ⟨_, hfirst, hsecond⟩

/-- Variable `3`, under a binder, goes down to `0` and up to `2`. -/
theorem run_shift_shift_knot :
    knot.WellFormed ∧ knot.height ≤ (Limit.mk 3 none).levels ∧
      knot.StaysFree (-3) ∧ knot.StaysFree (2 + -3) ∧
      (Limit.run ⟨3, none⟩ fun n => knot.shift n (-3)) =
        .ok (.binder .mu (.arrow (.var 0) (.var 1))) ∧
      (Limit.run ⟨3, none⟩ fun n => (Ty.binder .mu (.arrow (.var 0) (.var 1))).shift n 2) =
        .ok (.binder .mu (.arrow (.var 0) (.var 3))) ∧
      (Limit.run ⟨3, none⟩ fun n => knot.shift n (2 + -3)) =
        .ok (.binder .mu (.arrow (.var 0) (.var 3))) := by
  have hwf : knot.WellFormed := (shift_ok (n := 3) (k := 0) rfl).1
  have hheight : knot.height ≤ (Limit.mk 3 none).levels := by decide
  have hdown : knot.StaysFree (-3) := by decide
  have hboth : knot.StaysFree (2 + -3) := by decide
  obtain ⟨U, V, hU, hV, hsum⟩ := (run_shift_shift ⟨3, none⟩ hwf hheight).1 2 (-3) hdown hboth
  obtain rfl : Ty.binder .mu (.arrow (.var 0) (.var 1)) = U := Except.ok.inj hU
  obtain rfl : Ty.binder .mu (.arrow (.var 0) (.var 3)) = V := Except.ok.inj hV
  exact ⟨hwf, hheight, hdown, hboth, hU, hV, hsum⟩

end PolyLambda.Ty
