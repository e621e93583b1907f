import PolyLambda.Proofs.Complete
import PolyLambda.Proofs.Coupling

/-!
# PolyLambda.Proofs.Deeper

The limit only bounds resources. A check that does not fail for want of levels gives the same
type, or finds the same mistake, under every higher limit.

* `Kept` relates two results of which the second is the first, if that is a value. It goes
  through sequences, so each traversal of types keeps its results when it is given more levels:
  `Ty.kept_shift`, `Ty.kept_instantiate`, `Ty.kept_occurs`, `Ty.kept_reduce`, `Ty.kept_resolve`.
* `Coupling.deeper` puts the checks of a term under two limits side by side. The first may stop
  for want of levels; until then they do the same.
* `Checker.typeOfClosed_deeper` is the statement for the checker.
-/

namespace PolyLambda

open Ty

/-! ## results that are kept -/

/-- If the first result is a value, the second is the same value. -/
def Kept {ε ε' α : Type} (r : Except ε α) (r' : Except ε' α) : Prop :=
  ∀ a, r = .ok a → r' = .ok a

namespace Kept

variable {ε α β : Type}

theorem refl (r : Except ε α) : Kept r r :=
  fun _ h => h

theorem of_error (e : ε) (r : Except ε α) : Kept (.error e) r :=
  nofun

/-- Answers that are kept may be used for others. -/
theorem bind {r r' : Except ε α} {f g : α → Except ε β} (h : Kept r r')
    (hf : ∀ a, Kept (f a) (g a)) : Kept (r >>= f) (r' >>= g) := by
  intro b hb
  obtain ⟨a, ha, hb⟩ := bind_eq_ok.1 hb
  exact bind_eq_ok.2 ⟨a, h a ha, hf a b hb⟩

/-- An answer of a traversal is kept under a limit. -/
theorem run {l l' : Limit} {walk : Nat → Except Ty.Fault α}
    (h : Kept (walk l.levels) (walk l'.levels)) : Kept (l.run walk) (l'.run walk) :=
  fun a ha => mapError_eq_ok.2 (h a (mapError_eq_ok.1 ha))

end Kept

/-! ## more levels for a traversal -/

namespace Ty

variable {n m : Nat} {T U A body : Ty} {aliases : Aliases}

/-- If the parts of a type are treated as before, so is the type. -/
theorem kept_mapParts {f g : Nat → Ty → Except Fault Ty} (h : ∀ k U, Kept (f k U) (g k U))
    (T : Ty) : Kept (T.mapParts f) (T.mapParts g) := by
  intro U hU
  rw [mapParts_eq_ok] at hU ⊢
  obtain ⟨hd, hs, hc⟩ := hU
  exact ⟨hd, hs, hc.imp fun A B hB => h _ A B hB⟩

/-- A traversal that replaces variables keeps its results with more levels, if the replacements
are kept. -/
theorem kept_mapVars {onVar onVar' : Nat → Int → Except Fault Ty}
    (hv : ∀ c i, Kept (onVar c i) (onVar' c i)) (h : n ≤ m) {c : Nat} :
    Kept (T.mapVars onVar n c) (T.mapVars onVar' m c) := by
  induction n generalizing m c T with
  | zero => exact .of_error _ _
  | succ n ih =>
    obtain ⟨m, rfl⟩ := Nat.exists_eq_succ_of_ne_zero (Nat.ne_zero_of_lt h)
    have hparts := kept_mapParts (fun k U => ih (T := U) (c := c + k) (Nat.le_of_succ_le_succ h)) T
    cases T with
    | hole => exact .of_error _ _
    | var i => exact hv c i
    | _ => exact hparts

/-- A shift that had levels enough gives the same with more. -/
theorem kept_shift (h : n ≤ m) (k : Int) : Kept (T.shift n k) (T.shift m k) :=
  kept_mapVars (fun _ _ => .refl _) h

theorem kept_subst (h : n ≤ m) : Kept (T.subst n A) (T.subst m A) := by
  refine kept_mapVars (fun c i => ?_) h
  unfold substVar
  split
  · exact kept_shift h c
  · exact .refl _

/-- An instance is three traversals, and all three are kept. -/
theorem kept_instantiate (h : n ≤ m) : Kept (body.instantiate n A) (body.instantiate m A) := by
  refine .bind (kept_shift h 1) fun lifted => ?_
  exact .bind (kept_subst h) fun opened => kept_shift h (-1)

/-- A listing of occurrences that was completed is the same with more levels. -/
theorem visit_eq_of_le (h : n ≤ m) {c : Nat} (hT : (T.visit n c).fault = none) :
    T.visit m c = T.visit n c := by
  induction n generalizing m c T with
  | zero => simp [visit, Visit.fail] at hT
  | succ n ih =>
    obtain ⟨m, rfl⟩ := Nat.exists_eq_succ_of_ne_zero (Nat.ne_zero_of_lt h)
    by_cases hv : ∃ i, T.shape = .var i
    · cases T <;> simp_all [visit, shape]
    by_cases hh : T.shape = .hole
    · cases T <;> simp_all [visit, shape]
    have hv' : ∀ i, T.shape ≠ .var i := not_exists.1 hv
    rw [visit_node hv' hh] at hT
    rw [visit_node hv' hh, visit_node hv' hh]
    have hfaults := (Visit.all_fault_eq_none hT).1
    rw [List.forall_mem_map] at hfaults
    exact congrArg Visit.all <| List.map_congr_left fun U hU =>
      ih (Nat.le_of_succ_le_succ h) (hfaults U hU)

theorem kept_occurs (h : n ≤ m) (k : Int) : Kept (T.occurs n k) (T.occurs m k) := by
  intro b hb
  have hfault : (T.visit n 0).fault = none := by
    unfold occurs at hb
    split at hb
    · contradiction
    · next hvisit => rw [hvisit]
  unfold occurs at hb ⊢
  rw [visit_eq_of_le h hfault]
  exact hb

/-- The normaliser keeps its results, with more levels for itself and for the instantiations. -/
theorem kept_reduce {total total' : Nat} (ht : total ≤ total') (h : n ≤ m) :
    Kept (T.reduce total n) (T.reduce total' m) := by
  induction n generalizing m T with
  | zero => exact .of_error _ _
  | succ n ih =>
    obtain ⟨m, rfl⟩ := Nat.exists_eq_succ_of_ne_zero (Nat.ne_zero_of_lt h)
    have ih' : ∀ U : Ty, Kept (U.reduce total n) (U.reduce total' m) :=
      fun U => ih (Nat.le_of_succ_le_succ h)
    have hparts := kept_mapParts (fun _ U => ih' U) T
    cases T with
    | hole => exact .of_error _ _
    | app fn arg =>
      refine .bind (ih' fn) fun F => ?_
      refine .bind (ih' arg) fun A => ?_
      -- both runs have the same normal forms here, so they take the same branch
      split
      · exact .bind (kept_instantiate ht) ih'
      · exact .refl _
    | _ => exact hparts

/-- An expansion that came to an end comes to the same end with more levels. -/
theorem kept_expand (h : n ≤ m) : Kept (T.expand aliases n) (T.expand aliases m) := by
  induction n generalizing m T with
  | zero => exact .of_error _ _
  | succ n ih =>
    obtain ⟨m, rfl⟩ := Nat.exists_eq_succ_of_ne_zero (Nat.ne_zero_of_lt h)
    have ih' : ∀ U : Ty, Kept (U.expand aliases n) (U.expand aliases m) :=
      fun U => ih (Nat.le_of_succ_le_succ h)
    have hparts := kept_mapParts (fun _ U => ih' U) T
    cases T with
    | hole => exact .of_error _ _
    | named name =>
      rw [expand, expand]
      cases aliases.definition? name with
      | none => exact .refl _
      | some U => exact ih' U
    | _ => exact hparts

/-- So does a resolution. -/
theorem kept_resolve (h : n ≤ m) : Kept (T.resolve aliases n) (T.resolve aliases m) :=
  .bind (kept_expand h) fun _ => kept_reduce h h

/-! ## types under a higher limit -/

/-- A type that is settled with some levels is settled with more. -/
theorem Settled.mono (h : n ≤ m) (hT : T.Settled aliases n) : T.Settled aliases m :=
  ⟨hT.wellFormed, hT.resolved, hT.fits.mono h⟩

/-- The same holds of inferred types, which are settled where there are variants. -/
theorem Inferred.mono (h : n ≤ m) (hT : T.Inferred aliases n) : T.Inferred aliases m :=
  ⟨hT.wellFormed, hT.resolved, hT.variants.mono fun _ hU hv => (hU hv).mono h⟩

end Ty

/-! ## contexts under a higher limit -/

namespace Context

variable {Γ : Context} {l' : Limit}

/-- The context with another limit. -/
def withLimit (Γ : Context) (l' : Limit) : Context :=
  { Γ with limit := l' }

/-- A good context is good under a higher limit. -/
theorem Good.withLimit (hΓ : Γ.Good) (h : Γ.limit.levels ≤ l'.levels) : (Γ.withLimit l').Good :=
  ⟨hΓ.balanced, fun e he => (hΓ.settled e he).mono h⟩

/-- A variable that is found is found at the same type under a higher limit. -/
theorem kept_find (h : Γ.limit.levels ≤ l'.levels) (i : Int) :
    Kept (Γ.find i) ((Γ.withLimit l').find i) := by
  have hentry : entry? (Γ.withLimit l') i = entry? Γ i := rfl
  unfold find
  rw [hentry]
  split
  · exact .refl _
  · next e _ =>
    have hdepth : (Γ.withLimit l').depth = Γ.depth := rfl
    rw [hdepth]
    split
    · exact .refl _
    · exact .bind (.run (kept_shift h _)) fun _ => .refl _

end Context

/-! ## two limits side by side -/

/-- A greater depth gives no fewer levels, on the same machine. -/
theorem Limit.levels_le {m m' : Int} (h : m ≤ m') {frames : Option Nat} :
    (⟨m, frames⟩ : Limit).levels ≤ (⟨m', frames⟩ : Limit).levels := by
  have hdepth : m.toNat ≤ m'.toNat := Int.toNat_le_toNat h
  cases frames with
  | none => exact hdepth
  | some k =>
    simp only [Limit.levels]
    omega

/-- The first of two checks stopped for want of levels, or both failed in the same way. -/
def Fault.Stops (e : Fault) : Option Fault → Prop
  | none => e.Exhausted
  | some e' => e' = e

section Deeper

variable {l l' : Limit} {Γ : Context} {T A B body : Ty}

/-- A traversal that fails only for want of levels, beside the same with more levels. -/
theorem matched_run {α : Type} {walk : Nat → Except Ty.Fault α}
    (h : Kept (walk l.levels) (walk l'.levels))
    (herr : ∀ e, walk l.levels = .error e → e = .tooDeep) :
    Matched Fault.Stops (l.run walk) (l'.run walk) fun a => walk l.levels = .ok a := by
  cases hw : walk l.levels with
  | ok a =>
    have hrun : l.run walk = .ok a := mapError_eq_ok.2 hw
    exact .ok hrun (h.run a hrun) rfl
  | error e =>
    have hrun : l.run walk = .error (l.overrun none) := by
      rw [Limit.run, hw, herr e hw]
      rfl
    exact .stop hrun (l.overrun_exhausted none)

theorem matched_find (hΓ : Γ.Good) (h : Γ.limit.levels ≤ l'.levels) (i : Int) :
    Matched Fault.Stops (Γ.find i) ((Γ.withLimit l').find i) fun r => Γ.find i = .ok r := by
  cases hfind : Γ.find i with
  | ok r => exact .ok rfl (Context.kept_find h i r hfind) rfl
  | error e => exact .stop rfl (hΓ.find_overrun hfind ▸ Γ.limit.overrun_exhausted none)

/-- A look-up under a higher limit: the same answer, unless levels ran out before. -/
theorem matched_lookUp (hΓ : Γ.Good) (h : Γ.limit.levels ≤ l'.levels) (i : Int)
    (span : Option Span) :
    Matched Fault.Stops (Γ.lookUp i span) ((Γ.withLimit l').lookUp i span)
      (·.Inferred Γ.aliases Γ.limit.levels) := by
  refine (matched_find hΓ h i).bind fun r hr => ?_
  cases r with
  | none => exact .error rfl rfl rfl
  | some T => exact .ok rfl rfl (hΓ.find_inferred hr)

/-- A resolution under a higher limit: the same answer, unless levels ran out before. -/
theorem matched_resolve (hal : Γ.aliases.WellFormed) (h : Γ.limit.levels ≤ l'.levels)
    (hT : T.WellFormed) :
    Matched Fault.Stops (Γ.resolve T) ((Γ.withLimit l').resolve T)
      (·.Settled Γ.aliases Γ.limit.levels) :=
  (matched_run (kept_resolve h) fun _ he => Ty.resolve_error hal hT he).mono
    fun _ hU => (Ty.resolve_ok hU).2

/-- An instantiation under a higher limit: the same answer, unless levels ran out before. -/
theorem matched_instantiate (hal : Γ.aliases.WellFormed) (h : Γ.limit.levels ≤ l'.levels)
    (hb : body.WellFormed) (hA : A.WellFormed) :
    Matched Fault.Stops (Γ.instantiate Γ.limit body A) ((Γ.withLimit l').instantiate l' body A)
      (·.Settled Γ.aliases Γ.limit.levels) := by
  refine (matched_run (kept_instantiate h) fun _ he => instantiate_error hb hA he).bind
    fun V hV => ?_
  rw [(instantiate_ok hV).2.2]
  exact matched_resolve hal h (hb.inst hA)

/-- Lowering under a higher limit: the same answer, unless levels ran out before. -/
theorem matched_lower (h : l.levels ≤ l'.levels) (hB : B.WellFormed) (span : Option Span) :
    Matched Fault.Stops (l.lower B span) (l'.lower B span) (B = ·.lift 1 0) := by
  refine (matched_run (kept_occurs h 0) fun _ he => occurs_error hB he).bind fun b hb => ?_
  cases b with
  | true => exact .error rfl rfl rfl
  | false =>
    have havoids : B.Avoids := by simpa using occurs_ok hb
    have hshift : Matched Fault.Stops (l.run fun n => B.shift n (-1))
        (l'.run fun n => B.shift n (-1)) fun U => B.shift l.levels (-1) = .ok U :=
      matched_run (kept_shift h (-1)) fun _ he => lower_error hB havoids he
    exact hshift.mono fun U hU => (lower_ok havoids hU).2.2

/-- A check beside the same check under a higher limit. -/
def Coupling.deeper (h : l.levels ≤ l'.levels) {aliases : Aliases} (hal : aliases.WellFormed) :
    Coupling l l' where
  Contexts Γ Γ' := Γ' = Γ.withLimit l' ∧ Γ.Good ∧ Γ.aliases = aliases ∧ Γ.limit = l
  Types _ T := T.Inferred aliases l.levels
  Written _ T T' := T' = T ∧ T.WellFormed
  Spans s s' := s' = s
  Fails := Fault.Stops
  good := by
    rintro Γ _ ⟨rfl, hΓ, -, rfl⟩
    exact ⟨hΓ, hΓ.withLimit h⟩
  openScope := by
    rintro Γ _ ⟨rfl, hΓ, hal, hl⟩
    exact ⟨rfl, hΓ.openScope, hal, hl⟩
  push := by
    rintro Γ _ T ⟨rfl, hΓ, rfl, rfl⟩ hT
    exact (matched_resolve hal h hT.wellFormed).mono fun U hU => ⟨rfl, hΓ.bindOne hU, rfl, rfl⟩
  inferred := by
    rintro Γ _ T ⟨rfl, -, rfl, rfl⟩ hT
    exact ⟨hT, hT.mono h⟩
  node hs hc := .plain hs hc
  child hT hA := hT.child hA
  lookUp := by
    rintro Γ _ i _ s ⟨rfl, hΓ, rfl, rfl⟩ rfl
    exact matched_lookUp hΓ h i s
  resolve := by
    rintro Γ _ T _ ⟨rfl, -, rfl, rfl⟩ ⟨rfl, hT⟩
    exact (matched_resolve hal h hT).mono fun U hU => hU.inferred
  instantiate := by
    rintro Γ _ body A ⟨rfl, -, rfl, rfl⟩ hb hA
    exact (matched_instantiate hal h hb.wellFormed hA.wellFormed).mono fun U hU => hU.inferred
  lower := by
    rintro d B _ s hB rfl
    exact (matched_lower h hB.wellFormed s).mono fun U hU => inferred_lift.1 (hU ▸ hB)
  mistake := by
    rintro m _ s _ hm rfl
    cases hm with
    | refl => rfl
    | mismatch hs => exact hs ▸ rfl
  orElse := by
    rintro s _ r _ rfl rfl
    rfl

end Deeper

/-! ## the checker -/

namespace Checker

/-- Only a machine that gave out is reported as something else. -/
theorem settle_eq {c : Checker} {t : Term} {e : Fault} (h : ¬ e.Exhausted) : c.settle t e = e := by
  cases e with
  | outOfStack => exact absurd trivial h
  | _ => rfl

/-- Inference beside inference under a higher limit, with no fewer levels left. -/
theorem infer_deeper {c c' : Checker} (h : c.limit.levels ≤ c'.limit.levels) {aliases : Aliases}
    (hal : aliases.WellFormed) {n n' : Nat} (hn : n ≤ n') :
    (Coupling.deeper h hal).Parts (c.infer n) (c'.infer n') := by
  refine Coupling.infer_inStep hn fun ht => .inl ?_
  rw [ht.overrun_eq]
  exact c.limit.overrun_exhausted _

/-- Inference of a closed term, under all levels of a limit and of a higher one. -/
theorem infer_closed_deeper {aliases : Aliases} (hal : aliases.WellFormed) (frames : Option Nat)
    (trace : Bool) {m m' : Int} (hm : m ≤ m') {t : Term} (ht : t.WellFormed) :
    let c : Checker := ⟨aliases, ⟨m, frames⟩, trace⟩
    let c' : Checker := ⟨aliases, ⟨m', frames⟩, trace⟩
    Check.InStep Fault.Stops (c.infer c.limit.levels t) (c'.infer c'.limit.levels t) c.freshContext
      c'.freshContext fun T => T.Inferred aliases c.limit.levels := by
  intro c c'
  have hlevels : c.limit.levels ≤ c'.limit.levels := Limit.levels_le hm
  have hcontexts : (Coupling.deeper hlevels hal).Contexts c.freshContext c'.freshContext :=
    ⟨rfl, Context.good_fresh _ _, rfl, rfl⟩
  have hterm : (Coupling.deeper hlevels hal).Terms 0 t t :=
    ht.alike (fun _ _ hT => ⟨rfl, hT⟩) fun _ => rfl
  exact infer_deeper hlevels hal hlevels hcontexts hterm

/-- A type that is found under a limit is found under every higher one. -/
theorem typeOfClosed_ok_of_le {aliases : Aliases} (hal : aliases.WellFormed) {frames : Option Nat}
    {trace : Bool} {m m' : Int} (hm : m ≤ m') {t : Term} (ht : t.WellFormed) {T : Ty}
    (h : (typeOfClosed ⟨aliases, ⟨m, frames⟩, trace⟩ t).result = .ok T) :
    (typeOfClosed ⟨aliases, ⟨m', frames⟩, trace⟩ t).result = .ok T := by
  rw [typeOfClosed, typeOf_eq_ok] at h ⊢
  cases infer_closed_deeper hal frames trace hm ht with
  | ok hrun hrun' _ =>
    rw [hrun] at h
    rw [hrun', h]
  | stop hrun _ =>
    rw [hrun] at h
    contradiction
  | error hrun _ _ =>
    rw [hrun] at h
    contradiction

/-- Under a higher limit a check that had enough levels ends as before, with the same type or
with the same error. -/
theorem typeOfClosed_deeper (aliases : Aliases) (hal : aliases.WellFormed) (frames : Option Nat)
    (trace : Bool) {m m' : Int} (hm : m ≤ m') {t : Term} (ht : t.WellFormed)
    (h : ∀ depth span, (typeOfClosed ⟨aliases, ⟨m, frames⟩, trace⟩ t).result ≠
      .error (.type ⟨.tooDeep depth, span⟩)) :
    (typeOfClosed ⟨aliases, ⟨m', frames⟩, trace⟩ t).result =
      (typeOfClosed ⟨aliases, ⟨m, frames⟩, trace⟩ t).result := by
  cases infer_closed_deeper hal frames trace hm ht with
  | ok hrun hrun' _ =>
    rw [typeOfClosed, typeOfClosed, run_typeOf_of_ok hrun, run_typeOf_of_ok hrun']
  | stop hrun he =>
    obtain ⟨depth, span, htop⟩ := typeOf_exhausted (congrArg Outcome.result hrun) he
    exact absurd htop (h depth span)
  | @error _ e _ _ hrun hrun' he =>
    obtain rfl : e = _ := he
    -- a machine that gave out is reported with the limit, so the two reports could differ
    by_cases hex : e.Exhausted
    · obtain ⟨depth, span, htop⟩ := typeOf_exhausted (congrArg Outcome.result hrun) hex
      exact absurd htop (h depth span)
    · obtain ⟨_, htop⟩ := run_typeOf_of_error hrun
      obtain ⟨_, htop'⟩ := run_typeOf_of_error hrun'
      rw [typeOfClosed, typeOfClosed, htop, htop', settle_eq hex, settle_eq hex]

/-- The polymorphic identity at the numbers, applied to a truth value. -/
def misapplied : Term :=
  .app (.tyApp (.tyAbs (.abs (.var 0) (.var 0 none) none) none) (.named "N") none)
    (.lit (.bool true) none) none

/-- With five levels the mistake is found, and it is the same with all levels that there are. -/
theorem typeOfClosed_deeper_misapplied :
    misapplied.WellFormed ∧
      (typeOfClosed ⟨numbers, ⟨5, none⟩, false⟩ misapplied).result =
        .error (.type ⟨.mismatch .nat .bool none, none⟩) ∧
      (typeOfClosed ⟨numbers, ⟨Limit.defaultDepth, none⟩, false⟩ misapplied).result =
        .error (.type ⟨.mismatch .nat .bool none, none⟩) := by
  have hterm : misapplied.WellFormed := Term.wellFormed_of_formed (n := 5) rfl
  have hfive : (typeOfClosed ⟨numbers, ⟨5, none⟩, false⟩ misapplied).result =
      .error (.type ⟨.mismatch .nat .bool none, none⟩) := rfl
  refine ⟨hterm, hfive, ?_⟩
  rw [← hfive]
  refine typeOfClosed_deeper numbers numbers_wellFormed none false (by decide) hterm ?_
  rw [hfive]
  exact nofun

end Checker

end PolyLambda
