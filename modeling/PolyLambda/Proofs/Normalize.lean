import PolyLambda.Limit
import PolyLambda.Proofs.Confluence

/-!
# PolyLambda.Proofs.Normalize

The normaliser decides whether types are equal up to the application of operators, wherever
it gives an answer: reduction need not end, but answers do not depend on the order in which
applications are carried out.

* `Ty.Reduces` describes the runs of the normaliser that succeed, one rule for each way a node
  is treated. What holds of their results is proved by induction over these runs.
* `Ty.Reduces.betaSteps`, `Ty.Reduces.betaNormal`: a result is reached by carrying out
  applications, and none is left in it.
* `Ty.Reduces.everyShape`, `Ty.Reduces.fits`: a result has no new shapes, and it nests no deeper
  than the levels of the run.
* `Ty.normalize_decides_beta`: types that have normal forms are convertible exactly when these
  are equal.
-/

namespace PolyLambda.Ty

open Relation

variable {total n : Nat} {T U : Ty} {e : Fault}

/-! ## runs that succeed -/

/-- The normaliser takes `T` to `U` with `n` levels, each instantiation on the way having
`total`. -/
inductive Reduces (total : Nat) : Nat → Ty → Ty → Prop where
  | node {n : Nat} {T U : Ty} (hh : T.shape ≠ .hole) (ha : T.shape ≠ .app)
      (hd : T.shape.Distinct) (hs : T.shape = U.shape)
      (hc : ∀ A B, (A, B) ∈ T.children.zip U.children → Reduces total n A B) :
      Reduces total (n + 1) T U
  | app {n : Nat} {fn arg F A : Ty} (hf : Reduces total n fn F) (ha : Reduces total n arg A)
      (hF : ∀ kind body, F ≠ .binder (.op kind) body) :
      Reduces total (n + 1) (.app fn arg) (.app F A)
  | beta {n : Nat} {fn arg body A V U : Ty} {kind : Kind}
      (hf : Reduces total n fn (.binder (.op kind) body)) (ha : Reduces total n arg A)
      (hi : body.instantiate total A = .ok V) (hV : Reduces total n V U) :
      Reduces total (n + 1) (.app fn arg) U

theorem reduce_node (hh : T.shape ≠ .hole) (ha : T.shape ≠ .app) :
    T.reduce total (n + 1) = T.mapParts fun _ U => U.reduce total n := by
  cases T <;> simp_all [reduce, shape]

/-- An application of an operator is carried out, and the instance is normalised. -/
theorem reduce_app_of_operator {fn arg body A : Ty} {kind : Kind}
    (hF : fn.reduce total n = .ok (.binder (.op kind) body)) (hA : arg.reduce total n = .ok A) :
    (Ty.app fn arg).reduce total (n + 1) = body.instantiate total A >>= reduce total n := by
  rw [reduce, hF, hA]
  rfl

/-- An application of anything else stays. -/
theorem reduce_app_of_not_redex {fn arg F A : Ty} (hF : fn.reduce total n = .ok F)
    (hA : arg.reduce total n = .ok A) (hr : ¬ (Ty.app F A).IsRedex) :
    (Ty.app fn arg).reduce total (n + 1) = .ok (.app F A) := by
  have hop : ∀ kind body, F ≠ .binder (.op kind) body :=
    fun kind body h => hr ⟨kind, body, A, by rw [h]⟩
  rw [reduce, hF, hA]
  simp only [bind, Except.bind, pure, Except.pure]

theorem reduces_of_ok (h : T.reduce total n = .ok U) : Reduces total n T U := by
  induction n generalizing T U with
  | zero => simp [reduce] at h
  | succ n ih =>
    by_cases hh : T.shape = .hole
    · cases T <;> simp_all [reduce, shape]
    by_cases ha : T.shape = .app
    · cases T with
      | app fn arg =>
        rw [reduce] at h
        obtain ⟨F, hF, h⟩ := bind_eq_ok.1 h
        obtain ⟨A, hA, h⟩ := bind_eq_ok.1 h
        split at h
        · next body =>
          obtain ⟨V, hV, h⟩ := bind_eq_ok.1 h
          exact .beta (ih hF) (ih hA) hV (ih h)
        · next hop =>
          obtain rfl := Except.ok.inj h
          exact .app (ih hF) (ih hA) hop
      | _ => simp [shape] at ha
    · rw [reduce_node hh ha, mapParts_eq_ok] at h
      obtain ⟨hd, hs, hc⟩ := h
      exact .node hh ha hd hs.symm fun A B hAB => ih (List.forall₂_zip hc hAB)

/-! ## results -/

/-- An operator is applied, as an instantiation within some number of levels gives it. -/
inductive Applies : Ty → Ty → Prop where
  | intro {n : Nat} {kind : Kind} {body A U : Ty} (h : body.instantiate n A = .ok U) :
      Applies (.app (.binder (.op kind) body) A) U

/-- An operator is applied at some place of a type. -/
abbrev BetaStep : Ty → Ty → Prop :=
  Anywhere Applies

theorem BetaStep.step (h : BetaStep T U) (aliases : Aliases) : Step aliases T U := by
  refine h.mono ?_
  intro T U h
  cases h with
  | intro h =>
    rw [(instantiate_ok h).2.2]
    exact .beta _ _ _

namespace Reduces

/-- The normaliser only applies operators. -/
theorem betaSteps (h : Reduces total n T U) : ReflTransGen BetaStep T U := by
  induction h with
  | node _ _ _ hs _ ih => exact reflTransGen_node hs (forall₂_children hs ih)
  | app _ _ _ ihf iha => exact reflTransGen_app ihf iha
  | beta _ _ hi _ ihf iha ihV =>
    exact ((reflTransGen_app ihf iha).tail (.here (.intro hi))).trans ihV

/-- The normaliser leaves no application of an operator. -/
theorem betaNormal (h : Reduces total n T U) : U.BetaNormal := by
  induction h with
  | @node n T U _ ha _ hs _ ih =>
    refine ⟨?_, fun B hB => ?_⟩
    · rintro ⟨kind, body, A, hU⟩
      exact ha (by rw [hs, hU, shape])
    · obtain ⟨A, -, hA⟩ := exists_of_forall₂_right (forall₂_children hs ih) hB
      exact hA
  | app _ _ hF ihf iha =>
    refine ⟨?_, by simpa [children] using ⟨ihf, iha⟩⟩
    rintro ⟨kind, body, A, hU⟩
    exact hF kind body (Ty.app.inj hU).1
  | beta _ _ _ _ _ _ ihV => exact ihV

/-- A result has only shapes that stood in the type, and variables. -/
theorem everyShape {P : Shape → Prop} (hvar : ∀ i, P (.var i)) (h : Reduces total n T U)
    (hT : T.EveryShape P) : U.EveryShape P := by
  induction h with
  | @node n T U _ _ _ hs _ ih =>
    refine ⟨by rw [← hs]; exact hT.here, fun B hB => ?_⟩
    obtain ⟨A, hA, hAB⟩ := exists_of_forall₂_right (forall₂_children hs ih) hB
    exact hAB (hT.child hA)
  | app _ _ _ ihf iha =>
    refine ⟨hT.here, ?_⟩
    have hf := ihf (hT.child (by simp [children]))
    have ha := iha (hT.child (by simp [children]))
    simpa [children] using ⟨hf, ha⟩
  | beta _ _ hi _ ihf iha ihV =>
    rw [(instantiate_ok hi).2.2] at ihV
    have hF := ihf (hT.child (by simp [children]))
    have hA := iha (hT.child (by simp [children]))
    exact ihV (EveryShape.inst hvar (hF.child (by simp [children])) hA)

/-- A type that has been normalised was well formed. -/
theorem wellFormed (h : Reduces total n T U) : T.WellFormed := by
  induction h with
  | @node n T U hh _ hd hs _ ih =>
    refine ⟨⟨hh, hd⟩, fun A hA => ?_⟩
    obtain ⟨B, -, hB⟩ := exists_of_forall₂_left (forall₂_children hs ih) hA
    exact hB
  | app _ _ _ ihf iha => exact ⟨⟨Shape.noConfusion, trivial⟩, by simpa [children] using ⟨ihf, iha⟩⟩
  | beta _ _ _ _ ihf iha _ =>
    exact ⟨⟨Shape.noConfusion, trivial⟩, by simpa [children] using ⟨ihf, iha⟩⟩

theorem wellFormed_result (h : Reduces total n T U) : U.WellFormed :=
  h.everyShape (P := Shape.Proper) proper_var h.wellFormed

/-- A result nests no deeper than the levels of the run. -/
theorem fits (h : Reduces total n T U) : U.Fits n := by
  induction h with
  | @node n T U _ _ _ hs _ ih =>
    intro B hB
    obtain ⟨A, -, hA⟩ := exists_of_forall₂_right (forall₂_children hs ih) hB
    exact hA
  | app _ _ _ ihf iha => simpa [Fits, children] using ⟨ihf, iha⟩
  | beta _ _ _ _ _ _ ihV => exact ihV.mono (Nat.le_succ _)

end Reduces

/-- A normal form that is well formed and nests within the levels is its own normal form. -/
theorem reduce_of_betaNormal (hT : T.WellFormed) (hn : T.BetaNormal) (hf : T.Fits n) :
    T.reduce total n = .ok T := by
  induction n generalizing T with
  | zero => exact hf.elim
  | succ n ih =>
    by_cases ha : T.shape = .app
    · cases T with
      | app fn arg =>
        have hfn : fn ∈ (Ty.app fn arg).children := by simp [children]
        have harg : arg ∈ (Ty.app fn arg).children := by simp [children]
        exact reduce_app_of_not_redex (ih (hT.child hfn) (hn.child hfn) (hf fn hfn))
          (ih (hT.child harg) (hn.child harg) (hf arg harg)) hn.here
      | _ => simp [shape] at ha
    · rw [reduce_node hT.here.1 ha, mapParts_eq_ok]
      refine ⟨hT.here.2, rfl, List.forall₂_same.2 fun A hA => ?_⟩
      exact ih (hT.child hA) (hn.child hA) (hf A hA)

/-- On a well-formed type the normaliser fails only for want of levels. -/
theorem reduce_error (hT : T.WellFormed) (h : T.reduce total n = .error e) : e = .tooDeep := by
  induction n generalizing T with
  | zero => simpa [reduce, eq_comm] using h
  | succ n ih =>
    by_cases ha : T.shape = .app
    · cases T with
      | app fn arg =>
        rw [reduce] at h
        obtain hF | ⟨F, hF, hrest⟩ := bind_eq_error.1 h
        · exact ih (hT.child (by simp [children])) hF
        obtain hA | ⟨A, hA, hlast⟩ := bind_eq_error.1 hrest
        · exact ih (hT.child (by simp [children])) hA
        split at hlast
        · next kind body =>
          -- the operator is a result of the normaliser, not a part of `T`, and so is its argument
          have hb := (reduces_of_ok hF).wellFormed_result.child (U := body) (by simp [children])
          have hA' := (reduces_of_ok hA).wellFormed_result
          obtain hi | ⟨V, hV, hred⟩ := bind_eq_error.1 hlast
          · exact instantiate_error hb hA' hi
          · rw [(instantiate_ok hV).2.2] at hred
            exact ih (WellFormed.inst hb hA') hred
        · contradiction
      | _ => simp [shape] at ha
    · rw [reduce_node hT.here.1 ha] at h
      obtain ⟨A, hA, he⟩ := mapParts_eq_error hT.here.2 h
      exact ih (hT.child hA) he

/-! ## deciding conversion -/

theorem BetaNormal.resolved (h : T.BetaNormal) : T.Resolved ∅ := by
  refine ⟨?_, h⟩
  induction T using byChildren with
  | node T ih => exact ⟨fun name _ => rfl, fun U hU => ih U hU (h.child hU)⟩

theorem run_normalize {limit : Limit} (h : limit.run (fun n => T.normalize n) = .ok U) :
    Reduces limit.levels limit.levels T U :=
  reduces_of_ok (mapError_eq_ok.1 h)

/-- A normal form is reached by applying operators, and none is left to apply. Types that
normalise, within whatever limits, are connected by applications in both directions exactly
when their normal forms are equal. -/
theorem normalize_decides_beta :
    (∀ (limit : Limit) (T U : Ty), limit.run (fun n => T.normalize n) = .ok U →
      ReflTransGen BetaStep T U ∧ U.BetaNormal) ∧
    ∀ (limit₁ limit₂ : Limit) (T₁ T₂ U₁ U₂ : Ty),
      limit₁.run (fun n => T₁.normalize n) = .ok U₁ →
      limit₂.run (fun n => T₂.normalize n) = .ok U₂ →
      (EqvGen BetaStep T₁ T₂ ↔ U₁ = U₂) := by
  have hsteps : ∀ {T U : Ty}, ReflTransGen BetaStep T U → EqvGen BetaStep T U := fun h =>
    EqvGen.reflTransGen_le_eqvGen _ _ _ h
  refine ⟨fun limit T U h => ?_, fun limit₁ limit₂ T₁ T₂ U₁ U₂ h₁ h₂ => ?_⟩
  · exact ⟨(run_normalize h).betaSteps, (run_normalize h).betaNormal⟩
  have hr₁ := run_normalize h₁
  have hr₂ := run_normalize h₂
  constructor
  · intro h
    have hconv : EqvGen BetaStep U₁ U₂ :=
      .trans _ _ _ (.symm _ _ (hsteps hr₁.betaSteps)) (.trans _ _ _ h (hsteps hr₂.betaSteps))
    have hconv' : Conv ∅ U₁ U₂ := EqvGen.mono (fun _ _ h => BetaStep.step h ∅) _ _ hconv
    exact hconv'.eq_of_resolved Aliases.closed_empty hr₁.betaNormal.resolved hr₂.betaNormal.resolved
  · intro h
    rw [← h] at hr₂
    exact .trans _ _ _ (hsteps hr₁.betaSteps) (.symm _ _ (hsteps hr₂.betaSteps))

/-- The operator that takes `X` and `Y` to `X → Y`, applied to numbers and truth values, and
the operator that takes `X` to functions from numbers to `X`, applied to truth values. -/
theorem normalize_decides_beta_arrow :
    EqvGen BetaStep
      (.app
        (.app (.binder (.op .star) (.binder (.op .star) (.arrow (.var 1) (.var 0)))) .nat) .bool)
      (.app (.binder (.op .star) (.arrow .nat (.var 0))) .bool) :=
  (normalize_decides_beta.2 ⟨6, none⟩ ⟨9, none⟩ _ _ (.arrow .nat .bool) (.arrow .nat .bool)
    rfl rfl).2 rfl

end PolyLambda.Ty
