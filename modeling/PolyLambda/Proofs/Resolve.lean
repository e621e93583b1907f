import PolyLambda.Proofs.Normalize

/-!
# PolyLambda.Proofs.Resolve

Resolved types: the definitions of aliases have been put in, and operators have been applied.

* `Ty.Expands` describes the runs of the expansion that succeed.
* `Ty.Settled` types are what resolving gives: well formed, resolved, and nested no deeper than
  the levels of the run (`Ty.resolve_ok`).
* `Ty.Settled.resolve_eq`: resolving a settled type with as many levels gives it back.
* `Ty.resolve_error`: if definitions are well formed, resolving needs only levels.
-/

namespace PolyLambda.Ty

open Relation

variable {aliases : Aliases} {n : Nat} {T U : Ty} {e : Fault}

/-! ## expansions that succeed -/

/-- The expansion takes `T` to `U` with `n` levels. -/
inductive Expands (aliases : Aliases) : Nat → Ty → Ty → Prop where
  | name {n : Nat} {name : String} {T U : Ty} (hd : aliases.definition? name = some T)
      (h : Expands aliases n T U) : Expands aliases (n + 1) (.named name) U
  | node {n : Nat} {T U : Ty} (hp : T.shape.Proper) (hu : Unknown aliases T.shape)
      (hs : T.shape = U.shape)
      (hc : ∀ A B, (A, B) ∈ T.children.zip U.children → Expands aliases n A B) :
      Expands aliases (n + 1) T U

theorem expand_node (hh : T.shape ≠ .hole) (hn : ∀ name, T.shape ≠ .named name) :
    T.expand aliases (n + 1) = T.mapParts fun _ U => U.expand aliases n := by
  cases T <;> simp_all [expand, shape]

theorem expand_unknown {name : String} (h : aliases.definition? name = none) :
    (Ty.named name).expand aliases (n + 1) = .ok (.named name) := by
  rw [expand, h]

theorem expands_of_ok (h : T.expand aliases n = .ok U) : Expands aliases n T U := by
  induction n generalizing T U with
  | zero => simp [expand] at h
  | succ n ih =>
    by_cases hh : T.shape = .hole
    · cases T <;> simp_all [expand, shape]
    by_cases hn : ∃ name, T.shape = .named name
    · cases T with
      | named name =>
        cases hd : aliases.definition? name with
        | none =>
          obtain rfl := Except.ok.inj ((expand_unknown hd).symm.trans h)
          refine .node ⟨hh, trivial⟩ ?_ rfl (by simp [children])
          intro name' h'
          rwa [← Shape.named.inj h']
        | some V =>
          rw [expand, hd] at h
          exact .name hd (ih h)
      | _ => simp [shape] at hn
    · have hn' : ∀ name, T.shape ≠ .named name := fun name h => hn ⟨name, h⟩
      rw [expand_node hh hn', mapParts_eq_ok] at h
      obtain ⟨hd, hs, hc⟩ := h
      exact .node ⟨hh, hd⟩ (fun name h => absurd h (hn' name)) hs.symm
        fun A B hAB => ih (List.forall₂_zip hc hAB)

namespace Expands

/-- The expansion only puts definitions in. -/
theorem steps (h : Expands aliases n T U) : Steps aliases T U := by
  induction h with
  | name hd _ ih => exact .head (.here (.unfold hd)) ih
  | node _ _ hs _ ih => exact Steps.node hs (forall₂_children hs ih)

/-- The expansion leaves no name that has a definition. -/
theorem unknown (h : Expands aliases n T U) : U.EveryShape (Unknown aliases) := by
  induction h with
  | name _ _ ih => exact ih
  | node _ hu hs _ ih =>
    refine ⟨hs ▸ hu, fun B hB => ?_⟩
    obtain ⟨A, -, hA⟩ := exists_of_forall₂_right (forall₂_children hs ih) hB
    exact hA

/-- An expansion is well formed. -/
theorem wellFormed (h : Expands aliases n T U) : U.WellFormed := by
  induction h with
  | name _ _ ih => exact ih
  | node hp _ hs _ ih =>
    refine ⟨hs ▸ hp, fun B hB => ?_⟩
    obtain ⟨A, -, hA⟩ := exists_of_forall₂_right (forall₂_children hs ih) hB
    exact hA

end Expands

/-- With well-formed definitions, expanding needs only levels. -/
theorem expand_error (hal : aliases.WellFormed) (hT : T.WellFormed)
    (h : T.expand aliases n = .error e) : e = .tooDeep := by
  induction n generalizing T with
  | zero => simpa [expand, eq_comm] using h
  | succ n ih =>
    by_cases hn : ∃ name, T.shape = .named name
    · cases T with
      | named name =>
        cases hd : aliases.definition? name with
        | none => simp [expand_unknown hd] at h
        | some U =>
          rw [expand, hd] at h
          exact ih (hal name U hd) h
      | _ => simp [shape] at hn
    · have hn' : ∀ name, T.shape ≠ .named name := fun name h => hn ⟨name, h⟩
      rw [expand_node hT.here.1 hn'] at h
      obtain ⟨A, hA, he⟩ := mapParts_eq_error hT.here.2 h
      exact ih (hT.child hA) he

/-- A type without names to be looked up is its own expansion. -/
theorem expand_of_unknown (hT : T.WellFormed) (hu : T.EveryShape (Unknown aliases))
    (hf : T.Fits n) : T.expand aliases n = .ok T := by
  induction n generalizing T with
  | zero => exact hf.elim
  | succ n ih =>
    by_cases hn : ∃ name, T.shape = .named name
    · cases T with
      | named name => exact expand_unknown (hu.here name rfl)
      | _ => simp [shape] at hn
    · rw [expand_node hT.here.1 (fun name h => hn ⟨name, h⟩), mapParts_eq_ok]
      exact ⟨hT.here.2, rfl,
        List.forall₂_same.2 fun A hA => ih (hT.child hA) (hu.child hA) (hf A hA)⟩

/-! ## resolving -/

/-- A type as resolving gives it with `n` levels. -/
structure Settled (aliases : Aliases) (n : Nat) (T : Ty) : Prop where
  wellFormed : T.WellFormed
  resolved : T.Resolved aliases
  fits : T.Fits n

/-- Resolving computes, and what it gives is settled. -/
theorem resolve_ok (h : T.resolve aliases n = .ok U) :
    Steps aliases T U ∧ U.Settled aliases n := by
  obtain ⟨V, hV, h⟩ := bind_eq_ok.1 h
  have hexp := expands_of_ok hV
  have hred := reduces_of_ok h
  refine ⟨?_, hred.wellFormed_result, ⟨?_, hred.betaNormal⟩, hred.fits⟩
  · refine hexp.steps.trans ?_
    exact ReflTransGen.mono (fun _ _ h => BetaStep.step h aliases) _ _ hred.betaSteps
  · exact hred.everyShape (by simp [Unknown]) hexp.unknown

/-- With well-formed definitions, resolving needs only levels. -/
theorem resolve_error (hal : aliases.WellFormed) (hT : T.WellFormed)
    (h : T.resolve aliases n = .error e) : e = .tooDeep := by
  obtain h | ⟨V, hV, h⟩ := bind_eq_error.1 h
  · exact expand_error hal hT h
  · exact reduce_error (expands_of_ok hV).wellFormed h

namespace Settled

theorem resolve_eq (hT : T.Settled aliases n) : T.resolve aliases n = .ok T := by
  rw [resolve, expand_of_unknown hT.wellFormed hT.resolved.1 hT.fits]
  exact reduce_of_betaNormal hT.wellFormed hT.resolved.2 hT.fits

theorem child (hT : T.Settled aliases n) (hU : U ∈ T.children) : U.Settled aliases n :=
  ⟨hT.wellFormed.child hU, hT.resolved.child hU, hT.fits.child hU⟩

end Settled

end PolyLambda.Ty
