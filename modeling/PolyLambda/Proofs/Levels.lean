import PolyLambda.Context
import PolyLambda.Proofs.Walk

/-!
# PolyLambda.Proofs.Levels

Levels that suffice. The traversals of `PolyLambda.Proofs.Walk` fail on well-formed types only for
want of levels; here is how many they need. A traversal that replaces variables needs as many as
the nodes of its type nest deep, and an instantiation needs enough for the body, for what is put
in, and for the instance.

* `Ty.exists_mapParts`: a node can be rebuilt if its parts can.
* `Ty.shift_of_fits`, `Ty.lower_of_fits`, `Ty.instantiate_of_fits`, `Ty.occurs_of_fits`: the
  operations on types that fit.
* `Ty.exists_fits`: every type fits some number of levels.
* `Context.find_of_fits`: what a look-up gives.
-/

namespace PolyLambda

namespace Ty

variable {n c : Nat} {T U A body : Ty}

/-! ## traversals -/

/-- If all children of a node with distinct labels can be treated, so can the node. -/
theorem exists_mapParts {f : Nat → Ty → Except Fault Ty} (hd : T.shape.Distinct)
    (h : ∀ A ∈ T.children, ∃ B, f T.shape.binds A = .ok B) : ∃ U, T.mapParts f = .ok U := by
  cases hT : T.mapParts f with
  | ok U => exact ⟨U, rfl⟩
  | error e =>
    obtain ⟨A, hA, he⟩ := mapParts_eq_error hd hT
    obtain ⟨B, hB⟩ := h A hA
    rw [hB] at he
    contradiction

/-- Variables can be replaced in a type that fits, if there is something for each of them. -/
theorem exists_mapVars {onVar : Nat → Int → Except Fault Ty} (hT : T.WellFormed) (hf : T.Fits n)
    (hv : T.EveryVar (fun c i => ∃ V, onVar c i = .ok V) c) :
    ∃ U, T.mapVars onVar n c = .ok U := by
  induction n generalizing T c with
  | zero => exact hf.elim
  | succ n ih =>
    by_cases hi : ∃ i, T.shape = .var i
    · obtain ⟨i, hi⟩ := hi
      obtain rfl := eq_of_shape_var hi
      exact hv.at
    · rw [mapVars_node (not_exists.1 hi) hT.here.1]
      exact exists_mapParts hT.here.2 fun A hA => ih (hT.child hA) (hf A hA) (hv.child hA)

/-- Lifting succeeds if there are levels for the type. -/
theorem shift_of_fits (hT : T.WellFormed) (hf : T.Fits n) (k : Nat) :
    T.shift n k = .ok (T.lift k 0) := by
  have hvar : ∀ c i, ∃ V, shiftVar k c i = .ok V := by
    intro c i
    rw [shiftVar_eq, if_neg (by omega)]
    exact ⟨_, rfl⟩
  obtain ⟨U, hU⟩ := exists_mapVars hT hf (c := 0) (everyVar_of_forall hvar T)
  rw [shift, hU, (shift_ok hU).2.2]

/-- A type that avoids the variable of a scope can be taken out of it. -/
theorem exists_lower (hT : T.WellFormed) (hf : T.Fits n) (ha : T.Avoids) :
    ∃ U, T.shift n (-1) = .ok U := by
  refine exists_mapVars hT hf (ha.mono fun c i hi => ?_)
  rw [shiftVar_eq, if_neg (by omega)]
  exact ⟨_, rfl⟩

/-- Lowering undoes a lifting. -/
theorem lower_of_fits (hT : T.WellFormed) (hf : T.Fits n) :
    (T.lift 1 0).shift n (-1) = .ok T := by
  obtain ⟨U, hU⟩ := exists_lower (wellFormed_lift.2 hT) (fits_lift.2 hf) (avoids_lift T)
  rw [hU, lift_one_injective (lower_ok (avoids_lift T) hU).2.2]

/-- An instance needs levels for the body, for the argument and for the result. -/
theorem instantiate_of_fits (hb : body.WellFormed) (hA : A.WellFormed) (hbf : body.Fits n)
    (hAf : A.Fits n) (hf : (body.inst A).Fits n) :
    body.instantiate n A = .ok (body.inst A) := by
  have hvar : ∀ c i, ∃ V, substVar n (A.lift 1 0) c i = .ok V := by
    intro c i
    unfold substVar
    split
    · exact ⟨_, shift_of_fits (wellFormed_lift.2 hA) (fits_lift.2 hAf) c⟩
    · exact ⟨_, rfl⟩
  obtain ⟨opened, hopened⟩ := exists_mapVars hb hbf (c := 0) (everyVar_of_forall hvar body)
  have hlift : A.shift n 1 = .ok (A.lift 1 0) := shift_of_fits hA hAf 1
  refine bind_eq_ok.2 ⟨_, hlift, bind_eq_ok.2 ⟨opened, hopened, ?_⟩⟩
  rw [subst_lift_ok hopened, lower_of_fits (hb.inst hA) hf]

/-- A visit finishes if there are levels for the type. -/
theorem visit_of_fits (hT : T.WellFormed) (hf : T.Fits n) : (T.visit n c).fault = none := by
  induction n generalizing T c with
  | zero => exact hf.elim
  | succ n ih =>
    by_cases hi : ∃ i, T.shape = .var i
    · obtain ⟨i, hi⟩ := hi
      obtain rfl := eq_of_shape_var hi
      rfl
    · rw [visit_node (not_exists.1 hi) hT.here.1]
      cases h : (Visit.all (T.children.map fun U => U.visit n (c + T.shape.binds))).fault with
      | none => rfl
      | some e =>
        obtain ⟨v, hv, he⟩ := Visit.all_fault_eq_some h
        obtain ⟨U, hU, rfl⟩ := List.mem_map.1 hv
        rw [ih (hT.child hU) (hf U hU)] at he
        contradiction

/-- Then the question whether a variable occurs is answered. -/
theorem occurs_of_fits (hT : T.WellFormed) (hf : T.Fits n) (k : Int) :
    ∃ b, T.occurs n k = .ok b := by
  have hfault : (T.visit n 0).fault = none := visit_of_fits hT hf
  unfold occurs
  split
  · next h =>
    rw [h] at hfault
    contradiction
  · exact ⟨_, rfl⟩

/-! ## how deep types nest -/

/-- A bound for each member of a list gives one bound for all. -/
theorem exists_bound {α : Type} {P : Nat → α → Prop} {xs : List α}
    (hmono : ∀ {n m a}, n ≤ m → P n a → P m a) (h : ∀ a ∈ xs, ∃ n, P n a) :
    ∃ n, ∀ a ∈ xs, P n a := by
  induction xs with
  | nil => exact ⟨0, by simp⟩
  | cons a xs ih =>
    obtain ⟨ha, hxs⟩ := List.forall_mem_cons.1 h
    obtain ⟨n, hn⟩ := ha
    obtain ⟨m, hm⟩ := ih hxs
    refine ⟨max n m, List.forall_mem_cons.2 ⟨hmono (Nat.le_max_left n m) hn, fun b hb => ?_⟩⟩
    exact hmono (Nat.le_max_right n m) (hm b hb)

theorem exists_fits (T : Ty) : ∃ n, T.Fits n := by
  induction T using byChildren with
  | node T ih =>
    obtain ⟨n, hn⟩ := exists_bound (P := Fits) (fun h hA => Fits.mono h hA) ih
    exact ⟨n + 1, hn⟩

end Ty

/-- The look-up of a variable needs only levels for the type of the variable. -/
theorem Context.find_of_fits {Γ : Context} {i : Int} {e : Entry} (he : Γ.entry? i = some e)
    (hd : e.depth ≤ Γ.depth) (hT : e.ty.WellFormed) (hf : e.ty.Fits Γ.limit.levels) :
    Γ.find i = .ok (some (e.ty.lift (Γ.depth - e.depth) 0)) := by
  have hshift : e.ty.shift Γ.limit.levels (Γ.depth - e.depth) =
      .ok (e.ty.lift (Γ.depth - e.depth) 0) := by
    rw [← Int.natCast_sub hd]
    exact Ty.shift_of_fits hT hf _
  by_cases heq : e.depth = Γ.depth
  · simp [find, he, heq, Ty.lift_zero]
  · simp only [find, he, heq, if_false, Limit.run, hshift]
    rfl

end PolyLambda
