import PolyLambda.Proofs.Lift
import PolyLambda.Ty.Shift

/-!
# PolyLambda.Proofs.Walk

What the bounded operations on variables compute. A traversal that succeeds has met only
well-formed nodes that nest within its levels, and gives what the unbounded operation of
`PolyLambda.Proofs.Lift` gives; on a well-formed type it fails only for want of levels.

* `Ty.shift_ok` and `Ty.shift_error`: shifting upwards is lifting.
* `Ty.lower_ok` and `Ty.lower_error`: shifting down by one undoes a lifting by one, unless the
  variable that would be lost occurs.
* `Ty.instantiate_ok` and `Ty.instantiate_error`: the three steps of an instantiation give the
  instance, and the last one never meets the variable it would lose.
* `Ty.occurs_ok` and `Ty.occurs_error`: the test for a free variable.
-/

namespace PolyLambda

namespace Ty

/-! ## shapes of the nodes -/

/-- Every node of a type has a shape that satisfies `P`. -/
abbrev EveryShape (P : Shape → Prop) (T : Ty) : Prop :=
  T.Every fun U => P U.shape

section EveryShape

variable {P : Shape → Prop} {f : Nat → Int → Ty} {c k : Nat} {T A : Ty}

/-- Replacing variables keeps what holds of all shapes, if it holds of what is put in. -/
theorem EveryShape.replace (hf : ∀ c i, (f c i).EveryShape P) (hT : T.EveryShape P) :
    (T.replace f c).EveryShape P := by
  induction T using byVars generalizing c with
  | var i => exact hf c i
  | node T h ih =>
    refine ⟨?_, ?_⟩
    · rw [shape_replace h]
      exact hT.here
    · rw [children_replace h]
      intro V hV
      obtain ⟨U, hU, rfl⟩ := List.mem_map.1 hV
      exact ih U hU (hT.child hU)

theorem everyShape_var (hvar : ∀ i, P (.var i)) (i : Int) : (Ty.var i).EveryShape P :=
  ⟨hvar i, by simp [children]⟩

/-- Lifting keeps what holds of every node, if it does not tell a node from its lifting. -/
theorem every_lift {P : Ty → Prop} (hP : ∀ T c, P (T.lift k c) ↔ P T) :
    (T.lift k c).Every P ↔ T.Every P := by
  induction T using byVars generalizing c with
  | var i =>
    obtain ⟨j, hj⟩ := exists_lift_var (k := k) (c := c) i
    refine ⟨fun h => ⟨(hP _ c).1 h.here, by simp [children]⟩, fun h => ⟨(hP _ c).2 h.here, ?_⟩⟩
    simp [hj, children]
  | node T h ih =>
    have hc : (T.lift k c).children = T.children.map fun U => U.lift k (c + T.shape.binds) :=
      children_replace h
    constructor
    · intro hT
      refine ⟨(hP T c).1 hT.here, fun U hU => ?_⟩
      have hmem : U.lift k (c + T.shape.binds) ∈ (T.lift k c).children := by
        rw [hc]
        exact List.mem_map_of_mem hU
      exact (ih U hU).1 (hT.child hmem)
    · intro hT
      refine ⟨(hP T c).2 hT.here, ?_⟩
      rw [hc]
      intro V hV
      obtain ⟨U, hU, rfl⟩ := List.mem_map.1 hV
      exact (ih U hU).2 (hT.child hU)

/-- Lifting keeps the shapes of all nodes but variables. -/
theorem everyShape_lift (hvar : ∀ i, P (.var i)) :
    (T.lift k c).EveryShape P ↔ T.EveryShape P := by
  refine every_lift (P := fun U => P U.shape) fun T c => ?_
  cases T with
  | var i =>
    obtain ⟨j, hj⟩ := exists_lift_var (k := k) (c := c) i
    simp [hj, shape, hvar]
  | _ => rw [lift, shape_replace (by simp [shape])]

/-- An instance has the shapes of the body and of the argument. -/
theorem EveryShape.inst (hvar : ∀ i, P (.var i)) (hT : T.EveryShape P) (hA : A.EveryShape P) :
    (T.inst A).EveryShape P := by
  refine hT.replace fun c i => ?_
  unfold instVar
  split
  · exact everyShape_var hvar _
  · split
    · exact (everyShape_lift hvar).2 hA
    · exact everyShape_var hvar _

end EveryShape

theorem proper_var (i : Int) : (Shape.var i).Proper := ⟨Shape.noConfusion, trivial⟩

theorem wellFormed_lift {T : Ty} {k c : Nat} : (T.lift k c).WellFormed ↔ T.WellFormed :=
  everyShape_lift (P := Shape.Proper) proper_var

theorem WellFormed.inst {body A : Ty} (hb : body.WellFormed) (hA : A.WellFormed) :
    (body.inst A).WellFormed :=
  EveryShape.inst (P := Shape.Proper) proper_var hb hA

/-- Replacing variables by variables does not change how deep nodes nest. -/
theorem fits_replace {f : Nat → Int → Ty} (hf : ∀ c i, ∃ j, f c i = .var j) {n c : Nat} {T : Ty} :
    (T.replace f c).Fits n ↔ T.Fits n := by
  induction n generalizing T c with
  | zero => rfl
  | succ n ih =>
    by_cases hT : ∃ i, T.shape = .var i
    · obtain ⟨i, hi⟩ := hT
      obtain rfl := eq_of_shape_var hi
      obtain ⟨j, hj⟩ := hf c i
      simp [replace, hj, Fits, children]
    · rw [Fits, children_replace (not_exists.1 hT)]
      simp only [List.forall_mem_map]
      exact forall₂_congr fun U _ => ih

theorem fits_lift {n k c : Nat} {T : Ty} : (T.lift k c).Fits n ↔ T.Fits n :=
  fits_replace fun _ i => exists_lift_var i

/-! ## replacing variables within levels -/

section MapVars

variable {onVar : Nat → Int → Except Fault Ty} {n c : Nat} {T U : Ty} {e : Fault}

/-- Away from variables and holes, a traversal goes on in the parts. -/
theorem mapVars_node (hv : ∀ i, T.shape ≠ .var i) (hh : T.shape ≠ .hole) :
    T.mapVars onVar (n + 1) c = T.mapParts fun k U => U.mapVars onVar n (c + k) := by
  cases T <;> simp_all [mapVars, shape]

/-- A traversal that succeeds has met only well-formed nodes. -/
theorem mapVars_wellFormed (h : T.mapVars onVar n c = .ok U) : T.WellFormed := by
  induction n generalizing T c U with
  | zero => simp [mapVars] at h
  | succ n ih =>
    by_cases hv : ∃ i, T.shape = .var i
    · obtain ⟨i, hi⟩ := hv
      exact ⟨hi ▸ proper_var i, by cases T <;> simp_all [shape, children]⟩
    by_cases hh : T.shape = .hole
    · cases T <;> simp_all [mapVars, shape]
    rw [mapVars_node (not_exists.1 hv) hh, mapParts_eq_ok] at h
    obtain ⟨hd, -, hc⟩ := h
    refine ⟨⟨hh, hd⟩, fun A hA => ?_⟩
    obtain ⟨B, -, hB⟩ := exists_of_forall₂_left hc hA
    exact ih hB

/-- A traversal that succeeds has met only nodes within its levels. -/
theorem mapVars_fits (h : T.mapVars onVar n c = .ok U) : T.Fits n := by
  induction n generalizing T c U with
  | zero => simp [mapVars] at h
  | succ n ih =>
    intro A hA
    by_cases hv : ∃ i, T.shape = .var i
    · obtain ⟨i, hi⟩ := hv
      cases T <;> simp_all [shape, children]
    by_cases hh : T.shape = .hole
    · cases T <;> simp_all [mapVars, shape]
    rw [mapVars_node (not_exists.1 hv) hh, mapParts_eq_ok] at h
    obtain ⟨B, -, hB⟩ := exists_of_forall₂_left h.2.2 hA
    exact ih hB

/-- A traversal that succeeds has put in what `f` gives, if that is what it puts in for each
variable. -/
theorem mapVars_eq_replace {f : Nat → Int → Ty} (hf : ∀ c i V, onVar c i = .ok V → V = f c i)
    (h : T.mapVars onVar n c = .ok U) : U = T.replace f c := by
  induction n generalizing T c U with
  | zero => simp [mapVars] at h
  | succ n ih =>
    by_cases hv : ∃ i, T.shape = .var i
    · obtain ⟨i, hi⟩ := hv
      obtain rfl := eq_of_shape_var hi
      exact hf c _ U h
    by_cases hh : T.shape = .hole
    · cases T <;> simp_all [mapVars, shape]
    rw [mapVars_node (not_exists.1 hv) hh, mapParts_eq_ok] at h
    obtain ⟨-, hs, hc⟩ := h
    apply eq_of_shape_children
    · rw [hs, shape_replace (not_exists.1 hv)]
    · rw [children_replace (not_exists.1 hv)]
      have heq : List.Forall₂ Eq U.children (T.children.map (replace f (c + T.shape.binds))) := by
        rw [List.forall₂_map_right_iff]
        exact hc.flip.imp fun B A hB => ih hB
      rwa [List.forall₂_eq_eq_eq] at heq

/-- On a well-formed type a traversal fails only for want of levels, unless one of the
variables is refused. -/
theorem mapVars_error (hT : T.WellFormed)
    (hv : T.EveryVar (fun c i => ∀ e, onVar c i = .error e → e = .tooDeep) c)
    (h : T.mapVars onVar n c = .error e) : e = .tooDeep := by
  induction n generalizing T c with
  | zero => simpa [mapVars, eq_comm] using h
  | succ n ih =>
    by_cases hi : ∃ i, T.shape = .var i
    · obtain ⟨i, hi⟩ := hi
      obtain rfl := eq_of_shape_var hi
      exact hv.at e h
    rw [mapVars_node (not_exists.1 hi) hT.here.1] at h
    obtain ⟨A, hA, he⟩ := mapParts_eq_error hT.here.2 h
    exact ih (hT.child hA) (hv.child hA) he

end MapVars

/-! ## shifting -/

section Shift

variable {n : Nat} {T U A body : Ty} {e : Fault}

/-- What a shift by `d` makes of a variable that it does not refuse. -/
def raiseVar (d : Int) (c : Nat) (i : Int) : Ty :=
  if i < c then .var i else .var (i + d)

/-- A shift refuses a free variable whose index would become negative. -/
theorem shiftVar_eq (d : Int) (c : Nat) (i : Int) : shiftVar d c i =
    if c ≤ i ∧ i + d < 0 then .error (.negative i d) else .ok (raiseVar d c i) := by
  unfold shiftVar raiseVar
  by_cases hi : i < c
  · rw [if_pos (.inl hi), if_neg (by omega), if_pos hi]
  by_cases hd : d = 0
  · rw [if_pos (.inr hd), if_neg (by omega), if_neg hi, hd, Int.add_zero]
  · rw [if_neg (by omega), if_neg hi]
    by_cases hneg : i + d < 0
    · rw [if_pos hneg, if_pos (by omega)]
    · rw [if_neg hneg, if_neg (by omega)]

/-- If a variable can be shifted, the result is the shifted variable. -/
theorem shiftVar_eq_raiseVar {d : Int} {c : Nat} {i : Int} {V : Ty}
    (h : shiftVar d c i = .ok V) : V = raiseVar d c i := by
  rw [shiftVar_eq] at h
  split at h
  · contradiction
  · exact (Except.ok.inj h).symm

theorem shiftVar_ok {k c : Nat} {i : Int} {V : Ty} (h : shiftVar k c i = .ok V) :
    V = liftVar k c i :=
  shiftVar_eq_raiseVar h

/-- Shifting upwards is lifting. -/
theorem shift_ok {k : Nat} (h : T.shift n k = .ok U) :
    T.WellFormed ∧ T.Fits n ∧ U = T.lift k 0 :=
  ⟨mapVars_wellFormed h, mapVars_fits h, mapVars_eq_replace (fun _ _ _ => shiftVar_ok) h⟩

/-- Shifting upwards needs only levels. -/
theorem shift_error {k : Nat} (hT : T.WellFormed) (h : T.shift n k = .error e) : e = .tooDeep := by
  refine mapVars_error hT (everyVar_of_forall (fun c i e he => ?_) T) h
  rw [shiftVar_eq] at he
  split at he
  · omega
  · contradiction

/-- The variable of the nearest binder outside does not occur. -/
abbrev Avoids (T : Ty) : Prop :=
  T.EveryVar (fun c i => i ≠ c) 0

/-- What is lifted by one does not mention the innermost variable. -/
theorem avoids_lift (T : Ty) : (T.lift 1 0).Avoids := by
  refine EveryVar.replace (everyVar_of_forall (P := fun _ _ => True) (fun _ _ => trivial) T) ?_
  intro n i _
  unfold liftVar
  split <;> exact .var (by omega)

/-- What shifting down by one makes of a variable. -/
def lowerVar (c : Nat) (i : Int) : Ty :=
  if i < c then .var i else .var (i - 1)

theorem shiftVar_neg_one_ok {c : Nat} {i : Int} {V : Ty} (h : shiftVar (-1) c i = .ok V) :
    V = lowerVar c i := by
  rw [shiftVar_eq_raiseVar h, raiseVar, lowerVar, Int.sub_eq_add_neg]

/-- Shifting down by one gives the type of which the given one is the lifting. -/
theorem lower_ok (hT : T.Avoids) (h : T.shift n (-1) = .ok U) :
    T.WellFormed ∧ T.Fits n ∧ T = U.lift 1 0 := by
  refine ⟨mapVars_wellFormed h, mapVars_fits h, ?_⟩
  have hU : U = T.replace lowerVar 0 := mapVars_eq_replace (fun _ _ _ => shiftVar_neg_one_ok) h
  have hlift : U.lift 1 0 = T.replace (fun c i => (lowerVar c i).lift 1 c) 0 := by
    rw [hU]
    exact replace_replace (fun n i => rfl) T
  have hid :
      T.replace (fun c i => (lowerVar c i).lift 1 c) 0 = T.replace (fun _ i => .var i) 0 := by
    refine replace_congr (hT.mono fun n i hi => ?_)
    unfold lowerVar
    split
    · next hlt => exact lift_var_of_lt hlt
    · rw [lift_var_of_le (by omega)]
      congr 1
      omega
  rw [hlift, hid, replace_id fun _ _ => rfl]

/-- Shifting down by one needs only levels where the variable it would lose is not there. -/
theorem lower_error (hT : T.WellFormed) (ha : T.Avoids) (h : T.shift n (-1) = .error e) :
    e = .tooDeep := by
  refine mapVars_error hT (ha.mono fun c i hi e he => ?_) h
  rw [shiftVar_eq] at he
  split at he
  · omega
  · contradiction

/-- Nothing is lost by lifting. -/
theorem lift_one_injective {T U : Ty} (h : T.lift 1 0 = U.lift 1 0) : T = U := by
  rw [← inst_lift (A := .hole) T, h, inst_lift]

/-! ## instantiation -/

/-- What substituting `A` makes of a variable. -/
def putVar (A : Ty) (c : Nat) (i : Int) : Ty :=
  if i = c then A.lift c 0 else .var i

theorem substVar_ok {c : Nat} {i : Int} {V : Ty} (h : substVar n A c i = .ok V) :
    V = putVar A c i := by
  unfold substVar at h
  unfold putVar
  split at h
  · next hi => rw [if_pos hi, (shift_ok h).2.2]
  · next hi => rw [if_neg hi, ← Except.ok.inj h]

/-- Putting a lifted type in the place of a variable leaves the index of the variable free, as
after lifting the instance. -/
theorem replace_putVar (body A : Ty) :
    body.replace (putVar (A.lift 1 0)) 0 = (body.inst A).lift 1 0 := by
  symm
  apply replace_replace
  intro n i
  change ((Ty.var i).instAt (0 + n) A).lift 1 (0 + n) = putVar (A.lift 1 0) (0 + n) i
  rw [Nat.zero_add]
  unfold putVar
  rcases Int.lt_trichotomy i n with hi | hi | hi
  · rw [if_neg (by omega), instAt_var_of_lt hi, lift_var_of_lt hi]
  · rw [if_pos hi, hi, instAt_var_self, lift_lift (Nat.zero_le n) (by omega),
      lift_lift (Nat.zero_le 0) (Nat.zero_le _), Nat.add_comm]
  · rw [if_neg (by omega), instAt_var_of_gt hi, lift_var_of_le (by omega)]
    congr 1
    omega

/-- Substituting a lifted type gives the lifted instance, from which the binder can be taken. -/
theorem subst_lift_ok {opened : Ty} (h : body.subst n (A.lift 1 0) = .ok opened) :
    opened = (body.inst A).lift 1 0 := by
  rw [← replace_putVar]
  exact mapVars_eq_replace (fun _ _ _ => substVar_ok) h

/-- The three steps of an instantiation give the instance. -/
theorem instantiate_ok (h : body.instantiate n A = .ok U) :
    body.WellFormed ∧ A.WellFormed ∧ U = body.inst A := by
  obtain ⟨lifted, hl, h⟩ := bind_eq_ok.1 h
  obtain ⟨hA, -, rfl⟩ := shift_ok (k := 1) hl
  obtain ⟨opened, ho, hlower⟩ := bind_eq_ok.1 h
  have hopened := subst_lift_ok ho
  have hU := (lower_ok (hopened ▸ avoids_lift _) hlower).2.2
  exact ⟨mapVars_wellFormed ho, hA, lift_one_injective (hU.symm.trans hopened)⟩

/-- Instantiation needs only levels: the closing shift never meets the variable it would
lose. -/
theorem instantiate_error (hb : body.WellFormed) (hA : A.WellFormed)
    (h : body.instantiate n A = .error e) : e = .tooDeep := by
  rcases bind_eq_error.1 h with hl | ⟨lifted, hl, h⟩
  · exact shift_error (k := 1) hA hl
  obtain ⟨-, -, rfl⟩ := shift_ok (k := 1) hl
  rcases bind_eq_error.1 h with ho | ⟨opened, ho, h⟩
  · refine mapVars_error hb (everyVar_of_forall (fun c i e he => ?_) body) ho
    unfold substVar at he
    split at he
    · exact shift_error (wellFormed_lift.2 hA) he
    · contradiction
  · have hopened := subst_lift_ok ho
    have hwf : opened.WellFormed := hopened ▸ wellFormed_lift.2 (hb.inst hA)
    exact lower_error hwf (hopened ▸ avoids_lift _) h

end Shift

end Ty

/-! ## listing occurrences -/

namespace Visit

variable {ε : Type}

/-- A fault of a sequence of visits is the fault of one of them. -/
theorem all_fault_eq_some {vs : List (Visit ε)} {e : ε} (h : (all vs).fault = some e) :
    ∃ v ∈ vs, v.fault = some e := by
  induction vs with
  | nil => simp [all, nothing] at h
  | cons v vs ih =>
    rw [all, andThen] at h
    cases hv : v.fault with
    | some d =>
      rw [hv] at h
      exact ⟨v, List.mem_cons_self, hv.trans h⟩
    | none =>
      rw [hv] at h
      obtain ⟨w, hw, he⟩ := ih h
      exact ⟨w, List.mem_cons_of_mem v hw, he⟩

/-- Without a fault all visits are made, and what they have seen comes in order. -/
theorem all_fault_eq_none {vs : List (Visit ε)} (h : (all vs).fault = none) :
    (∀ v ∈ vs, v.fault = none) ∧ (all vs).seen = vs.flatMap (·.seen) := by
  induction vs with
  | nil => simp [all, nothing]
  | cons v vs ih =>
    rw [all, andThen] at h ⊢
    cases hv : v.fault with
    | some d => simp [hv] at h
    | none =>
      rw [hv] at h
      obtain ⟨hvs, hs⟩ := ih h
      exact ⟨List.forall_mem_cons.2 ⟨hv, hvs⟩, by simp [hs]⟩

end Visit

namespace Ty

section Occurs

variable {n c : Nat} {k : Int} {T : Ty} {e : Fault}

/-- Away from variables and holes, a visit goes on in the children. -/
theorem visit_node (hv : ∀ i, T.shape ≠ .var i) (hh : T.shape ≠ .hole) :
    T.visit (n + 1) c = .all (T.children.map fun U => U.visit n (c + T.shape.binds)) := by
  have hparts : T.parts.map (fun p => p.2.visit n (c + p.1)) =
      T.children.map fun U => U.visit n (c + T.shape.binds) := by
    rw [parts_eq, List.map_map]
    rfl
  rw [← hparts]
  cases T <;> simp_all [visit, shape]

/-- What holds of the occurrences listed by a full traversal is what holds of every
variable. -/
theorem visit_seen {P : Nat → Int → Prop} (h : (T.visit n c).fault = none) :
    (∀ o ∈ (T.visit n c).seen, P o.under o.index) ↔ T.EveryVar P c := by
  induction n generalizing T c with
  | zero => simp [visit, Visit.fail] at h
  | succ n ih =>
    by_cases hv : ∃ i, T.shape = .var i
    · obtain ⟨i, hi⟩ := hv
      obtain rfl := eq_of_shape_var hi
      simp only [visit, Visit.one, List.mem_singleton, forall_eq]
      exact ⟨.var, EveryVar.at⟩
    by_cases hh : T.shape = .hole
    · cases T <;> simp_all [visit, shape, Visit.fail]
    rw [visit_node (not_exists.1 hv) hh] at h ⊢
    obtain ⟨hf, hs⟩ := Visit.all_fault_eq_none h
    rw [hs]
    simp only [List.forall_mem_map] at hf
    constructor
    · intro hP
      refine .node (not_exists.1 hv) fun U hU => (ih (hf U hU)).1 fun o ho => hP o ?_
      exact List.mem_flatMap.2 ⟨_, List.mem_map_of_mem hU, ho⟩
    · intro hP o ho
      obtain ⟨v, hmem, ho⟩ := List.mem_flatMap.1 ho
      obtain ⟨U, hU, rfl⟩ := List.mem_map.1 hmem
      exact (ih (hf U hU)).2 (hP.child hU) o ho

/-- On a well-formed type listing the occurrences needs only levels. -/
theorem visit_error (hT : T.WellFormed) (h : (T.visit n c).fault = some e) : e = .tooDeep := by
  induction n generalizing T c with
  | zero => simpa [visit, Visit.fail, eq_comm] using h
  | succ n ih =>
    by_cases hv : ∃ i, T.shape = .var i
    · obtain ⟨i, hi⟩ := hv
      cases T <;> simp_all [visit, shape, Visit.one]
    rw [visit_node (not_exists.1 hv) hT.here.1] at h
    obtain ⟨v, hmem, he⟩ := Visit.all_fault_eq_some h
    obtain ⟨U, hU, rfl⟩ := List.mem_map.1 hmem
    exact ih (hT.child hU) he

/-- The test for a free variable answers no exactly when no occurrence stands for it. -/
theorem occurs_ok {b : Bool} (h : T.occurs n k = .ok b) :
    b = false ↔ T.EveryVar (fun c i => i ≠ k + c) 0 := by
  unfold occurs at h
  cases hv : T.visit n 0 with
  | mk seen fault =>
    cases fault with
    | some e => simp [hv] at h
    | none =>
      have hseen := visit_seen (P := fun c i => i ≠ k + c) (T := T) (n := n) (c := 0) (by rw [hv])
      rw [hv] at hseen h
      rw [← Except.ok.inj h, ← hseen]
      simp

/-- On a well-formed type the test needs only levels. -/
theorem occurs_error (hT : T.WellFormed) (h : T.occurs n k = .error e) : e = .tooDeep := by
  unfold occurs at h
  cases hv : T.visit n 0 with
  | mk seen fault =>
    cases fault with
    | some d =>
      rw [hv] at h
      rw [← Except.error.inj h]
      exact visit_error (n := n) (c := 0) hT (by rw [hv])
    | none => simp [hv] at h

end Occurs

end Ty

end PolyLambda
