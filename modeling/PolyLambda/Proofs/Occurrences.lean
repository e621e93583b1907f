import PolyLambda.Proofs.Height

/-!
# PolyLambda.Proofs.Occurrences

Shifts, one occurrence of a variable at a time. A shift treats the occurrences of a type from left
to right and ends at the first one that it refuses, so it is described by the list of occurrences,
each with the number of binders over it.

An occurrence is refused if its index would become negative. This is less than what is needed: an
occurrence under `c` binders that is taken below `c`, but not below zero, becomes the variable of a
binder inside the type. Such an occurrence is captured. Without binders over it an occurrence cannot
be captured, nor when a type is shifted upwards or when the variables that would be lost are not
there; the rules of the calculus shift types in no other way.

* `Ty.failure?_mapVars`: a traversal fails as the first occurrence that is refused says.
* `Ty.occurrences_raise`: raising a type raises the free occurrences and leaves all others.
* `Ty.run_shift`: what a shift gives, and which occurrences stay free or bound.
* `Ty.shift_captures`: a free variable that becomes bound.
-/

namespace PolyLambda

/-! ## the first failure -/

/-- The failure of a result that is one. -/
def failure? {ε α : Type} : Except ε α → Option ε
  | .ok _ => none
  | .error e => some e

theorem failure?_eq_none {ε α : Type} {x : Except ε α} : failure? x = none ↔ ∃ a, x = .ok a := by
  cases x <;> simp [failure?]

theorem failure?_eq_some {ε α : Type} {x : Except ε α} {e : ε} :
    failure? x = some e ↔ x = .error e := by
  cases x <;> simp [failure?]

/-- A list of results fails as its first failure does. -/
theorem failure?_mapM {ε α β : Type} (f : α → Except ε β) (xs : List α) :
    failure? (xs.mapM f) = xs.findSome? fun x => failure? (f x) := by
  induction xs with
  | nil => rfl
  | cons x xs ih =>
    rw [List.mapM_cons, List.findSome?_cons, ← ih]
    cases f x with
    | error e => rfl
    | ok y => cases xs.mapM f <;> rfl

theorem findSome?_congr {α β : Type} {f g : α → Option β} {xs : List α}
    (h : ∀ x ∈ xs, f x = g x) : xs.findSome? f = xs.findSome? g := by
  induction xs with
  | nil => rfl
  | cons x xs ih =>
    obtain ⟨hx, hxs⟩ := List.forall_mem_cons.1 h
    rw [List.findSome?_cons, List.findSome?_cons, hx, ih hxs]

namespace Ty

/-- Rebuilding a node fails as its first part that fails, if no label stands twice. -/
theorem failure?_mapParts {f : Nat → Ty → Except Fault Ty} {T : Ty} (hd : T.shape.Distinct) :
    failure? (T.mapParts f) = T.children.findSome? fun U => failure? (f T.shape.binds U) := by
  cases T with
  | variant fields =>
    have hfield : ∀ g : Field Ty, failure? (do return (⟨g.label, ← f 0 g.ty⟩ : Field Ty)) =
        failure? (f 0 g.ty) := by
      intro g
      cases f 0 g.ty <;> rfl
    have hfields := failure?_mapM (fun g => do return (⟨g.label, ← f 0 g.ty⟩ : Field Ty)) fields
    simp only [hfield] at hfields
    rw [children, List.findSome?_map]
    refine Eq.trans ?_ hfields
    rw [mapParts]
    cases hgs : fields.mapM fun g => do return (⟨g.label, ← f 0 g.ty⟩ : Field Ty) with
    | error e => rfl
    | ok gs =>
      have hn : (labels gs).Nodup := (mapM_fields.1 hgs).1 ▸ hd
      have hbuilt : ofFields gs = .ok (.variant gs) := ofFields_eq_ok.2 ⟨hn, rfl⟩
      change failure? ((ofFields gs).mapError Fault.malformed) = none
      rw [hbuilt]
      rfl
  | product items =>
    have hitems := failure?_mapM (f 0) items
    simp only [mapParts, shape, children, Shape.binds, ← hitems]
    cases items.mapM (f 0) <;> rfl
  | arrow dom cod =>
    simp only [mapParts, shape, children, Shape.binds, List.findSome?_cons, List.findSome?_nil]
    cases f 0 dom <;> cases f 0 cod <;> rfl
  | app fn arg =>
    simp only [mapParts, shape, children, Shape.binds, List.findSome?_cons, List.findSome?_nil]
    cases f 0 fn <;> cases f 0 arg <;> rfl
  | binder b body =>
    simp only [mapParts, shape, children, Shape.binds, List.findSome?_cons, List.findSome?_nil]
    cases f 1 body <;> rfl
  | _ => rfl

/-! ## occurrences -/

mutual
/-- The occurrences of variables in a type, from left to right. Binders are counted on from `c`. -/
def occurrences (c : Nat) : Ty → List Occurrence
  | .hole | .base _ | .named _ => []
  | .var i => [⟨i, c⟩]
  | .variant fields => fieldOccurrences c fields
  | .product items => itemOccurrences c items
  | .arrow dom cod => occurrences c dom ++ occurrences c cod
  | .app fn arg => occurrences c fn ++ occurrences c arg
  | .binder _ body => occurrences (c + 1) body

/-- The occurrences in the alternatives of a variant. -/
def fieldOccurrences (c : Nat) : List (Field Ty) → List Occurrence
  | [] => []
  | ⟨_, T⟩ :: rest => occurrences c T ++ fieldOccurrences c rest

/-- The occurrences in the components of a product. -/
def itemOccurrences (c : Nat) : List Ty → List Occurrence
  | [] => []
  | T :: rest => occurrences c T ++ itemOccurrences c rest
end

namespace Occurrence

/-- The variable belongs to a binder outside the type. -/
def Free (o : Occurrence) : Prop :=
  o.under ≤ o.index

instance (o : Occurrence) : Decidable o.Free :=
  inferInstanceAs (Decidable ((o.under : Int) ≤ o.index))

/-- A shift by `d` would take the index below zero. -/
def Sinks (o : Occurrence) (d : Int) : Prop :=
  o.Free ∧ o.index + d < 0

instance (o : Occurrence) (d : Int) : Decidable (o.Sinks d) :=
  inferInstanceAs (Decidable (_ ∧ _))

/-- A shift by `d` would make it the variable of a binder inside the type. -/
def Captured (o : Occurrence) (d : Int) : Prop :=
  o.Free ∧ 0 ≤ o.index + d ∧ o.index + d < o.under

/-- The occurrence after a shift by `d`. -/
def raise (o : Occurrence) (d : Int) : Occurrence :=
  if o.Free then ⟨o.index + d, o.under⟩ else o

variable {o : Occurrence} {d : Int}

/-- What is free outside has an index there, `o.index - o.under`. It is taken below zero if the
occurrence sinks, and also if it is captured. -/
theorem sinks_or_captured :
    o.Sinks d ∨ o.Captured d ↔ o.Free ∧ o.index - o.under + d < 0 := by
  unfold Sinks Captured
  constructor
  · rintro (⟨hfree, h⟩ | ⟨hfree, -, h⟩)
    · exact ⟨hfree, by omega⟩
    · exact ⟨hfree, by omega⟩
  · rintro ⟨hfree, h⟩
    by_cases h0 : o.index + d < 0
    · exact .inl ⟨hfree, h0⟩
    · exact .inr ⟨hfree, by omega, by omega⟩

/-- An occurrence that does not sink stays free unless it is captured. -/
theorem raise_free (hs : ¬ o.Sinks d) : (o.raise d).Free ↔ o.Free ∧ ¬ o.Captured d := by
  by_cases hfree : o.Free
  · have hup : 0 ≤ o.index + d := by
      by_contra hneg
      exact hs ⟨hfree, by omega⟩
    rw [raise, if_pos hfree, Free, Captured]
    simp only [hfree, hup, true_and]
    omega
  · simp [raise, hfree]

end Occurrence

variable {n c : Nat} {d : Int} {T U : Ty}

theorem fieldOccurrences_eq (fields : List (Field Ty)) :
    fieldOccurrences c fields = fields.flatMap fun f => f.ty.occurrences c := by
  induction fields with
  | nil => rfl
  | cons f rest ih => rw [fieldOccurrences, ih, List.flatMap_cons]

theorem itemOccurrences_eq (items : List Ty) :
    itemOccurrences c items = items.flatMap (occurrences c) := by
  induction items with
  | nil => rfl
  | cons T rest ih => rw [itemOccurrences, ih, List.flatMap_cons]

theorem occurrences_node (hT : ∀ i, T.shape ≠ .var i) :
    T.occurrences c = T.children.flatMap (occurrences (c + T.shape.binds)) := by
  cases T with
  | var i => exact absurd rfl (hT i)
  | variant fields => rw [occurrences, fieldOccurrences_eq, children, List.flatMap_map]; rfl
  | product items => rw [occurrences, itemOccurrences_eq]; rfl
  | _ => simp [occurrences, children, shape, Shape.binds]

/-- A traversal fails as the first occurrence that is refused says. -/
theorem failure?_mapVars {onVar : Nat → Int → Except Fault Ty} {p : Occurrence → Bool}
    {cause : Occurrence → Fault}
    (hvar : ∀ c i, failure? (onVar c i) = if p ⟨i, c⟩ then some (cause ⟨i, c⟩) else none)
    (hT : T.WellFormed) (hf : T.Fits n) :
    failure? (T.mapVars onVar n c) = ((T.occurrences c).find? p).map cause := by
  induction n generalizing T c with
  | zero => exact hf.elim
  | succ n ih =>
    by_cases hi : ∃ i, T.shape = .var i
    · obtain ⟨i, hi⟩ := hi
      obtain rfl := eq_of_shape_var hi
      rw [mapVars, hvar, occurrences, List.find?_singleton]
      split <;> rfl
    · rw [mapVars_node (not_exists.1 hi) hT.here.1, failure?_mapParts hT.here.2,
        occurrences_node (not_exists.1 hi), List.find?_flatMap, List.map_findSome?]
      exact findSome?_congr fun U hU => ih (hT.child hU) (hf U hU)

/-! ## shifts -/

/-- Adds `d` to every variable that points beyond the `c` nearest binders. -/
def raise (T : Ty) (d : Int) (c : Nat) : Ty :=
  T.replace (raiseVar d) c

/-- Raising a type raises its free occurrences, and leaves all others as they are. -/
theorem occurrences_raise : (T.raise d c).occurrences c = (T.occurrences c).map (·.raise d) := by
  induction T using byVars generalizing c with
  | var i =>
    rw [raise, replace, raiseVar, occurrences]
    by_cases hi : i < c
    · have hbound : ¬ Occurrence.Free ⟨i, c⟩ := by simpa [Occurrence.Free] using hi
      simp [hi, occurrences, Occurrence.raise, hbound]
    · have hfree : Occurrence.Free ⟨i, c⟩ := by simpa [Occurrence.Free] using hi
      simp [hi, occurrences, Occurrence.raise, hfree]
  | node T hT ih =>
    have hraise : ∀ i, (T.raise d c).shape ≠ .var i := by
      simpa only [raise, shape_replace hT] using hT
    rw [occurrences_node hraise, occurrences_node hT, raise, children_replace hT,
      shape_replace hT, List.flatMap_map, List.map_flatMap]
    exact List.flatMap_congr fun U hU => ih U hU

theorem failure?_shiftVar (d : Int) (c : Nat) (i : Int) :
    failure? (shiftVar d c i) =
      if Occurrence.Sinks ⟨i, c⟩ d then some (.negative i d) else none := by
  rw [shiftVar_eq, apply_ite failure?]
  rfl

/-- A shift within its levels is refused by the first occurrence that would sink, and otherwise
raises the type. -/
theorem shift_eq (hT : T.WellFormed) (hf : T.Fits n) : T.shift n d =
    ((T.occurrences 0).find? (·.Sinks d)).elim (.ok (T.raise d 0))
      fun o => .error (.negative o.index d) := by
  have hfail : failure? (T.shift n d) =
      ((T.occurrences 0).find? (·.Sinks d)).map fun o => .negative o.index d :=
    failure?_mapVars (by simpa using failure?_shiftVar d) hT hf
  cases hfind : (T.occurrences 0).find? (·.Sinks d) with
  | some o =>
    rw [hfind] at hfail
    exact failure?_eq_some.1 hfail
  | none =>
    rw [hfind] at hfail
    obtain ⟨U, hU⟩ := failure?_eq_none.1 hfail
    rw [hU, mapVars_eq_replace (fun _ _ _ => shiftVar_eq_raiseVar) hU]
    rfl

/-- The same under a limit. -/
theorem run_shift_eq {m : Int} (hT : T.WellFormed) (hm : T.height ≤ m) :
    (Limit.run ⟨m, none⟩ fun n => T.shift n d) =
      ((T.occurrences 0).find? (·.Sinks d)).elim (.ok (T.raise d 0))
        fun o => .error (.negativeIndex o.index d) := by
  have hpos := T.height_pos
  have hshift := shift_eq (d := d) (n := m.toNat) hT (fits_iff.2 (by omega))
  change (T.shift m.toNat d).mapError (Limit.fault ⟨m, none⟩) = _
  rw [hshift]
  cases (T.occurrences 0).find? (·.Sinks d) <;> rfl

theorem run_shift_refused {m : Int} (hT : T.WellFormed) (hm : T.height ≤ m) :
    (∃ e, (Limit.run ⟨m, none⟩ fun n => T.shift n d) = .error e) ↔
      ∃ o ∈ T.occurrences 0, o.Sinks d := by
  rw [run_shift_eq hT hm]
  cases h : (T.occurrences 0).find? (·.Sinks d) with
  | none => simpa using h
  | some o =>
    have hsinks : o.Sinks d := by simpa using List.find?_some h
    simpa using ⟨o, List.mem_of_find?_eq_some h, hsinks⟩

/-- A shift within the limit is refused exactly where some free occurrence would get a negative
index, and names the first of these. Otherwise it raises the free occurrences. Then an occurrence
is free exactly if it was and has not been captured. So if none is captured, a shift is refused
exactly where a free variable would be taken below zero outside of the type. -/
theorem run_shift (m d : Int) (hT : T.WellFormed) (hm : T.height ≤ m) :
    (Limit.run ⟨m, none⟩ fun n => T.shift n d) =
        ((T.occurrences 0).find? (·.Sinks d)).elim (.ok (T.raise d 0))
          (fun o => .error (.negativeIndex o.index d)) ∧
      (T.raise d 0).occurrences 0 = (T.occurrences 0).map (·.raise d) ∧
      (∀ o ∈ T.occurrences 0, ¬ o.Sinks d → ((o.raise d).Free ↔ o.Free ∧ ¬ o.Captured d)) ∧
      ((∀ o ∈ T.occurrences 0, ¬ o.Captured d) →
        ((∃ e, (Limit.run ⟨m, none⟩ fun n => T.shift n d) = .error e) ↔
          ∃ o ∈ T.occurrences 0, o.Free ∧ o.index - o.under + d < 0)) := by
  refine ⟨run_shift_eq hT hm, occurrences_raise, fun o _ => Occurrence.raise_free, fun hcap => ?_⟩
  rw [run_shift_refused hT hm]
  refine exists_congr fun o => and_congr_right fun ho => ?_
  rw [← Occurrence.sinks_or_captured, or_iff_left (hcap o ho)]

/-- A type with a variable of its own and three free ones, under one binder and under none. -/
def freeBesideBound : Ty :=
  .arrow (.var 3) (.binder .all (.product [.var 0, .var 3, .var 1]))

/-- Shifted down by three, the last variable is refused; shifted up, all free ones move. -/
theorem run_shift_freeBesideBound :
    freeBesideBound.WellFormed ∧ freeBesideBound.height ≤ 4 ∧
      (Limit.run ⟨4, none⟩ fun n => freeBesideBound.shift n (-3)) = .error (.negativeIndex 1 (-3)) ∧
      (Limit.run ⟨4, none⟩ fun n => freeBesideBound.shift n 2) =
        .ok (.arrow (.var 5) (.binder .all (.product [.var 0, .var 5, .var 3]))) := by
  have hwf : freeBesideBound.WellFormed := (shift_ok (n := 4) (k := 0) rfl).1
  exact ⟨hwf, by decide, (run_shift 4 (-3) hwf (by decide)).1, (run_shift 4 2 hwf (by decide)).1⟩

/-- A binder over a variable from outside. -/
def outer : Ty :=
  .binder .all (.var 1)

/-- Outside, the variable has index zero, so that it cannot be shifted down. But the index that is
compared with zero is the one it has under the binder. The shift is not refused, and the variable
becomes that of the binder. -/
theorem shift_captures :
    outer.WellFormed ∧ outer.height ≤ 20 ∧
      (∃ o ∈ outer.occurrences 0, o.Free ∧ o.index - o.under + (-1) < 0) ∧
      (Limit.run ⟨20, none⟩ fun n => outer.shift n (-1)) = .ok (.binder .all (.var 0)) ∧
      ∀ o ∈ (Ty.binder .all (.var 0)).occurrences 0, ¬ o.Free :=
  ⟨(shift_ok (n := 20) (k := 0) rfl).1, by decide, ⟨⟨1, 1⟩, by decide⟩, rfl, by decide⟩

end Ty

end PolyLambda
