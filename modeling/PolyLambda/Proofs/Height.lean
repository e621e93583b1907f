import PolyLambda.Proofs.Levels

/-!
# PolyLambda.Proofs.Height

How many levels an operation needs, to the level. A type has a height, the number of nodes on its
longest path downwards, and a traversal has enough levels exactly when they reach that far
(`Ty.fits_iff`).

An instantiation is three traversals, and each has all the levels to itself: the first goes over
the type that is put in, the second over the body, the third over the instance. So there are three
heights that count, and nothing else does. In particular the closing shift never takes an index
below zero, whatever the indices are: no variable of the instance stands where the binder was.

* `Ty.height` and `Ty.fits_iff`: heights and levels.
* `Ty.instantiate_fits`: an instantiation that succeeds had room for all three types.
* `Ty.run_instantiate`: what an instantiation gives under any limit.
-/

namespace PolyLambda

namespace Ty

/-! ## heights -/

mutual
/-- The number of nodes on the longest path from the top of a type downwards. -/
def height : Ty → Nat
  | .hole | .base _ | .named _ | .var _ => 1
  | .variant fields => heightFields fields + 1
  | .product items => heightItems items + 1
  | .arrow dom cod => max dom.height cod.height + 1
  | .app fn arg => max fn.height arg.height + 1
  | .binder _ body => body.height + 1

/-- The greatest height in the alternatives of a variant. -/
def heightFields : List (Field Ty) → Nat
  | [] => 0
  | ⟨_, T⟩ :: rest => max T.height (heightFields rest)

/-- The greatest height in the components of a product. -/
def heightItems : List Ty → Nat
  | [] => 0
  | T :: rest => max T.height (heightItems rest)
end

variable {n : Nat} {T U A body : Ty}

theorem heightFields_le {fields : List (Field Ty)} :
    heightFields fields ≤ n ↔ ∀ f ∈ fields, f.ty.height ≤ n := by
  induction fields with
  | nil => simp [heightFields]
  | cons f rest ih => rw [heightFields, Nat.max_le, ih, List.forall_mem_cons]

theorem heightItems_le {items : List Ty} :
    heightItems items ≤ n ↔ ∀ T ∈ items, T.height ≤ n := by
  induction items with
  | nil => simp [heightItems]
  | cons T rest ih => rw [heightItems, Nat.max_le, ih, List.forall_mem_cons]

theorem height_pos (T : Ty) : 0 < T.height := by
  cases T <;> simp [height]

/-- A node is one higher than what stands below it. -/
theorem height_le_succ : T.height ≤ n + 1 ↔ ∀ U ∈ T.children, U.height ≤ n := by
  cases T with
  | hole | base | named | var => simp [height, children]
  | variant fields => simp [height, children, heightFields_le]
  | product items => simp [height, children, heightItems_le]
  | arrow dom cod =>
    rw [height, Nat.succ_le_succ_iff, Nat.max_le, children, List.forall_mem_cons,
      List.forall_mem_singleton]
  | app fn arg =>
    rw [height, Nat.succ_le_succ_iff, Nat.max_le, children, List.forall_mem_cons,
      List.forall_mem_singleton]
  | binder b body => simp [height, children]

/-- A type fits as many levels as it is high. -/
theorem fits_iff : T.Fits n ↔ T.height ≤ n := by
  induction n generalizing T with
  | zero => simp [Fits, Nat.ne_of_gt T.height_pos]
  | succ n ih =>
    rw [Fits, height_le_succ]
    exact forall₂_congr fun U _ => ih

/-! ## instantiation -/

/-- Each of the three traversals of an instantiation has gone over a type that fits. -/
theorem instantiate_fits (h : body.instantiate n A = .ok U) :
    A.Fits n ∧ body.Fits n ∧ (body.inst A).Fits n := by
  obtain ⟨lifted, hl, h⟩ := bind_eq_ok.1 h
  obtain ⟨-, hA, rfl⟩ := shift_ok (k := 1) hl
  obtain ⟨opened, ho, hlower⟩ := bind_eq_ok.1 h
  have hinst : opened.Fits n := mapVars_fits hlower
  rw [subst_lift_ok ho, fits_lift] at hinst
  exact ⟨hA, mapVars_fits ho, hinst⟩

/-- An instantiation succeeds exactly when the levels suffice for the type that is put in, for the
body and for the instance. -/
theorem instantiate_eq_ok (hb : body.WellFormed) (hA : A.WellFormed) :
    body.instantiate n A = .ok (body.inst A) ↔
      A.height ≤ n ∧ body.height ≤ n ∧ (body.inst A).height ≤ n := by
  simp only [← fits_iff]
  constructor
  · exact instantiate_fits
  · rintro ⟨hAf, hbf, hf⟩
    exact instantiate_of_fits hb hA hbf hAf hf

/-- Under any limit, the instance of a well-formed body is given if the limit is not below the
height of the type that is put in, of the body, or of the instance. Otherwise the types nest too
deep, and this is the only way to fail: no index becomes negative. -/
theorem run_instantiate (m : Int) (hb : body.WellFormed) (hA : A.WellFormed) :
    (Limit.run ⟨m, none⟩ fun n => body.instantiate n A) =
      if A.height ≤ m ∧ body.height ≤ m ∧ (body.inst A).height ≤ m then
        .ok (body.inst A)
      else
        .error (.type ⟨.tooDeep m, none⟩) := by
  have hlevels : ∀ T : Ty, (T.height : Int) ≤ m ↔ T.height ≤ m.toNat := fun T => by
    have hpos := T.height_pos
    omega
  have hrun : (Limit.run ⟨m, none⟩ fun n => body.instantiate n A) =
      (body.instantiate m.toNat A).mapError (Limit.fault ⟨m, none⟩) := rfl
  simp only [hrun, hlevels, ← instantiate_eq_ok hb hA]
  cases h : body.instantiate m.toNat A with
  | ok U =>
    obtain ⟨-, -, rfl⟩ := instantiate_ok h
    rw [if_pos rfl]
    rfl
  | error e =>
    obtain rfl := instantiate_error hb hA h
    rw [if_neg nofun]
    rfl

/-- A polymorphic type over two free variables. -/
def polymorphic : Ty :=
  .binder .all (.arrow (.var 1) (.var 2))

/-- A function type with a free variable, and an index that no binder can have. -/
def stray : Ty :=
  .arrow (.var 0) (.var (-1))

/-- The body is three nodes high and the argument two, but the instance is four nodes high. -/
theorem run_instantiate_polymorphic :
    polymorphic.WellFormed ∧ stray.WellFormed ∧
      (Limit.run ⟨3, none⟩ fun n => polymorphic.instantiate n stray) =
        .error (.type ⟨.tooDeep 3, none⟩) ∧
      (Limit.run ⟨4, none⟩ fun n => polymorphic.instantiate n stray) =
        .ok (.binder .all (.arrow (.arrow (.var 1) (.var (-1))) (.var 1))) := by
  have hbody : polymorphic.WellFormed := (shift_ok (n := 3) (k := 0) rfl).1
  have hA : stray.WellFormed := (shift_ok (n := 2) (k := 0) rfl).1
  exact ⟨hbody, hA, run_instantiate 3 hbody hA, run_instantiate 4 hbody hA⟩

end Ty

end PolyLambda
