import PolyLambda.Proofs.Node

/-!
# PolyLambda.Proofs.Lift

Lifting and instantiation of types without a bound on nesting. Both put something in the
place of each variable, depending on the number of binders over it, so both are instances of
`Ty.replace`, and their laws follow from one: two ways of replacing twice agree when they
agree on variables (`Ty.replace_replace_eq`).

* `Ty.lift` raises the free variables, `Ty.instAt` puts a type in the place of one variable
  and closes up the index it leaves, `Ty.inst` does so for the nearest binder.
* `Ty.lift_lift_comm`, `Ty.instAt_lift`, `Ty.lift_instAt` and `Ty.instAt_instAt` are the laws
  that reduction needs.
* `Ty.EveryVar` says something of every variable of a type; `Ty.Scoped` is the case that all
  of them point inside.
-/

namespace PolyLambda.Ty

/-! ## replacing variables -/

mutual
/-- Puts `f c i` in the place of each variable `i` under `c` binders. -/
def replace (f : Nat → Int → Ty) (c : Nat) : Ty → Ty
  | .hole => .hole
  | .base b => .base b
  | .named name => .named name
  | .var i => f c i
  | .variant fields => .variant (replaceFields f c fields)
  | .product items => .product (replaceItems f c items)
  | .arrow dom cod => .arrow (replace f c dom) (replace f c cod)
  | .app fn arg => .app (replace f c fn) (replace f c arg)
  | .binder b body => .binder b (replace f (c + 1) body)

/-- Replaces the variables in the alternatives of a variant. -/
def replaceFields (f : Nat → Int → Ty) (c : Nat) : List (Field Ty) → List (Field Ty)
  | [] => []
  | ⟨l, T⟩ :: rest => ⟨l, replace f c T⟩ :: replaceFields f c rest

/-- Replaces the variables in the components of a product. -/
def replaceItems (f : Nat → Int → Ty) (c : Nat) : List Ty → List Ty
  | [] => []
  | T :: rest => replace f c T :: replaceItems f c rest
end

section Replace

variable {f g f' g' h : Nat → Int → Ty} {c d c' d' e : Nat}

theorem replaceFields_eq (fields : List (Field Ty)) :
    replaceFields f c fields = fields.map fun g => ⟨g.label, g.ty.replace f c⟩ := by
  induction fields with
  | nil => rfl
  | cons g rest ih => rw [replaceFields, ih, List.map_cons]

theorem replaceItems_eq (items : List Ty) :
    replaceItems f c items = items.map (replace f c) := by
  induction items with
  | nil => rfl
  | cons T rest ih => rw [replaceItems, ih, List.map_cons]

/-- Induction over nodes with the variables apart. -/
theorem byVars {motive : Ty → Prop} (var : ∀ i, motive (.var i))
    (node : ∀ T, (∀ i, T.shape ≠ .var i) → (∀ U ∈ T.children, motive U) → motive T) (T : Ty) :
    motive T := by
  induction T using byChildren with
  | node T ih =>
    by_cases hT : ∃ i, T.shape = .var i
    · obtain ⟨i, hi⟩ := hT
      obtain rfl := eq_of_shape_var hi
      exact var _
    · exact node T (not_exists.1 hT) ih

/-- Replacing changes only variables: any other node keeps its shape. -/
theorem shape_replace {T : Ty} (hT : ∀ i, T.shape ≠ .var i) :
    (T.replace f c).shape = T.shape := by
  cases T <;> simp_all [replace, shape, replaceFields_eq, replaceItems_eq, labels]

/-- Away from variables, replacing goes on in the children, under the binders of the node. -/
theorem children_replace {T : Ty} (hT : ∀ i, T.shape ≠ .var i) :
    (T.replace f c).children = T.children.map (replace f (c + T.shape.binds)) := by
  cases T <;> simp_all [replace, shape, children, replaceFields_eq, replaceItems_eq, Shape.binds]

/-- Two ways of replacing twice agree if they agree on variables under any number of
further binders. -/
theorem replace_replace_eq
    (hvar : ∀ n i, (f (c + n) i).replace g (d + n) = (f' (c' + n) i).replace g' (d' + n)) (T : Ty) :
    (T.replace f c).replace g d = (T.replace f' c').replace g' d' := by
  induction T using byVars generalizing c d c' d' with
  | var i => exact hvar 0 i
  | node T hT ih =>
    have hf : ∀ i, (T.replace f c).shape ≠ .var i := by simpa only [shape_replace hT] using hT
    have hf' : ∀ i, (T.replace f' c').shape ≠ .var i := by simpa only [shape_replace hT] using hT
    apply eq_of_shape_children
    · rw [shape_replace hf, shape_replace hf', shape_replace hT, shape_replace hT]
    · rw [children_replace hf, children_replace hf', children_replace hT, children_replace hT,
        shape_replace hT, shape_replace hT, List.map_map, List.map_map]
      apply List.map_congr_left
      intro U hU
      apply ih U hU
      intro n i
      simpa only [Nat.add_assoc] using hvar (T.shape.binds + n) i

/-- Putting each variable in its own place changes nothing. -/
theorem replace_id (hvar : ∀ n i, f (c + n) i = .var i) (T : Ty) : T.replace f c = T := by
  induction T using byVars generalizing c with
  | var i => exact hvar 0 i
  | node T hT ih =>
    apply eq_of_shape_children (shape_replace hT)
    rw [children_replace hT, List.map_congr_left (g := id), List.map_id]
    intro U hU
    apply ih U hU
    intro n i
    rw [Nat.add_assoc]
    exact hvar (T.shape.binds + n) i

/-- Replacing twice is replacing once by what the second makes of the first. -/
theorem replace_replace (hvar : ∀ n i, (f (c + n) i).replace g (d + n) = h (e + n) i) (T : Ty) :
    (T.replace f c).replace g d = T.replace h e := by
  have hid : ∀ (k : Nat) (T : Ty), T.replace (fun _ i => .var i) k = T := fun k =>
    replace_id fun _ _ => rfl
  rw [← hid e (T.replace h e)]
  apply replace_replace_eq
  intro n i
  rw [hvar, hid]

end Replace

/-! ## lifting and instantiation -/

/-- What lifting by `k` makes of a variable. -/
def liftVar (k c : Nat) (i : Int) : Ty :=
  if i < c then .var i else .var (i + k)

/-- Raises by `k` every variable that points beyond the `c` nearest binders. -/
def lift (T : Ty) (k c : Nat) : Ty :=
  T.replace (liftVar k) c

/-- What instantiation with `A` makes of a variable. -/
def instVar (A : Ty) (c : Nat) (i : Int) : Ty :=
  if i < c then .var i else if i = c then A.lift c 0 else .var (i - 1)

/-- Puts `A`, lifted over `c` binders, in the place of variable `c`, and closes up the
variables beyond. -/
def instAt (T : Ty) (c : Nat) (A : Ty) : Ty :=
  T.replace (instVar A) c

/-- The instance of a binder's body: `A` in the place of the bound variable. -/
def inst (body A : Ty) : Ty :=
  body.instAt 0 A

section Laws

variable {c d e k l : Nat} {i : Int} {A B : Ty}

/-- A variable bound inside the type stays. -/
theorem lift_var_of_lt (h : i < c) : (Ty.var i).lift k c = .var i := by
  rw [lift, replace, liftVar, if_pos h]

/-- A variable from outside is raised. -/
theorem lift_var_of_le (h : c ≤ i) : (Ty.var i).lift k c = .var (i + k) := by
  rw [lift, replace, liftVar, if_neg (by omega)]

/-- A variable stays one. -/
theorem exists_lift_var (i : Int) : ∃ j, (Ty.var i).lift k c = .var j := by
  rcases Int.lt_or_le i c with h | h
  · exact ⟨i, lift_var_of_lt h⟩
  · exact ⟨i + k, lift_var_of_le h⟩

theorem instAt_var_of_lt (h : i < c) : (Ty.var i).instAt c A = .var i := by
  rw [instAt, replace, instVar, if_pos h]

theorem instAt_var_self : (Ty.var c).instAt c A = A.lift c 0 := by
  rw [instAt, replace, instVar, if_neg (by omega), if_pos rfl]

/-- A variable from further outside comes down by the binder that is gone. -/
theorem instAt_var_of_gt (h : c < i) : (Ty.var i).instAt c A = .var (i - 1) := by
  rw [instAt, replace, instVar, if_neg (by omega), if_neg (by omega)]

theorem lift_zero (T : Ty) : T.lift 0 c = T := by
  apply replace_id
  intro n i
  simp [liftVar]

/-- Lifting twice over the same place adds up. -/
theorem lift_lift (hc : c ≤ d) (hd : d ≤ c + l) (T : Ty) :
    (T.lift l c).lift k d = T.lift (l + k) c := by
  apply replace_replace
  intro n i
  change ((Ty.var i).lift l (c + n)).lift k (d + n) = (Ty.var i).lift (l + k) (c + n)
  rcases Int.lt_or_le i (c + n : Nat) with h | h
  · rw [lift_var_of_lt h, lift_var_of_lt h, lift_var_of_lt (by omega)]
  · rw [lift_var_of_le h, lift_var_of_le h, lift_var_of_le (by omega)]
    congr 1
    omega

/-- Liftings at different places commute. -/
theorem lift_lift_comm (h : c ≤ d) (T : Ty) :
    (T.lift l c).lift k (d + l) = (T.lift k d).lift l c := by
  apply replace_replace_eq
  intro n i
  change ((Ty.var i).lift l (c + n)).lift k (d + l + n) =
    ((Ty.var i).lift k (d + n)).lift l (c + n)
  rcases Int.lt_or_le i (c + n : Nat) with hi | hi
  · rw [lift_var_of_lt hi, lift_var_of_lt (i := i) (c := d + n) (by omega), lift_var_of_lt hi,
      lift_var_of_lt (by omega)]
  · rw [lift_var_of_le hi]
    rcases Int.lt_or_le i (d + n : Nat) with hj | hj
    · rw [lift_var_of_lt hj, lift_var_of_lt (by omega), lift_var_of_le hi]
    · rw [lift_var_of_le hj, lift_var_of_le (by omega), lift_var_of_le (by omega)]
      congr 1
      omega

/-- A variable that lifting has freed is not there to be replaced. -/
theorem instAt_lift (hc : c ≤ d) (hd : d ≤ c + k) (T : Ty) :
    (T.lift (k + 1) c).instAt d A = T.lift k c := by
  apply replace_replace
  intro n i
  change ((Ty.var i).lift (k + 1) (c + n)).instAt (d + n) A = (Ty.var i).lift k (c + n)
  rcases Int.lt_or_le i (c + n : Nat) with h | h
  · rw [lift_var_of_lt h, lift_var_of_lt h, instAt_var_of_lt (by omega)]
  · rw [lift_var_of_le h, lift_var_of_le h, instAt_var_of_gt (by omega)]
    congr 1
    omega

/-- Instantiation beyond a lifting commutes with it. -/
theorem instAt_lift_comm (h : e ≤ c) (T : Ty) :
    (T.lift d e).instAt (c + d) B = (T.instAt c B).lift d e := by
  apply replace_replace_eq
  intro n i
  change ((Ty.var i).lift d (e + n)).instAt (c + d + n) B =
    ((Ty.var i).instAt (c + n) B).lift d (e + n)
  rcases Int.lt_or_le i (e + n : Nat) with hi | hi
  · rw [lift_var_of_lt hi, instAt_var_of_lt (by omega), instAt_var_of_lt (by omega),
      lift_var_of_lt hi]
  rw [lift_var_of_le hi]
  rcases Int.lt_trichotomy i (c + n : Nat) with hj | hj | hj
  · rw [instAt_var_of_lt hj, lift_var_of_le hi, instAt_var_of_lt (by omega)]
  · have hd : i + d = (c + d + n : Nat) := by omega
    rw [hd, hj, instAt_var_self, instAt_var_self, lift_lift (by omega) (by omega)]
    congr 1
    omega
  · rw [instAt_var_of_gt hj, instAt_var_of_gt (by omega), lift_var_of_le (by omega)]
    congr 1
    omega

/-- Lifting an instance lifts the body and what is put in. -/
theorem lift_instAt (T : Ty) :
    (T.instAt d A).lift k (c + d) = (T.lift k (c + d + 1)).instAt d (A.lift k c) := by
  apply replace_replace_eq
  intro n i
  change ((Ty.var i).instAt (d + n) A).lift k (c + d + n) =
    ((Ty.var i).lift k (c + d + 1 + n)).instAt (d + n) (A.lift k c)
  rcases Int.lt_trichotomy i (d + n : Nat) with hi | hi | hi
  · rw [instAt_var_of_lt hi, lift_var_of_lt (by omega), lift_var_of_lt (by omega),
      instAt_var_of_lt hi]
  · rw [hi, instAt_var_self, lift_var_of_lt (by omega), instAt_var_self, Nat.add_assoc c,
      lift_lift_comm (Nat.zero_le c)]
  · rw [instAt_var_of_gt hi]
    rcases Int.lt_or_le i (c + d + 1 + n : Nat) with hj | hj
    · rw [lift_var_of_lt hj, lift_var_of_lt (by omega), instAt_var_of_gt hi]
    · rw [lift_var_of_le hj, lift_var_of_le (by omega), instAt_var_of_gt (by omega)]
      congr 1
      omega

/-- Instantiating an inner binder and then an outer one is instantiating the outer one
first, in the body and in what is put in. -/
theorem instAt_instAt (T : Ty) :
    (T.instAt d A).instAt (c + d) B = (T.instAt (c + d + 1) B).instAt d (A.instAt c B) := by
  apply replace_replace_eq
  intro n i
  change ((Ty.var i).instAt (d + n) A).instAt (c + d + n) B =
    ((Ty.var i).instAt (c + d + 1 + n) B).instAt (d + n) (A.instAt c B)
  rcases Int.lt_trichotomy i (d + n : Nat) with hi | hi | hi
  · rw [instAt_var_of_lt hi, instAt_var_of_lt (by omega), instAt_var_of_lt (by omega),
      instAt_var_of_lt hi]
  · rw [hi, instAt_var_self, instAt_var_of_lt (by omega), instAt_var_self, Nat.add_assoc c,
      instAt_lift_comm (Nat.zero_le c)]
  rw [instAt_var_of_gt hi]
  rcases Int.lt_trichotomy i (c + d + 1 + n : Nat) with hj | hj | hj
  · rw [instAt_var_of_lt hj, instAt_var_of_lt (by omega), instAt_var_of_gt hi]
  · have hk : i - 1 = (c + d + n : Nat) := by omega
    have hl : c + d + 1 + n = c + d + n + 1 := by omega
    rw [hk, hj, instAt_var_self, instAt_var_self, hl, instAt_lift (by omega) (by omega)]
  · rw [instAt_var_of_gt hj, instAt_var_of_gt (by omega), instAt_var_of_gt (by omega)]

/-- Instances can be lifted before or after they are taken. -/
theorem lift_inst (body : Ty) :
    (body.inst A).lift k c = (body.lift k (c + 1)).inst (A.lift k c) :=
  lift_instAt body

/-- So can instances of instances. -/
theorem instAt_inst (body : Ty) :
    (body.inst A).instAt c B = (body.instAt (c + 1) B).inst (A.instAt c B) :=
  instAt_instAt body

/-- A type that does not mention the variable is its own instance. -/
theorem inst_lift (T : Ty) : (T.lift 1 0).inst A = T := by
  rw [inst, instAt_lift (Nat.le_refl 0) (Nat.le_refl 0), lift_zero]

end Laws

/-! ## what holds of every variable -/

/-- Every variable `i` of a type, under `c` binders counted on from the given number,
satisfies `P c i`. -/
inductive EveryVar (P : Nat → Int → Prop) : Nat → Ty → Prop where
  | var {c : Nat} {i : Int} (h : P c i) : EveryVar P c (.var i)
  | node {c : Nat} {T : Ty} (hT : ∀ i, T.shape ≠ .var i)
      (h : ∀ U ∈ T.children, EveryVar P (c + T.shape.binds) U) : EveryVar P c T

section EveryVar

variable {P Q : Nat → Int → Prop} {f g : Nat → Int → Ty} {c d : Nat} {T : Ty}

theorem EveryVar.at (h : (Ty.var i).EveryVar P c) : P c i := by
  cases h with
  | var h => exact h
  | node hT _ => exact absurd rfl (hT i)

theorem EveryVar.child (h : T.EveryVar P c) {U : Ty} (hU : U ∈ T.children) :
    U.EveryVar P (c + T.shape.binds) := by
  cases h with
  | var h => simp [children] at hU
  | node _ h => exact h U hU

/-- The condition on variables may be weakened, and the number of binders changed along with it. -/
theorem EveryVar.mono (h : T.EveryVar P c)
    (hPQ : ∀ n i, P (c + n) i → Q (d + n) i) : T.EveryVar Q d := by
  induction h generalizing d with
  | var h => exact .var (hPQ 0 _ h)
  | node hT _ ih =>
    refine .node hT fun U hU => ih U hU ?_
    intro n i hi
    rw [Nat.add_assoc] at hi ⊢
    exact hPQ _ i hi

/-- Replacing agrees for functions that agree on the variables of the type. -/
theorem replace_congr (h : T.EveryVar (fun c i => f c i = g c i) c) :
    T.replace f c = T.replace g c := by
  induction h with
  | var h => exact h
  | node hT _ ih =>
    apply eq_of_shape_children
    · rw [shape_replace hT, shape_replace hT]
    · rw [children_replace hT, children_replace hT]
      exact List.map_congr_left ih

/-- The variables of a type after replacing are those of what was put in. -/
theorem EveryVar.replace (h : T.EveryVar P c)
    (hf : ∀ n i, P (c + n) i → (f (c + n) i).EveryVar Q (d + n)) :
    (T.replace f c).EveryVar Q d := by
  induction h generalizing d with
  | var h => exact hf 0 _ h
  | @node c T hT _ ih =>
    refine .node (by simpa only [shape_replace hT] using hT) ?_
    rw [children_replace hT, shape_replace hT]
    intro V hV
    obtain ⟨U, hU, rfl⟩ := List.mem_map.1 hV
    apply ih U hU
    intro n i hi
    simp only [Nat.add_assoc] at hi ⊢
    exact hf _ i hi

theorem everyVar_of_forall (h : ∀ c i, P c i) (T : Ty) : T.EveryVar P c := by
  induction T using byVars generalizing c with
  | var i => exact .var (h c i)
  | node T hT ih => exact .node hT fun U hU => ih U hU

/-- All variables point to binders inside the type or to one of `n` outside. -/
def Scoped (n : Nat) (T : Ty) : Prop :=
  T.EveryVar (fun c i => 0 ≤ i ∧ i < c) n

theorem Scoped.mono {n m : Nat} (h : T.Scoped n) (hnm : n ≤ m) : T.Scoped m :=
  EveryVar.mono h fun k i hi => ⟨hi.1, by omega⟩

/-- Replacing that leaves bound variables alone does not change a type beyond its scope. -/
theorem Scoped.replace_eq {n : Nat} (h : T.Scoped n) (hc : n ≤ c)
    (hf : ∀ (c : Nat) (i : Int), i < c → f c i = .var i) : T.replace f c = T := by
  have hid : T.replace f c = T.replace (fun _ i => .var i) c :=
    replace_congr (EveryVar.mono (h.mono hc) fun n i hi => hf _ i hi.2)
  rw [hid, replace_id fun _ _ => rfl]

/-- Lifting beyond the scope of a type does not change it. -/
theorem Scoped.lift_eq {n : Nat} (h : T.Scoped n) (hc : n ≤ c) (k : Nat) : T.lift k c = T :=
  h.replace_eq hc fun _ _ hi => if_pos hi

/-- Nothing is put into a type beyond its scope. -/
theorem Scoped.instAt_eq {n : Nat} (h : T.Scoped n) (hc : n ≤ c) (A : Ty) : T.instAt c A = T :=
  h.replace_eq hc fun _ _ hi => if_pos hi

end EveryVar

end PolyLambda.Ty
