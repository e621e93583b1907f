import Mathlib.Data.List.Forall2
import PolyLambda.Ty.Traverse

/-!
# PolyLambda.Proofs.Node

A type as a node: what stands at its top, and the types right below. Every traversal of
types works on a node through its parts, so what holds of all of them is proved here once,
and later proofs follow the recursion of a traversal without a case for each constructor.

* `Ty.shape` and `Ty.children` take a node apart, `Shape.build` puts it together.
* `Ty.byChildren` is induction over nodes.
* `Ty.mapParts_eq_ok` and `Ty.mapParts_eq_error` say how rebuilding a node ends.
* `Ty.Every` says something of every node of a type, `Ty.Fits` bounds how deep nodes nest.
-/

namespace PolyLambda

/-! ## results -/

section Results

variable {ε α β : Type}

/-- A sequence succeeds if both its steps do. -/
theorem bind_eq_ok {x : Except ε α} {f : α → Except ε β} {b : β} :
    x >>= f = .ok b ↔ ∃ a, x = .ok a ∧ f a = .ok b := by
  cases x with
  | error e => simp [bind, Except.bind]
  | ok a => simp [bind, Except.bind]

/-- A sequence fails at its first step, or at the second after a success of the first. -/
theorem bind_eq_error {x : Except ε α} {f : α → Except ε β} {e : ε} :
    x >>= f = .error e ↔ x = .error e ∨ ∃ a, x = .ok a ∧ f a = .error e := by
  cases x with
  | error e => simp [bind, Except.bind]
  | ok a => simp [bind, Except.bind]

theorem mapError_eq_ok {ε' : Type} {x : Except ε α} {f : ε → ε'} {a : α} :
    x.mapError f = .ok a ↔ x = .ok a := by
  cases x <;> simp [Except.mapError]

/-- A renamed failure comes from a failure. -/
theorem mapError_eq_error {ε' : Type} {x : Except ε α} {f : ε → ε'} {e : ε'} :
    x.mapError f = .error e ↔ ∃ d, x = .error d ∧ f d = e := by
  cases x <;> simp [Except.mapError]

/-- Whatever is in the first of two related lists has a partner in the second. -/
theorem exists_of_forall₂_left {R : α → β → Prop} {xs : List α} {ys : List β}
    (h : List.Forall₂ R xs ys) {x : α} (hx : x ∈ xs) : ∃ y ∈ ys, R x y := by
  induction h with
  | nil => simp at hx
  | cons hR _ ih =>
    rcases List.mem_cons.1 hx with rfl | hx
    · exact ⟨_, List.mem_cons_self, hR⟩
    · obtain ⟨y, hy, hxy⟩ := ih hx
      exact ⟨y, List.mem_cons_of_mem _ hy, hxy⟩

/-- Related lists have related members at the same place. -/
theorem getElem?_of_forall₂ {R : α → β → Prop} {xs : List α} {ys : List β} {i : Nat} {a : α}
    (h : List.Forall₂ R xs ys) (ha : xs[i]? = some a) : ∃ b, ys[i]? = some b ∧ R a b := by
  induction h generalizing i with
  | nil => simp at ha
  | @cons x y _ _ hxy _ ih =>
    cases i with
    | zero => exact ⟨y, rfl, Option.some.inj ha ▸ hxy⟩
    | succ i => exact ih ha

/-- Whatever is in the second of two related lists has a partner in the first. -/
theorem exists_of_forall₂_right {R : α → β → Prop} {xs : List α} {ys : List β}
    (h : List.Forall₂ R xs ys) {y : β} (hy : y ∈ ys) : ∃ x ∈ xs, R x y :=
  exists_of_forall₂_left (R := flip R) (List.Forall₂.flip h) hy

/-- A list of results is a result exactly when every member is one. -/
theorem mapM_eq_ok {f : α → Except ε β} {xs : List α} {ys : List β} :
    xs.mapM f = .ok ys ↔ List.Forall₂ (fun x y => f x = .ok y) xs ys := by
  induction xs generalizing ys with
  | nil => simp [pure, Except.pure, eq_comm]
  | cons x xs ih =>
    rw [List.mapM_cons, bind_eq_ok, List.forall₂_cons_left_iff]
    simp only [bind_eq_ok, ih, pure, Except.pure, Except.ok.injEq]
    constructor
    · rintro ⟨y, hy, zs, hzs, rfl⟩
      exact ⟨y, zs, hy, hzs, rfl⟩
    · rintro ⟨y, zs, hy, hzs, rfl⟩
      exact ⟨y, hy, zs, hzs, rfl⟩

/-- A list of results fails only where a member fails. -/
theorem mapM_eq_error {f : α → Except ε β} {xs : List α} {e : ε} (h : xs.mapM f = .error e) :
    ∃ x ∈ xs, f x = .error e := by
  induction xs with
  | nil => simp [pure, Except.pure] at h
  | cons x xs ih =>
    rw [List.mapM_cons, bind_eq_error] at h
    rcases h with hx | ⟨y, -, h⟩
    · exact ⟨x, List.mem_cons_self, hx⟩
    · rcases bind_eq_error.1 h with hxs | ⟨ys, -, h⟩
      · obtain ⟨z, hz, he⟩ := ih hxs
        exact ⟨z, List.mem_cons_of_mem x hz, he⟩
      · simp [pure, Except.pure] at h

theorem mapM_congr {f g : α → Except ε β} {xs : List α} (h : ∀ a ∈ xs, f a = g a) :
    xs.mapM f = xs.mapM g := by
  induction xs with
  | nil => rfl
  | cons a xs ih =>
    obtain ⟨ha, hxs⟩ := List.forall_mem_cons.1 h
    rw [List.mapM_cons, List.mapM_cons, ha, ih hxs]

/-- Pairs of two mapped lists come from pairs of the lists. -/
theorem mem_zip_map {γ δ : Type} {f : α → γ} {g : β → δ} {xs : List α} {ys : List β} {c : γ}
    {d : δ} :
    (c, d) ∈ (xs.map f).zip (ys.map g) ↔ ∃ a b, (a, b) ∈ xs.zip ys ∧ f a = c ∧ g b = d := by
  rw [List.zip_map, List.mem_map]
  simp

end Results

/-! ## shapes -/

/-- What stands at the top of a type: everything but the types below. -/
inductive Shape where
  | hole
  | base (b : Base)
  | named (name : String)
  | var (index : Int)
  | variant (labels : List String)
  | product (arity : Nat)
  | arrow
  | app
  | binder (b : Binder)
  deriving DecidableEq

namespace Shape

/-- The number of types below. -/
def arity : Shape → Nat
  | .hole | .base _ | .named _ | .var _ => 0
  | .variant labels => labels.length
  | .product n => n
  | .arrow | .app => 2
  | .binder _ => 1

/-- The number of type variables that are bound in the types below. -/
def binds : Shape → Nat
  | .binder _ => 1
  | _ => 0

/-- No label stands twice. -/
def Distinct : Shape → Prop
  | .variant labels => labels.Nodup
  | _ => True

/-- A shape that a node can be written with: not a hole, and no label twice. -/
def Proper (s : Shape) : Prop :=
  s ≠ .hole ∧ s.Distinct

/-- The node of a shape over the given types. Lists of another length than the arity are not
meant. -/
def build : Shape → List Ty → Ty
  | .base b, _ => .base b
  | .named name, _ => .named name
  | .var i, _ => .var i
  | .variant labels, Ts => .variant (List.zipWith Field.mk labels Ts)
  | .product _, Ts => .product Ts
  | .arrow, [dom, cod] => .arrow dom cod
  | .app, [fn, arg] => .app fn arg
  | .binder b, [body] => .binder b body
  | _, _ => .hole

end Shape

namespace Ty

/-- What stands at the top of a type. -/
def shape : Ty → Shape
  | .hole => .hole
  | .base b => .base b
  | .named name => .named name
  | .var i => .var i
  | .variant fields => .variant (labels fields)
  | .product items => .product items.length
  | .arrow _ _ => .arrow
  | .app _ _ => .app
  | .binder b _ => .binder b

/-- The types right below, from left to right. -/
def children : Ty → List Ty
  | .hole | .base _ | .named _ | .var _ => []
  | .variant fields => fields.map (·.ty)
  | .product items => items
  | .arrow dom cod => [dom, cod]
  | .app fn arg => [fn, arg]
  | .binder _ body => [body]

/-- A node has as many children as its shape says. -/
theorem length_children (T : Ty) : T.children.length = T.shape.arity := by
  cases T <;> simp [children, shape, Shape.arity, labels]

theorem length_children_eq {T U : Ty} (h : T.shape = U.shape) :
    T.children.length = U.children.length := by
  rw [length_children, length_children, h]

/-- To relate the children of two nodes of one shape, it suffices to relate those at the same place.
-/
theorem forall₂_children {R : Ty → Ty → Prop} {T U : Ty} (h : T.shape = U.shape)
    (hR : ∀ A B, (A, B) ∈ T.children.zip U.children → R A B) :
    List.Forall₂ R T.children U.children :=
  List.forall₂_iff_zip.2 ⟨length_children_eq h, fun {A B} => hR A B⟩

theorem zipWith_labels (fields : List (Field Ty)) :
    List.zipWith Field.mk (labels fields) (fields.map (·.ty)) = fields := by
  induction fields with
  | nil => rfl
  | cons f fields ih =>
    simp only [labels, List.map_cons, List.zipWith_cons_cons]
    rw [← labels, ih]

/-- A node is put together again from what it was taken apart to. -/
theorem build_shape_children (T : Ty) : T.shape.build T.children = T := by
  cases T <;> simp [shape, children, Shape.build, zipWith_labels]

/-- A node is its shape and what stands below. -/
theorem eq_of_shape_children {T U : Ty} (hs : T.shape = U.shape)
    (hc : T.children = U.children) : T = U := by
  rw [← build_shape_children T, ← build_shape_children U, hs, hc]

theorem eq_of_shape_var {T : Ty} {i : Int} (h : T.shape = .var i) : T = .var i := by
  cases T <;> simp_all [shape]

theorem eq_of_shape_named {T : Ty} {name : String} (h : T.shape = .named name) :
    T = .named name := by
  cases T <;> simp_all [shape]

/-- A node that is built has the shape and the children it is built from. -/
theorem shape_children_build {s : Shape} {Ts : List Ty} (h : Ts.length = s.arity) :
    (s.build Ts).shape = s ∧ (s.build Ts).children = Ts := by
  cases s with
  | hole => simp_all [Shape.arity, Shape.build, shape, children]
  | base b => simp_all [Shape.arity, Shape.build, shape, children]
  | named name => simp_all [Shape.arity, Shape.build, shape, children]
  | var i => simp_all [Shape.arity, Shape.build, shape, children]
  | product n => simp_all [Shape.arity, Shape.build, shape, children]
  | variant ls =>
    simp only [Shape.arity] at h
    simp only [Shape.build, shape, children, Shape.variant.injEq, labels]
    induction ls generalizing Ts with
    | nil => simp_all
    | cons l ls ih =>
      obtain _ | ⟨T, Ts⟩ := Ts
      · simp at h
      · simpa using ih (by simpa using h)
  | arrow =>
    obtain ⟨a, b, rfl⟩ := List.length_eq_two.1 h
    simp [Shape.build, shape, children]
  | app =>
    obtain ⟨a, b, rfl⟩ := List.length_eq_two.1 h
    simp [Shape.build, shape, children]
  | binder b =>
    obtain ⟨a, rfl⟩ := List.length_eq_one_iff.1 h
    simp [Shape.build, shape, children]

theorem shape_build {s : Shape} {Ts : List Ty} (h : Ts.length = s.arity) :
    (s.build Ts).shape = s := (shape_children_build h).1

theorem children_build {s : Shape} {Ts : List Ty} (h : Ts.length = s.arity) :
    (s.build Ts).children = Ts := (shape_children_build h).2

/-- Induction over nodes: what holds of a type when it holds of the types right below holds
of every type. -/
theorem byChildren {motive : Ty → Prop}
    (node : ∀ T, (∀ U ∈ T.children, motive U) → motive T) (T : Ty) : motive T := by
  induction T with
  | hole => exact node _ (by simp [children])
  | base b => exact node _ (by simp [children])
  | named name => exact node _ (by simp [children])
  | var i => exact node _ (by simp [children])
  | variant fields ih => exact node _ (by simpa [children] using ih)
  | product items ih => exact node _ (by simpa [children] using ih)
  | arrow dom cod ihd ihc => exact node _ (by simp [children, ihd, ihc])
  | app fn arg ihf iha => exact node _ (by simp [children, ihf, iha])
  | binder b body ih => exact node _ (by simp [children, ih])

/-! ## parts -/

/-- All parts of a node stand under as many binders as its shape says. -/
theorem parts_eq (T : Ty) : T.parts = T.children.map fun U => (T.shape.binds, U) := by
  cases T <;> simp [parts, children, shape, Shape.binds]

/-- No label is repeated exactly if the labels differ and none has been seen. -/
theorem firstRepeated_eq_none {seen ls : List String} :
    firstRepeated seen ls = none ↔ ls.Nodup ∧ ∀ l ∈ ls, l ∉ seen := by
  induction ls generalizing seen with
  | nil => simp [firstRepeated]
  | cons l ls ih =>
    by_cases h : l ∈ seen
    · simp [firstRepeated, h]
    · rw [firstRepeated, if_neg h, ih]
      simp only [List.mem_cons, not_or, List.nodup_cons]
      grind

/-- A variant can be built exactly when no label stands twice. -/
theorem ofFields_eq_ok {fields : List (Field Ty)} {T : Ty} :
    ofFields fields = .ok T ↔ (labels fields).Nodup ∧ T = .variant fields := by
  unfold ofFields
  have h := @firstRepeated_eq_none [] (labels fields)
  split
  · next l hl => simp_all
  · next hl => simp_all [eq_comm]

/-- Treating the alternatives of a variant keeps their labels. -/
theorem mapM_fields {f : Ty → Except Fault Ty} {fs gs : List (Field Ty)} :
    (fs.mapM fun g => do return (⟨g.label, ← f g.ty⟩ : Field Ty)) = .ok gs ↔
      labels fs = labels gs ∧
        List.Forall₂ (fun A B => f A = .ok B) (fs.map (·.ty)) (gs.map (·.ty)) := by
  rw [mapM_eq_ok, List.forall₂_map_left_iff, List.forall₂_map_right_iff]
  simp only [bind_eq_ok, pure, Except.pure, Except.ok.injEq]
  induction fs generalizing gs with
  | nil => cases gs <;> simp [labels]
  | cons f fs ih =>
    obtain _ | ⟨g, gs⟩ := gs
    · simp [labels]
    · obtain ⟨l, T⟩ := g
      rw [List.forall₂_cons, List.forall₂_cons, ih]
      simp only [labels, List.map_cons, List.cons.injEq, Field.mk.injEq]
      constructor
      · rintro ⟨⟨A, hA, hl, rfl⟩, hls, h⟩
        exact ⟨⟨hl, hls⟩, hA, h⟩
      · rintro ⟨⟨hl, hls⟩, hT, h⟩
        exact ⟨⟨T, hT, hl, rfl⟩, hls, h⟩

/-- Rebuilding a node keeps its shape and puts results below. It asks that no label of a
variant stands twice. -/
theorem mapParts_eq_ok {f : Nat → Ty → Except Fault Ty} {T U : Ty} :
    T.mapParts f = .ok U ↔ T.shape.Distinct ∧ U.shape = T.shape ∧
      List.Forall₂ (fun A B => f T.shape.binds A = .ok B) T.children U.children := by
  cases T with
  | hole => cases U <;> simp [mapParts, shape, children, Shape.Distinct]
  | base b => cases U <;> simp [mapParts, shape, children, Shape.Distinct, eq_comm (a := b)]
  | named n => cases U <;> simp [mapParts, shape, children, Shape.Distinct, eq_comm (a := n)]
  | var i => cases U <;> simp [mapParts, shape, children, Shape.Distinct, eq_comm (a := i)]
  | variant fs =>
    simp only [mapParts, bind_eq_ok, mapError_eq_ok, ofFields_eq_ok, shape, Shape.Distinct,
      Shape.binds, children]
    constructor
    · rintro ⟨gs, hgs, hn, rfl⟩
      rw [mapM_fields] at hgs
      rw [hgs.1]
      exact ⟨hn, rfl, hgs.2⟩
    · rintro ⟨hn, hU, h⟩
      cases U <;> simp only [Shape.variant.injEq, reduceCtorEq] at hU
      rename_i gs
      exact ⟨gs, mapM_fields.2 ⟨hU.symm, h⟩, hU ▸ hn, rfl⟩
  | product items =>
    simp only [mapParts, bind_eq_ok, pure, Except.pure, Except.ok.injEq, mapM_eq_ok, shape,
      Shape.Distinct, Shape.binds, children, true_and]
    constructor
    · rintro ⟨us, hus, rfl⟩
      exact ⟨by simp [hus.length_eq], hus⟩
    · rintro ⟨hU, h⟩
      cases U <;> simp only [Shape.product.injEq, reduceCtorEq] at hU
      exact ⟨_, h, rfl⟩
  | arrow dom cod =>
    cases U <;> simp [mapParts, bind_eq_ok, pure, Except.pure, shape, children, Shape.Distinct,
      Shape.binds]
  | app fn arg =>
    cases U <;> simp [mapParts, bind_eq_ok, pure, Except.pure, shape, children, Shape.Distinct,
      Shape.binds]
  | binder b body =>
    cases U <;> simp [mapParts, bind_eq_ok, pure, Except.pure, shape, children, Shape.Distinct,
      Shape.binds]
    grind

/-- Rebuilding a node fails only where one of its parts fails, unless a label stands twice. -/
theorem mapParts_eq_error {f : Nat → Ty → Except Fault Ty} {T : Ty} {e : Fault}
    (hd : T.shape.Distinct) (h : T.mapParts f = .error e) :
    ∃ U ∈ T.children, f T.shape.binds U = .error e := by
  cases T with
  | hole => simp [mapParts] at h
  | base b => simp [mapParts] at h
  | named name => simp [mapParts] at h
  | var i => simp [mapParts] at h
  | variant fs =>
    rcases bind_eq_error.1 h with h | ⟨gs, hgs, h⟩
    · obtain ⟨g, hg, he⟩ := mapM_eq_error h
      rcases bind_eq_error.1 he with he | ⟨A, -, he⟩
      · exact ⟨g.ty, List.mem_map_of_mem hg, he⟩
      · simp [pure, Except.pure] at he
    · have hn : (labels gs).Nodup := (mapM_fields.1 hgs).1 ▸ hd
      rw [ofFields_eq_ok.2 ⟨hn, rfl⟩] at h
      simp [Except.mapError] at h
  | product items =>
    rcases bind_eq_error.1 h with h | ⟨us, -, h⟩
    · exact mapM_eq_error h
    · simp [pure, Except.pure] at h
  | arrow dom cod =>
    simp only [mapParts, bind_eq_error, pure, Except.pure, reduceCtorEq, and_false, exists_false,
      or_false] at h
    simp only [children, shape, Shape.binds, List.mem_cons, List.not_mem_nil, or_false,
      exists_eq_or_imp, exists_eq_left]
    grind
  | app fn arg =>
    simp only [mapParts, bind_eq_error, pure, Except.pure, reduceCtorEq, and_false, exists_false,
      or_false] at h
    simp only [children, shape, Shape.binds, List.mem_cons, List.not_mem_nil, or_false,
      exists_eq_or_imp, exists_eq_left]
    grind
  | binder b body =>
    simp only [mapParts, bind_eq_error, pure, Except.pure, reduceCtorEq, and_false, exists_false,
      or_false] at h
    exact ⟨body, by simp [children], h⟩

/-- The parts of a type may be treated in another way that agrees on them. -/
theorem mapParts_congr {f g : Nat → Ty → Except Fault Ty} {T : Ty}
    (h : ∀ U ∈ T.children, f T.shape.binds U = g T.shape.binds U) :
    T.mapParts f = T.mapParts g := by
  cases T with
  | variant fields =>
    have hfields : ∀ a ∈ fields, (do return ⟨a.label, ← f 0 a.ty⟩ : Except Fault (Field Ty)) =
        do return ⟨a.label, ← g 0 a.ty⟩ := by
      intro a ha
      have hty : f 0 a.ty = g 0 a.ty := h a.ty (List.mem_map_of_mem ha)
      rw [hty]
    rw [mapParts, mapParts, mapM_congr hfields]
  | product items =>
    have hitems : ∀ A ∈ items, f 0 A = g 0 A := h
    rw [mapParts, mapParts, mapM_congr hitems]
  | arrow dom cod =>
    have hdom : f 0 dom = g 0 dom := h dom (by simp [children])
    have hcod : f 0 cod = g 0 cod := h cod (by simp [children])
    rw [mapParts, mapParts, hdom, hcod]
  | app fn arg =>
    have hfn : f 0 fn = g 0 fn := h fn (by simp [children])
    have harg : f 0 arg = g 0 arg := h arg (by simp [children])
    rw [mapParts, mapParts, hfn, harg]
  | binder b body =>
    have hbody : f 1 body = g 1 body := h body (by simp [children])
    rw [mapParts, mapParts, hbody]
  | _ => rfl

/-! ## every node -/

/-- Every node of a type, the type itself included, satisfies `P`. -/
inductive Every (P : Ty → Prop) : Ty → Prop where
  | intro {T : Ty} (here : P T) (below : ∀ U ∈ T.children, Every P U) : Every P T

namespace Every

variable {P Q : Ty → Prop} {T : Ty}

/-- What holds everywhere holds at the top. -/
theorem here (h : T.Every P) : P T := by
  cases h with
  | intro h _ => exact h

/-- It holds everywhere in each child. -/
theorem child {U : Ty} (h : T.Every P) (hU : U ∈ T.children) : U.Every P := by
  cases h with
  | intro _ h => exact h U hU

theorem mono (h : T.Every P) (hPQ : ∀ U, P U → Q U) : T.Every Q := by
  induction h with
  | intro here _ ih => exact ⟨hPQ _ here, ih⟩

theorem and (h : T.Every P) (h' : T.Every Q) : T.Every fun U => P U ∧ Q U := by
  induction h with
  | intro here _ ih => exact ⟨⟨here, h'.here⟩, fun U hU => ih U hU (h'.child hU)⟩

end Every

/-- A type that can be written down: it has no hole, and no label stands twice in a variant. -/
def WellFormed (T : Ty) : Prop :=
  T.Every fun U => U.shape.Proper

/-- A node without children is well formed if its shape is proper. -/
theorem wellFormed_leaf {T : Ty} (hp : T.shape.Proper) (hc : T.children = []) : T.WellFormed :=
  ⟨hp, by simp [hc]⟩

/-! ## nesting -/

/-- The nodes of a type nest at most this deep. -/
def Fits : Nat → Ty → Prop
  | 0, _ => False
  | n + 1, T => ∀ U ∈ T.children, Fits n U

/-- A type that fits some levels fits more. -/
theorem Fits.mono {n m : Nat} (h : n ≤ m) {T : Ty} (hT : T.Fits n) : T.Fits m := by
  induction m generalizing n T with
  | zero => simp_all [Fits]
  | succ m ih =>
    obtain _ | n := n
    · exact hT.elim
    · exact fun U hU => ih (Nat.le_of_succ_le_succ h) (hT U hU)

/-- The children of a type that fits some levels fit them too. -/
theorem Fits.child {n : Nat} {T U : Ty} (hT : T.Fits n) (hU : U ∈ T.children) : U.Fits n := by
  obtain _ | n := n
  · exact hT.elim
  · exact (hT U hU).mono (Nat.le_succ n)

/-- What fits, fits at every node. -/
theorem Fits.every {n : Nat} {T : Ty} (hT : T.Fits n) : T.Every (Fits n) := by
  induction T using byChildren with
  | node T ih => exact ⟨hT, fun U hU => ih U hU (hT.child hU)⟩

end Ty

end PolyLambda
