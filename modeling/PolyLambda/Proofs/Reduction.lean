import Mathlib.Logic.Relation
import PolyLambda.Proofs.Walk
import PolyLambda.Ty.Alias

/-!
# PolyLambda.Proofs.Reduction

Computation with types. A step applies a type operator or puts the definition of an alias in
the place of its name, anywhere in a type; convertible types are those that steps in both
directions connect.

* `Ty.Anywhere` takes a relation to every place of a type, `Ty.Step`, `Ty.Steps` and `Ty.Conv`
  are one step, any number of steps, and conversion.
* `Ty.Steps.node` and `Ty.Conv.node`: types may be changed below a node.
* `Ty.Rigid` types keep their shape (`Ty.Steps.rigid`), and `Ty.Resolved` types make no step
  (`Ty.Steps.eq_of_resolved`).
-/

namespace PolyLambda

open Relation

/-! ## tables of aliases -/

namespace Aliases

variable {aliases : Aliases} {name key : String} {T U : Ty}

/-- Every definition is a type without free variables. -/
def Closed (aliases : Aliases) : Prop :=
  ∀ name T, aliases.definition? name = some T → T.Scoped 0

/-- Every definition is well formed. -/
def WellFormed (aliases : Aliases) : Prop :=
  ∀ name T, aliases.definition? name = some T → T.WellFormed

theorem closed_empty : Closed ∅ := nofun

theorem wellFormed_empty : WellFormed ∅ := nofun

/-- A definition is the new one, or it stood there before. -/
theorem definition?_insert (h : definition? (aliases.insert name T) key = some U) :
    U = T ∨ aliases.definition? key = some U := by
  unfold definition? at h ⊢
  rw [Table.get?_insert] at h
  split at h
  · exact .inl (by simpa [eq_comm] using (Option.filter_eq_some_iff.1 h).1)
  · exact .inr h

/-- A definition changes nothing for other names. -/
theorem definition?_insert_of_ne (h : key ≠ name) :
    definition? (aliases.insert name T) key = aliases.definition? key := by
  rw [definition?, Table.get?_insert, if_neg h, definition?]

/-- A table stays closed if a closed type is entered. -/
theorem Closed.insert (h : aliases.Closed) (hT : T.Scoped 0) :
    Closed (aliases.insert name T) := by
  intro key U hU
  obtain rfl | hU := definition?_insert hU
  · exact hT
  · exact h key U hU

/-- A table stays well formed if a well-formed type is entered. -/
theorem WellFormed.insert (h : aliases.WellFormed) (hT : T.WellFormed) :
    WellFormed (aliases.insert name T) := by
  intro key U hU
  obtain rfl | hU := definition?_insert hU
  · exact hT
  · exact h key U hU

end Aliases

namespace Ty

/-! ## steps -/

/-- `R` used once, at some place of a type. -/
inductive Anywhere (R : Ty → Ty → Prop) : Ty → Ty → Prop where
  | here {T U : Ty} (h : R T U) : Anywhere R T U
  | inside {T U A B : Ty} {before after : List Ty} (hs : T.shape = U.shape)
      (hT : T.children = before ++ A :: after) (hU : U.children = before ++ B :: after)
      (h : Anywhere R A B) : Anywhere R T U

/-- What a relation allows anywhere, a larger one allows there, too. -/
theorem Anywhere.mono {R S : Ty → Ty → Prop} (hRS : ∀ T U, R T U → S T U) {T U : Ty}
    (h : Anywhere R T U) : Anywhere S T U := by
  induction h with
  | here h => exact .here (hRS _ _ h)
  | inside hs hT hU _ ih => exact .inside hs hT hU ih

/-- The two ways of computing: an operator is applied, or a name stands for its definition. -/
inductive Contract (aliases : Aliases) : Ty → Ty → Prop where
  | beta (kind : Kind) (body A : Ty) :
      Contract aliases (.app (.binder (.op kind) body) A) (body.inst A)
  | unfold {name : String} {T : Ty} (h : aliases.definition? name = some T) :
      Contract aliases (.named name) T

/-- One step of computation, at any place. -/
abbrev Step (aliases : Aliases) : Ty → Ty → Prop :=
  Anywhere (Contract aliases)

/-- Any number of steps. -/
abbrev Steps (aliases : Aliases) : Ty → Ty → Prop :=
  ReflTransGen (Step aliases)

/-- Types that are equal up to the application of operators and the definitions of aliases. -/
def Conv (aliases : Aliases) : Ty → Ty → Prop :=
  EqvGen (Step aliases)

/-! ## below a node -/

section Node

variable {R : Ty → Ty → Prop} {T U A B : Ty} {before after : List Ty}

/-- The node of a shape with a type put between others. -/
def place (s : Shape) (before after : List Ty) (A : Ty) : Ty :=
  s.build (before ++ A :: after)

/-- A change of a type can be made where it stands below a node. -/
theorem Anywhere.place {s : Shape} (hlen : (before ++ A :: after).length = s.arity)
    (h : Anywhere R A B) : Anywhere R (place s before after A) (place s before after B) := by
  have hlen' : (before ++ B :: after).length = s.arity := by simpa using hlen
  refine .inside ?_ (children_build hlen) (children_build hlen') h
  rw [Ty.place, Ty.place, shape_build hlen, shape_build hlen']

/-- A reflexive and transitive relation that allows a change of one type below a node allows
a change of all. -/
theorem node_of_children {S : Ty → Ty → Prop} (refl : ∀ T, S T T)
    (trans : ∀ {T U V}, S T U → S U V → S T V)
    (one : ∀ {s : Shape} {before after A B}, (before ++ A :: after).length = s.arity →
      S A B → S (Ty.place s before after A) (Ty.place s before after B))
    (hs : T.shape = U.shape) (hc : List.Forall₂ S T.children U.children) : S T U := by
  -- the types before have been changed already, those after are still to be changed
  have key : ∀ (s : Shape) (As Bs before : List Ty), List.Forall₂ S As Bs →
      (before ++ As).length = s.arity → S (s.build (before ++ As)) (s.build (before ++ Bs)) := by
    intro s As Bs before h
    induction h generalizing before with
    | nil => exact fun _ => refl _
    | @cons A B As Bs hAB _ ih =>
      intro hlen
      have hlen' : ((before ++ [B]) ++ As).length = s.arity := by
        rw [← hlen, List.length_append, List.length_append, List.length_append]
        simp only [List.length_cons, List.length_nil]
        omega
      have hrest := ih (before ++ [B]) hlen'
      rw [List.append_assoc, List.append_assoc] at hrest
      exact trans (one hlen hAB) hrest
  have h := key T.shape T.children U.children [] hc (length_children T)
  rwa [List.nil_append, List.nil_append, build_shape_children, hs, build_shape_children] at h

/-- Changes in all parts of a node are a number of changes of the node. -/
theorem reflTransGen_node (hs : T.shape = U.shape)
    (hc : List.Forall₂ (ReflTransGen (Anywhere R)) T.children U.children) :
    ReflTransGen (Anywhere R) T U := by
  refine node_of_children (fun _ => .refl) .trans ?_ hs hc
  intro s before after A B hlen h
  induction h with
  | refl => exact .refl
  | tail _ hstep ih => exact ih.tail (hstep.place (by simpa using hlen))

/-- Changes in an application. -/
theorem reflTransGen_app {fn fn' arg arg' : Ty} (hf : ReflTransGen (Anywhere R) fn fn')
    (ha : ReflTransGen (Anywhere R) arg arg') :
    ReflTransGen (Anywhere R) (.app fn arg) (.app fn' arg') :=
  reflTransGen_node rfl (.cons hf (.cons ha .nil))

/-- Changes under a binder. -/
theorem reflTransGen_binder {b : Binder} {body body' : Ty}
    (h : ReflTransGen (Anywhere R) body body') :
    ReflTransGen (Anywhere R) (.binder b body) (.binder b body') :=
  reflTransGen_node rfl (.cons h .nil)

end Node

section Conversion

variable {aliases : Aliases} {T U V : Ty}

/-- Steps can be made in all parts of a node. -/
theorem Steps.node (hs : T.shape = U.shape)
    (hc : List.Forall₂ (Steps aliases) T.children U.children) : Steps aliases T U :=
  reflTransGen_node hs hc

namespace Conv

theorem refl (T : Ty) : Conv aliases T T := EqvGen.refl T

theorem symm (h : Conv aliases T U) : Conv aliases U T := EqvGen.symm _ _ h

/-- Conversion is transitive, as `symm` and `refl` say that it is symmetric and reflexive. -/
theorem trans (h : Conv aliases T U) (h' : Conv aliases U V) : Conv aliases T V :=
  EqvGen.trans _ _ _ h h'

/-- What steps lead to is convertible. -/
theorem of_steps (h : Steps aliases T U) : Conv aliases T U := by
  induction h with
  | refl => exact .refl T
  | tail _ hstep ih => exact ih.trans (.rel _ _ hstep)

/-- Types may be converted below a node. -/
theorem node (hs : T.shape = U.shape)
    (hc : List.Forall₂ (Conv aliases) T.children U.children) : Conv aliases T U := by
  refine node_of_children .refl .trans ?_ hs hc
  intro s before after A B hlen h
  have hlen' : ∀ C : Ty, (before ++ C :: after).length = s.arity := by simpa using hlen
  induction h with
  | rel A B h => exact .rel _ _ (h.place (hlen' A))
  | refl A => exact .refl _
  | symm A B _ ih => exact (ih (hlen' A)).symm
  | trans A B C _ _ ih ih' => exact (ih (hlen' A)).trans (ih' (hlen' B))

/-- Conversion below an arrow. -/
theorem arrow {A B A' B' : Ty} (hA : Conv aliases A A') (hB : Conv aliases B B') :
    Conv aliases (.arrow A B) (.arrow A' B') :=
  node rfl (.cons hA (.cons hB .nil))

/-- Conversion below a product. -/
theorem product {Ts Us : List Ty} (h : List.Forall₂ (Conv aliases) Ts Us) :
    Conv aliases (.product Ts) (.product Us) :=
  node (congrArg Shape.product h.length_eq) h

/-- Conversion under a binder. -/
theorem binder {b : Binder} {B B' : Ty} (h : Conv aliases B B') :
    Conv aliases (.binder b B) (.binder b B') :=
  node rfl (.cons h .nil)

/-- A function on types that turns a step into a conversion keeps conversion. -/
theorem map {f : Ty → Ty} (hf : ∀ {T U}, Step aliases T U → Conv aliases (f T) (f U))
    (h : Conv aliases T U) : Conv aliases (f T) (f U) := by
  induction h with
  | rel T U h => exact hf h
  | refl T => exact .refl _
  | symm T U _ ih => exact ih.symm
  | trans T U V _ _ ih ih' => exact ih.trans ih'

end Conv

end Conversion

/-! ## rigid and resolved types -/

section Resolved

variable {aliases : Aliases} {T U : Ty}

/-- No step happens at the top of a type. -/
def Rigid (aliases : Aliases) (T : Ty) : Prop :=
  T.shape ≠ .app ∧ ∀ name, T.shape = .named name → aliases.definition? name = none

/-- A rigid type is neither an application of an operator nor a known name. -/
theorem Rigid.not_contract (hT : T.Rigid aliases) : ¬ Contract aliases T U := by
  intro h
  cases h with
  | beta kind body A => exact hT.1 rfl
  | unfold h => simp [hT.2 _ rfl] at h

/-- Whether a type is rigid shows at its top. -/
theorem Rigid.of_shape (hT : T.Rigid aliases) (hs : T.shape = U.shape) : U.Rigid aliases := by
  unfold Rigid
  rw [← hs]
  exact hT

/-- A rigid type keeps its shape, and steps happen only below. -/
theorem Steps.rigid (hT : T.Rigid aliases) (h : Steps aliases T U) :
    T.shape = U.shape ∧ List.Forall₂ (Steps aliases) T.children U.children := by
  induction h with
  | refl => exact ⟨rfl, List.forall₂_same.2 fun _ _ => .refl⟩
  | @tail U V _ hstep ih =>
    obtain ⟨hs, hc⟩ := ih
    cases hstep with
    | here h => exact absurd h (hT.of_shape hs).not_contract
    | @inside _ _ A B before after hs' hU hV h =>
      refine ⟨hs.trans hs', ?_⟩
      have hUV : List.Forall₂ (Steps aliases) U.children V.children := by
        rw [hU, hV]
        exact List.rel_append (List.forall₂_same.2 fun _ _ => .refl)
          (.cons (.single h) (List.forall₂_same.2 fun _ _ => .refl))
      rw [List.forall₂_iff_get] at hc hUV ⊢
      exact ⟨hc.1.trans hUV.1, fun i hi hi' =>
        (hc.2 i hi (hc.1 ▸ hi)).trans (hUV.2 i (hc.1 ▸ hi) hi')⟩

/-- An application of an operator that has not been carried out. -/
def IsRedex (T : Ty) : Prop :=
  ∃ kind body A, T = .app (.binder (.op kind) body) A

/-- Every application of an operator has been carried out. -/
def BetaNormal (T : Ty) : Prop :=
  T.Every fun U => ¬ U.IsRedex

/-- The shape is not a name that has a definition. -/
def Unknown (aliases : Aliases) (s : Shape) : Prop :=
  ∀ name, s = .named name → aliases.definition? name = none

/-- No name with a definition and no application of an operator is left. -/
def Resolved (aliases : Aliases) (T : Ty) : Prop :=
  T.EveryShape (Unknown aliases) ∧ T.BetaNormal

/-- The parts of a resolved type are resolved. -/
theorem Resolved.child (hT : T.Resolved aliases) {A : Ty} (hA : A ∈ T.children) :
    A.Resolved aliases :=
  ⟨hT.1.child hA, hT.2.child hA⟩

/-- Nothing can be done at the top of a resolved type. -/
theorem Resolved.not_contract (hT : T.Resolved aliases) : ¬ Contract aliases T U := by
  intro h
  cases h with
  | beta kind body A => exact hT.2.here ⟨kind, body, A, rfl⟩
  | unfold h => simp [hT.1.here _ rfl] at h

/-- Nothing can be done anywhere in a resolved type. -/
theorem Resolved.not_step (hT : T.Resolved aliases) : ¬ Step aliases T U := by
  intro h
  induction h with
  | here h => exact hT.not_contract h
  | inside _ hT' _ _ ih => exact ih (hT.child (by simp [hT']))

/-- Lifting makes no application of an operator, and undoes none. -/
theorem isRedex_lift {k c : Nat} : (T.lift k c).IsRedex ↔ T.IsRedex := by
  constructor
  · rintro ⟨kind, body, A, h⟩
    cases T with
    | app fn arg =>
      rw [lift, replace, Ty.app.injEq, ← lift] at h
      cases fn with
      | binder b body =>
        rw [lift, replace, Ty.binder.injEq] at h
        exact ⟨kind, body, arg, by rw [h.1.1]⟩
      | var i =>
        obtain ⟨j, hj⟩ := exists_lift_var (k := k) (c := c) i
        simp [hj] at h
      | _ => simp [lift, replace] at h
    | var i =>
      obtain ⟨j, hj⟩ := exists_lift_var (k := k) (c := c) i
      simp [hj] at h
    | _ => simp [lift, replace] at h
  · rintro ⟨kind, body, A, h⟩
    exact ⟨kind, body.lift k (c + 1), A.lift k c, by rw [h]; rfl⟩

/-- So whether a type is resolved does not change if it is lifted. -/
theorem resolved_lift {k c : Nat} : (T.lift k c).Resolved aliases ↔ T.Resolved aliases := by
  unfold Resolved BetaNormal
  rw [everyShape_lift (by simp [Unknown]), every_lift]
  exact fun T c => not_congr isRedex_lift

/-- A resolved type computes only to itself. -/
theorem Steps.eq_of_resolved (hT : T.Resolved aliases) (h : Steps aliases T U) : U = T := by
  cases ReflTransGen.cases_head h with
  | inl h => exact h.symm
  | inr h =>
    obtain ⟨V, hV, -⟩ := h
    exact absurd hV hT.not_step

end Resolved

end Ty

end PolyLambda
