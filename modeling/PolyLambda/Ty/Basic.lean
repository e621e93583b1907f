/-!
# PolyLambda.Ty.Basic

The types of the calculus. A type variable is a de Bruijn index: index `0` belongs to the
nearest enclosing binder, and every binder of types is one constructor, `Ty.binder`, told
apart by its `Binder`. Equality is structural, so two types are equal exactly when they
agree up to the names of bound variables.

Main statements: `Ty.induct` (induction over types) and `Ty.same_iff` (the comparison
decides equality), hence `DecidableEq Ty`.
-/

namespace PolyLambda

/-! ## types -/

/-- The kind of types, and the kinds of operators between kinds. They are recorded on operators and
printed; nothing checks them. -/
inductive Kind where
  | star
  | arrow (dom cod : Kind)
  deriving DecidableEq

/-- The types without parts. -/
inductive Base where
  | unit
  | nat
  | bool
  deriving DecidableEq

/-- What a binder of a type variable makes of its body: a universal, an existential, an
operator with the kind of its argument, or a recursive type. -/
inductive Binder where
  | all
  | ex
  | op (kind : Kind)
  | mu
  deriving DecidableEq

/-- Why a node could not be built at all: it does not exist in the calculus. -/
inductive Malformed where
  | repeatedLabel (label : String)
  | unknownPrimitive (name : String)
  deriving DecidableEq

/-- One alternative of a variant. -/
structure Field (α : Type) where
  label : String
  ty : α
  deriving DecidableEq

/-- Types. `hole` stands where no type was given: it can be printed and compared, and every
traversal refuses it. -/
inductive Ty where
  | hole
  | base (b : Base)
  | named (name : String)
  | var (index : Int)
  | variant (fields : List (Field Ty))
  | product (items : List Ty)
  | arrow (dom cod : Ty)
  | app (fn arg : Ty)
  | binder (b : Binder) (body : Ty)

namespace Ty

instance : Inhabited Ty := ⟨.hole⟩

@[match_pattern] abbrev unit : Ty := .base .unit
@[match_pattern] abbrev nat : Ty := .base .nat
@[match_pattern] abbrev bool : Ty := .base .bool

/-! ## induction -/

/-- Induction over types: what holds of the alternatives of a variant, of the components of
a product and of the parts of the other types holds of the whole. -/
@[induction_eliminator]
theorem induct {motive : Ty → Prop} (hole : motive .hole) (base : ∀ b, motive (.base b))
    (named : ∀ name, motive (.named name)) (var : ∀ index, motive (.var index))
    (variant : ∀ fields : List (Field Ty), (∀ f ∈ fields, motive f.ty) → motive (.variant fields))
    (product : ∀ items : List Ty, (∀ T ∈ items, motive T) → motive (.product items))
    (arrow : ∀ dom cod, motive dom → motive cod → motive (.arrow dom cod))
    (app : ∀ fn arg, motive fn → motive arg → motive (.app fn arg))
    (binder : ∀ b body, motive body → motive (.binder b body)) (T : Ty) : motive T :=
  @Ty.rec motive (fun fields => ∀ f ∈ fields, motive f.ty) (fun items => ∀ U ∈ items, motive U)
    (fun f => motive f.ty) hole base named var variant product arrow app binder
    (fun _ h => nomatch h)
    (fun _ _ first rest _ h => (List.mem_cons.1 h).elim (fun e => e ▸ first) (rest _))
    (fun _ h => nomatch h)
    (fun _ _ first rest _ h => (List.mem_cons.1 h).elim (fun e => e ▸ first) (rest _))
    (fun _ _ h => h) T

/-! ## equality -/

mutual
/-- Structural comparison. -/
def same : Ty → Ty → Bool
  | .hole, .hole => true
  | .base a, .base b => a = b
  | .named a, .named b => a = b
  | .var i, .var j => i = j
  | .variant fs, .variant gs => sameFields fs gs
  | .product ts, .product us => sameItems ts us
  | .arrow a b, .arrow c d => same a c && same b d
  | .app a b, .app c d => same a c && same b d
  | .binder b t, .binder c u => b = c && same t u
  | _, _ => false

/-- Structural comparison of the alternatives of two variants, in order. -/
def sameFields : List (Field Ty) → List (Field Ty) → Bool
  | [], [] => true
  | ⟨l, t⟩ :: fs, ⟨m, u⟩ :: gs => l = m && same t u && sameFields fs gs
  | _, _ => false

/-- Structural comparison of the components of two products, in order. -/
def sameItems : List Ty → List Ty → Bool
  | [], [] => true
  | t :: ts, u :: us => same t u && sameItems ts us
  | _, _ => false
end

mutual
/-- The comparison decides equality. -/
theorem same_iff : ∀ {a b : Ty}, same a b = true ↔ a = b
  | .hole, b => by cases b <;> simp [same]
  | .base _, b => by cases b <;> simp [same]
  | .named _, b => by cases b <;> simp [same]
  | .var _, b => by cases b <;> simp [same]
  | .variant _, b => by cases b <;> simp [same, sameFields_iff]
  | .product _, b => by cases b <;> simp [same, sameItems_iff]
  | .arrow _ _, b => by cases b <;> simp [same, same_iff]
  | .app _ _, b => by cases b <;> simp [same, same_iff]
  | .binder _ _, b => by cases b <;> simp [same, same_iff]

theorem sameFields_iff : ∀ {fs gs : List (Field Ty)}, sameFields fs gs = true ↔ fs = gs
  | [], gs => by cases gs <;> simp [sameFields]
  | ⟨_, _⟩ :: _, gs => by
    rcases gs with _ | ⟨⟨_, _⟩, _⟩ <;> simp [sameFields, same_iff, sameFields_iff, and_assoc]

theorem sameItems_iff : ∀ {ts us : List Ty}, sameItems ts us = true ↔ ts = us
  | [], us => by cases us <;> simp [sameItems]
  | _ :: _, us => by cases us <;> simp [sameItems, same_iff, sameItems_iff]
end

instance : DecidableEq Ty := fun _ _ => decidable_of_iff _ same_iff

/-! ## products -/

/-- The component at an index, counted from `0`. -/
def item? (items : List Ty) : Int → Option Ty
  | .ofNat i => items[i]?
  | .negSucc _ => none

/-! ## variants -/

/-- The labels of a variant, in order of declaration. -/
def labels (fields : List (Field Ty)) : List String :=
  fields.map (·.label)

/-- What stands at the first alternative with this label. -/
def fieldAt (fields : List (Field Ty)) (label : String) : Option Ty :=
  (fields.find? (·.label = label)).map (·.ty)

/-- The payload type of a label. An alternative without a payload type counts as undeclared. -/
def field? (fields : List (Field Ty)) (label : String) : Option Ty :=
  (fieldAt fields label).filter (· ≠ .hole)

/-- The first label that already stands in `seen` or earlier in the list. -/
def firstRepeated (seen : List String) : List String → Option String
  | [] => none
  | l :: ls => if l ∈ seen then some l else firstRepeated (l :: seen) ls

/-- The variant with these alternatives. A label may stand only once. -/
def ofFields (fields : List (Field Ty)) : Except Malformed Ty :=
  match firstRepeated [] (labels fields) with
  | some label => .error (.repeatedLabel label)
  | none => .ok (.variant fields)

end Ty

end PolyLambda
