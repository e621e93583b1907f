import PolyLambda.Pattern
import PolyLambda.Span
import PolyLambda.Ty.Basic

/-!
# PolyLambda.Term.Basic

Terms. Every binder carries its type, term variables are de Bruijn indices of their own,
apart from those of types, and every node may carry the span it was written at. Spans are
for messages only: `Term.same` compares terms without them.
-/

namespace PolyLambda

/-! ## constants -/

/-- The built-in functions on numbers. -/
inductive Primitive where
  | isZero
  | succ
  | pred
  deriving DecidableEq

/-- The name a primitive is written with. -/
def Primitive.name : Primitive → String
  | .isZero => "iszero"
  | .succ => "succ"
  | .pred => "pred"

/-- The primitive of that name. -/
def Primitive.ofName (name : String) : Except Malformed Primitive :=
  match [Primitive.isZero, .succ, .pred].find? (·.name = name) with
  | some op => .ok op
  | none => .error (.unknownPrimitive name)

/-- Terms without parts whose type is known at once. -/
inductive Literal where
  | unit
  | bool (value : Bool)
  | nat (value : Int)
  | prim (op : Primitive)
  deriving DecidableEq

/-- The type of a literal. -/
def Literal.ty : Literal → Ty
  | .unit => .unit
  | .bool _ => .bool
  | .nat _ => .nat
  | .prim .isZero => .arrow .nat .bool
  | .prim .succ => .arrow .nat .nat
  | .prim .pred => .arrow .nat .nat

/-! ## terms -/

/-- One arm of a case: what it matches and what it then computes. -/
structure Arm (α : Type) where
  pattern : Pattern
  body : α
  span : Option Span := none
  deriving DecidableEq

/-- Terms. `hole` stands where no term was given. `roll` and `unroll` go between a recursive
type and its unrolling; `pack` hides a type and `unpack` opens the package, binding a type
variable and a term variable. -/
inductive Term where
  | hole
  | lit (value : Literal) (span : Option Span)
  | var (index : Int) (span : Option Span)
  | abs (param : Ty) (body : Term) (span : Option Span)
  | app (fn arg : Term) (span : Option Span)
  | fix (inner : Term) (span : Option Span)
  | ite (guard yes no : Term) (span : Option Span)
  | inject (label : String) (payload : Term) (ty : Ty) (span : Option Span)
  | proj (inner : Term) (index : Int) (span : Option Span)
  | tuple (items : List Term) (span : Option Span)
  | letIn (bound body : Term) (span : Option Span)
  | tyAbs (body : Term) (span : Option Span)
  | tyApp (inner : Term) (arg : Ty) (span : Option Span)
  | roll (ty : Ty) (inner : Term) (span : Option Span)
  | unroll (ty : Ty) (inner : Term) (span : Option Span)
  | pack (witness : Ty) (inner : Term) (ty : Ty) (span : Option Span)
  | unpack (package body : Term) (span : Option Span)
  | caseOf (scrutinee : Term) (arms : List (Arm Term)) (span : Option Span)

namespace Term

instance : Inhabited Term := ⟨.hole⟩

/-- Where a term was written. -/
def span : Term → Option Span
  | .hole => none
  | .lit _ s | .var _ s | .abs _ _ s | .app _ _ s | .fix _ s | .ite _ _ _ s | .inject _ _ _ s
  | .proj _ _ s | .tuple _ s | .letIn _ _ s | .tyAbs _ s | .tyApp _ _ s | .roll _ _ s
  | .unroll _ _ s | .pack _ _ _ s | .unpack _ _ s | .caseOf _ _ s => s

/-- The name of a term's form, as the trace shows it. -/
def form : Term → String
  | .hole => "None"
  | .lit .unit _ => "UnitLit"
  | .lit (.bool _) _ => "BoolLit"
  | .lit (.nat _) _ => "NatLit"
  | .lit (.prim _) _ => "Prim"
  | .var .. => "Var"
  | .abs .. => "Abs"
  | .app .. => "App"
  | .fix .. => "Fix"
  | .ite .. => "If"
  | .inject .. => "Inject"
  | .proj .. => "Project"
  | .tuple .. => "Tuple"
  | .letIn .. => "Let"
  | .tyAbs .. => "TyAbs"
  | .tyApp .. => "TyApp"
  | .roll .. => "Fold"
  | .unroll .. => "Unfold"
  | .pack .. => "Pack"
  | .unpack .. => "Unpack"
  | .caseOf .. => "Case"

/-! ## comparison up to spans -/

mutual
/-- Structural comparison that looks past every span. -/
def same : Term → Term → Bool
  | .hole, .hole => true
  | .lit a _, .lit b _ => a = b
  | .var i _, .var j _ => i = j
  | .abs A t _, .abs B u _ => A = B && same t u
  | .app f a _, .app g b _ => same f g && same a b
  | .fix t _, .fix u _ => same t u
  | .ite a b c _, .ite d e f _ => same a d && same b e && same c f
  | .inject l t A _, .inject m u B _ => l = m && same t u && A = B
  | .proj t i _, .proj u j _ => same t u && i = j
  | .tuple ts _, .tuple us _ => sameItems ts us
  | .letIn a t _, .letIn b u _ => same a b && same t u
  | .tyAbs t _, .tyAbs u _ => same t u
  | .tyApp t A _, .tyApp u B _ => same t u && A = B
  | .roll A t _, .roll B u _ => A = B && same t u
  | .unroll A t _, .unroll B u _ => A = B && same t u
  | .pack W t A _, .pack V u B _ => W = V && same t u && A = B
  | .unpack p t _, .unpack q u _ => same p q && same t u
  | .caseOf t as _, .caseOf u bs _ => same t u && sameArms as bs
  | _, _ => false

/-- Comparison of two lists of terms. -/
def sameItems : List Term → List Term → Bool
  | [], [] => true
  | t :: ts, u :: us => same t u && sameItems ts us
  | _, _ => false

/-- Comparison of two lists of arms. -/
def sameArms : List (Arm Term) → List (Arm Term) → Bool
  | [], [] => true
  | ⟨p, t, _⟩ :: as, ⟨q, u, _⟩ :: bs => p = q && same t u && sameArms as bs
  | _, _ => false
end

end Term

/-- Comparison of arms up to spans. -/
def Arm.same (a b : Arm Term) : Bool :=
  a.pattern = b.pattern && a.body.same b.body

/-! ## declarations -/

/-- A step of a program: a name for a type, a term to be checked, or a hole, which is passed
over. -/
inductive Declaration where
  | hole
  | type (name : String) (ty : Ty)
  | term (name : String) (body : Term)

end PolyLambda
