import PolyLambda.Pattern
import PolyLambda.Span
import PolyLambda.Text.Quoted
import PolyLambda.Ty.Printer
import PolyLambda.Ty.Traverse

/-!
# PolyLambda.Error

What can go wrong. A `TypeError` is a finding about the checked program: a `Mistake`, with
the place it was found at. Every other `Fault` says that the question itself was ill posed:
a hole instead of a type or term, an index shifted below zero, a node that cannot be built,
a case without arms past its check, scopes closed out of order, or a machine without the
stack to go on.
-/

namespace PolyLambda

/-! ## mistakes in a program -/

/-- What is wrong with a pattern. -/
inductive PatternFlaw where
  | undeclared (label : String) (fields : List (Field Ty))
  | notForVariant (pattern : Pattern)
  | shape (pattern : Pattern) (payload : Ty)
  | refutable (pattern : Pattern)
  deriving DecidableEq

/-- The wording of a flaw. -/
def PatternFlaw.message : PatternFlaw → String
  | .undeclared label fields =>
    "label " ++ label ++ " is not declared in " ++ (Ty.variant fields).render
  | .notForVariant pattern => pattern.render ++ " cannot match a variant"
  | .shape pattern payload =>
    pattern.render ++ " does not match payload type " ++ payload.render
  | .refutable pattern => "refutable payload pattern " ++ pattern.render

/-- The ways in which a program can be ill typed. In `mismatch`, `argument` is the place of
the part whose type is wrong; in `notVariant` a label is given when the type is a variant
that lacks it. -/
inductive Mistake where
  | unbound (index : Int)
  | notArrow (actual : Ty)
  | notUniversal (actual : Ty)
  | notVariant (actual : Ty) (label : Option String)
  | notProduct (actual : Ty)
  | notRecursive (actual : Ty)
  | notExistential (actual : Ty)
  | mismatch (expected actual : Ty) (argument : Option Span)
  | projection (index : Int) (arity : Nat)
  | arms (first other : Ty)
  | pattern (flaw : PatternFlaw)
  | notExhaustive (missing : List String)
  | unreachable (label : Option String)
  | guard (actual : Ty)
  | escape (actual : Ty)
  | tooDeep (limit : Int)
  deriving DecidableEq

namespace Mistake

/-- The short name of a kind of mistake. -/
def kind : Mistake → String
  | .unbound _ => "unbound-variable"
  | .notArrow _ => "not-arrow"
  | .notUniversal _ => "not-universal"
  | .notVariant .. => "not-variant"
  | .notProduct _ => "not-product"
  | .notRecursive _ => "not-rec"
  | .notExistential _ => "not-existential"
  | .mismatch .. => "parameter-mismatch"
  | .projection .. => "invalid-projection"
  | .arms .. => "incompatible-arms"
  | .pattern _ => "invalid-pattern"
  | .notExhaustive _ => "not-exhaustive"
  | .unreachable _ => "unreachable-pattern"
  | .guard _ => "guard"
  | .escape _ => "escaping-type-variable"
  | .tooDeep _ => "recursion-limit"

/-- The wording of a mistake, without its place. -/
def message : Mistake → String
  | .unbound index => "Unbound variable with de Bruijn index " ++ toString index
  | .notArrow actual => "Expected a function type, but got " ++ actual.render
  | .notUniversal actual => "Expected a universal type, but got " ++ actual.render
  | .notVariant actual none => "Expected a variant type, but got " ++ actual.render
  | .notVariant actual (some label) =>
    "Variant type " ++ actual.render ++ " has no label " ++ label
  | .notProduct actual => "Expected a product type, but got " ++ actual.render
  | .notRecursive actual => "Expected a recursive type, but got " ++ actual.render
  | .notExistential actual => "Expected an existential type, but got " ++ actual.render
  | .mismatch expected actual _ =>
    "Expected type " ++ expected.render ++ ", but got " ++ actual.render
  | .projection index arity =>
    "Projection index " ++ toString index ++ " out of range for product of arity " ++ toString arity
  | .arms first other =>
    "Arms have incompatible types " ++ first.render ++ " and " ++ other.render
  | .pattern flaw => "Invalid pattern: " ++ flaw.message
  | .notExhaustive [] => "Non-exhaustive case, missing: (no arms)"
  | .notExhaustive missing => "Non-exhaustive case, missing: " ++ ", ".intercalate missing
  | .unreachable (some label) => "Unreachable pattern " ++ label
  | .unreachable none => "Unreachable catch-all pattern"
  | .guard actual => "Condition must be Bool, but got " ++ actual.render
  | .escape actual => "Abstract type escapes its scope in " ++ actual.render
  | .tooDeep limit => "Nesting depth exceeds limit of " ++ toString limit

end Mistake

/-- A mistake and the place it was found at. -/
structure TypeError where
  mistake : Mistake
  span : Option Span
  deriving DecidableEq

/-- The full text of an error: its place, if known, and its wording. -/
def TypeError.render (e : TypeError) : String :=
  match e.span with
  | some span => span.render ++ ": " ++ e.mistake.message
  | none => e.mistake.message

/-! ## all failures -/

/-- Why a node could not be built. -/
def Malformed.message : Malformed → String
  | .repeatedLabel label => "Duplicate variant label: " ++ label
  | .unknownPrimitive name => Text.quoted name ++ " is not a valid Primitive"

/-- Binders of a context that were closed out of order. -/
inductive Underflow where
  | noTerm
  | noScope
  | termsInside
  deriving DecidableEq

/-- The wording of an underflow. -/
def Underflow.message : Underflow → String
  | .noTerm => "Context.pop() with empty type stack"
  | .noScope => "Context.close_type_scope() with no open type scope"
  | .termsInside => "Closing a type scope with term binders still open inside it"

/-- Every way in which an operation of this library can fail. `holeSpan` is the failure to
name the place of a hole, which has none. -/
inductive Fault where
  | type (error : TypeError)
  | tyHole
  | termHole
  | holeSpan
  | negativeIndex (index amount : Int)
  | malformed (cause : Malformed)
  | noArm
  | underflow (cause : Underflow)
  | outOfStack
  deriving DecidableEq

/-- The wording of a failure. -/
def Fault.message : Fault → String
  | .type error => error.mistake.message
  | .tyHole => "Unknown type: None"
  | .termHole => "Unknown term: None"
  | .holeSpan => "'NoneType' object has no attribute 'span'"
  | .negativeIndex index amount =>
    "Shifting " ++ (Ty.var index).render ++ " by " ++ toString amount ++ " yields a negative index"
  | .malformed cause => cause.message
  | .noArm => "list index out of range"
  | .underflow cause => cause.message
  | .outOfStack => "Out of stack"

end PolyLambda
