import PolyLambda.Ty.Basic

/-!
# PolyLambda.Ty.Traverse

Traversals of types. Every traversal is given the number of `levels` it may still enter: a
node needs one, and its parts share what is left. A traversal fails when it would enter a
node with no level left, and otherwise when the node is a hole.

* `Ty.parts` and `Ty.mapParts` give access to the immediate parts of a node, each with the
  number of binders that stand between.
* `Ty.mapVars` rebuilds a type, replacing its variables.
* `Ty.visit` lists the occurrences of variables, up to the first failure.
-/

namespace PolyLambda

/-- Why a traversal of a type gives no result: no level is left, a hole was reached, a free
variable would get a negative index, or a rebuilt node does not exist in the calculus. -/
inductive Ty.Fault where
  | tooDeep
  | hole
  | negative (index amount : Int)
  | malformed (cause : Malformed)
  deriving DecidableEq

namespace Ty

/-! ## the immediate parts -/

/-- The immediate parts of a type from left to right, each under the binders it has over the
node itself. -/
def parts : Ty → List (Nat × Ty)
  | .hole | .base _ | .named _ | .var _ => []
  | .variant fields => fields.map fun f => (0, f.ty)
  | .product items => items.map fun t => (0, t)
  | .arrow dom cod => [(0, dom), (0, cod)]
  | .app fn arg => [(0, fn), (0, arg)]
  | .binder _ body => [(1, body)]

/-- Rebuilds a type from its immediate parts, worked on from left to right. `f k` treats a
part that has `k` binders over the node itself. A variant is built anew, so its labels are
compared again. -/
def mapParts (f : Nat → Ty → Except Fault Ty) : Ty → Except Fault Ty
  | .hole => .ok .hole
  | .base b => .ok (.base b)
  | .named name => .ok (.named name)
  | .var index => .ok (.var index)
  | .variant fields => do
    let fields ← fields.mapM fun g => do return ⟨g.label, ← f 0 g.ty⟩
    (ofFields fields).mapError .malformed
  | .product items => do return .product (← items.mapM (f 0))
  | .arrow dom cod => do return .arrow (← f 0 dom) (← f 0 cod)
  | .app fn arg => do return .app (← f 0 fn) (← f 0 arg)
  | .binder b body => do return .binder b (← f 1 body)

/-! ## replacing variables -/

/-- Replaces each variable by what `onVar` makes of the number of binders passed so far and
of its index. -/
def mapVars (onVar : Nat → Int → Except Fault Ty) :
    (levels : Nat) → (under : Nat) → Ty → Except Fault Ty
  | 0, _, _ => .error .tooDeep
  | n + 1, c, T =>
    match T with
    | .hole => .error .hole
    | .var i => onVar c i
    | T => T.mapParts fun k U => mapVars onVar n (c + k) U

/-! ## listing occurrences -/

/-- A variable met in a traversal, with the number of binders passed on the way to it. -/
structure Occurrence where
  index : Int
  under : Nat
  deriving DecidableEq

end Ty

/-- What a traversal has met: the occurrences in order and, if it failed, the failure that
ended it. -/
structure Visit (ε : Type) where
  seen : List Ty.Occurrence
  fault : Option ε

namespace Visit

/-- The traversal that meets nothing. -/
def nothing : Visit ε := ⟨[], none⟩

/-- The traversal that meets one occurrence. -/
def one (o : Ty.Occurrence) : Visit ε := ⟨[o], none⟩

/-- The traversal that fails at once. -/
def fail (e : ε) : Visit ε := ⟨[], some e⟩

/-- One traversal after another; the second does not start if the first failed. -/
def andThen (a b : Visit ε) : Visit ε :=
  match a.fault with
  | some e => ⟨a.seen, some e⟩
  | none => ⟨a.seen ++ b.seen, b.fault⟩

/-- All traversals of a list, one after another. -/
def all : List (Visit ε) → Visit ε
  | [] => nothing
  | v :: vs => v.andThen (all vs)

end Visit

/-- Lists the occurrences of variables from left to right. -/
def Ty.visit : (levels : Nat) → (under : Nat) → Ty → Visit Ty.Fault
  | 0, _, _ => .fail .tooDeep
  | n + 1, c, T =>
    match T with
    | .hole => .fail .hole
    | .var i => .one ⟨i, c⟩
    | T => .all (T.parts.map fun p => visit n (c + p.1) p.2)

end PolyLambda
