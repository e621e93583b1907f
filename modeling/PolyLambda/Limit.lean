import PolyLambda.Error

/-!
# PolyLambda.Limit

How deeply a traversal may nest. The configured depth is the rule; the frames of the
machine, where they are known, may end a traversal earlier. The two ends are told apart: the
first is a finding about the program, the second a failure of the machine.

The frames are a simplification. Every traversal, of a term or of a type, is given all levels anew,
and making a text takes none; `frames` says how many levels one traversal can nest. A machine has
one stack for all that is going on at a time, so it may give out earlier, say in a traversal of a
type that begins deep inside a term. What is said for `frames := none` is not affected: there only
the configured depth counts, and that is the rule for each traversal by itself.
-/

namespace PolyLambda

/-- A bound on nesting: the configured depth, which may be any integer, and the levels the
machine has room for in each traversal, if they are known. -/
structure Limit where
  depth : Int
  frames : Option Nat := none
  deriving DecidableEq

namespace Limit

/-- The depth used where none is given. -/
def defaultDepth : Int := 333

/-- The number of levels that a traversal may enter. Each one has as many, whatever it is started
from. -/
def levels (l : Limit) : Nat :=
  match l.frames with
  | none => l.depth.toNat
  | some k => min k l.depth.toNat

/-- Whether the machine gives out before the configured depth is reached. -/
def machineBound (l : Limit) : Bool :=
  match l.frames with
  | none => false
  | some k => k < l.depth.toNat

/-- What happens at a node with no level left. -/
def overrun (l : Limit) (span : Option Span) : Fault :=
  if l.machineBound then .outOfStack else .type ⟨.tooDeep l.depth, span⟩

/-- A failure inside a type, where there are no spans. -/
def fault (l : Limit) : Ty.Fault → Fault
  | .tooDeep => l.overrun none
  | .hole => .tyHole
  | .negative index amount => .negativeIndex index amount
  | .malformed cause => .malformed cause

/-- Runs a traversal of types within the limit. -/
def run (l : Limit) (walk : (levels : Nat) → Except Ty.Fault α) : Except Fault α :=
  (walk l.levels).mapError l.fault

end Limit

end PolyLambda
