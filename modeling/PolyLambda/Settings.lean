import PolyLambda.Limit
import PolyLambda.Settings.Value
import PolyLambda.Text.Case

/-!
# PolyLambda.Settings

The settings of a checker. They are read from variables of the environment, and explicit
values go before these. A value may be of any sort; each setting says which ones it accepts.
How the accepted values are told from others is taken from `PolyLambda.Settings.Value`, which sets
down the conventions of another library.
-/

namespace PolyLambda

/-- The settings: how deep a check may go, and whether it is traced. -/
structure Settings where
  maxDepth : Int := Limit.defaultDepth
  trace : Bool := false
  deriving DecidableEq

namespace Settings

/-- What the names of environment variables start with. -/
def variableStem : String := "lambdatype_"

/-- The values whose name, in small letters, is `name`. -/
def valuesOf (name : String) (pairs : List (String × α)) : List α :=
  (pairs.filter fun p => Text.lower p.1.toList = name.toList).map (·.2)

/-- The value given for a field: an explicit one, or one of the environment. Of several
spellings of its name the first explicit one counts, and the last one of the environment. -/
def given (env : List (String × String)) (overrides : List (String × Value)) (field : String) :
    Option Value :=
  (valuesOf field overrides).head? <|>
    ((valuesOf (variableStem ++ field) env).getLast?).map .text

/-- A depth is an integer of at least one. -/
def readDepth (v : Value) : Except Refusal Int := do
  let n ← v.toInteger
  if n < 1 then .error .belowOne else return n

/-- Reads one field, which has a default if nothing is given. -/
def readField (read : Value → Except Refusal α) (default : α) : Option Value → Except Refusal α
  | none => .ok default
  | some v => read v

/-- Reads the settings, or lists what is wrong with each field. Names are compared without
regard to case and unknown names are ignored. -/
def load (env : List (String × String)) (overrides : List (String × Value)) :
    Except (List (String × Refusal)) Settings :=
  let depth := readField readDepth Limit.defaultDepth (given env overrides "max_depth")
  let trace := readField Value.toFlag false (given env overrides "trace")
  match depth, trace with
  | .ok depth, .ok trace => .ok ⟨depth, trace⟩
  | .error e, .ok _ => .error [("max_depth", e)]
  | .ok _, .error e => .error [("trace", e)]
  | .error d, .error t => .error [("max_depth", d), ("trace", t)]

end Settings

end PolyLambda
