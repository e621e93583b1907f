import PolyLambda.Table
import PolyLambda.Ty.Normal

/-!
# PolyLambda.Ty.Alias

Names for types. An alias is transparent: expanding a type puts definitions in the place of
names, and the definitions are expanded in turn. A name without a definition stays.
Following a name costs one level, so a cycle of definitions runs out of levels.
-/

namespace PolyLambda

/-- Names and the types they stand for. -/
abbrev Aliases := Table Ty

namespace Aliases

/-- The type a name stands for. A name entered without a type is unknown. -/
def definition? (aliases : Aliases) (name : String) : Option Ty :=
  (aliases.get? name).filter (· ≠ .hole)

end Aliases

namespace Ty

/-- Expands every alias of a type. -/
def expand (aliases : Aliases) : (levels : Nat) → Ty → Except Fault Ty
  | 0, _ => .error .tooDeep
  | n + 1, T =>
    match T with
    | .hole => .error .hole
    | .named name =>
      match aliases.definition? name with
      | some U => expand aliases n U
      | none => .ok (.named name)
    | T => T.mapParts fun _ U => expand aliases n U

/-- Expands every alias and carries out every application of a type operator. -/
def resolve (aliases : Aliases) (levels : Nat) (T : Ty) : Except Fault Ty := do
  (← T.expand aliases levels).normalize levels

end Ty

end PolyLambda
