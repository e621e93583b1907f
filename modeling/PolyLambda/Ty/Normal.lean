import PolyLambda.Ty.Shift

/-!
# PolyLambda.Ty.Normal

Normal forms of types: every application of a type operator is carried out. Reduction need
not end, so the levels bound it like any other traversal: an instance is entered one level
below the application it comes from.
-/

namespace PolyLambda.Ty

/-- Normalises with `levels` left, while each instantiation on the way may use all of
`total`. -/
def reduce (total : Nat) : (levels : Nat) → Ty → Except Fault Ty
  | 0, _ => .error .tooDeep
  | n + 1, T =>
    match T with
    | .hole => .error .hole
    | .app fn arg => do
      let F ← reduce total n fn
      let A ← reduce total n arg
      match F with
      | .binder (.op _) body => reduce total n (← body.instantiate total A)
      | F => return .app F A
    | T => T.mapParts fun _ U => reduce total n U

/-- The normal form of a type. -/
def normalize (levels : Nat) (T : Ty) : Except Fault Ty :=
  T.reduce levels levels

end PolyLambda.Ty
