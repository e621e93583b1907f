import PolyLambda.Error
import PolyLambda.Term.Basic

/-!
# PolyLambda.Coverage

The arms of a case over a variant. Arms are taken in order. A constructor pattern covers one
label; a variable or a wildcard catches every label that is still open, and nothing may
follow it. Each arm has to be reachable, and together the arms have to cover every label.

`Coverage.check` answers with the types of the variables that each arm binds.
-/

namespace PolyLambda

namespace Coverage

mutual
/-- The types at the variables of a payload pattern, from left to right. Labels are tracked
only at the top of an arm, so a constructor inside a payload is refused. -/
def bindings : Pattern → Ty → Except PatternFlaw (List Ty)
  | .wild, _ => .ok []
  | .bind, T => .ok [T]
  | .product ps, T =>
    match T with
    | .product Ts =>
      if Ts.length = ps.length then itemBindings ps Ts else .error (.shape (.product ps) T)
    | _ => .error (.shape (.product ps) T)
  | .con label payload, _ => .error (.refutable (.con label payload))

/-- The types at the variables of the components of a product pattern. -/
def itemBindings : List Pattern → List Ty → Except PatternFlaw (List Ty)
  | p :: ps, T :: Ts => do return (← bindings p T) ++ (← itemBindings ps Ts)
  | _, _ => .ok []
end

/-- What the arms seen so far have covered: single labels, and possibly all that was left. -/
structure Progress where
  covered : List String
  caughtAll : Bool

/-- Takes an arm into account that catches what is left, of which there has to be something. -/
def catchAll (fields : List (Field Ty)) (seen : Progress) (bound : List Ty) :
    Except Mistake (Progress × List Ty) :=
  if seen.caughtAll ∨ seen.covered.length = fields.length then
    .error (.unreachable none)
  else
    .ok (⟨seen.covered, true⟩, bound)

/-- Takes an arm for one label into account. The label has to be declared, and still open. -/
def catchLabel (fields : List (Field Ty)) (seen : Progress) (label : String) (payload : Pattern) :
    Except Mistake (Progress × List Ty) :=
  match Ty.field? fields label with
  | none => .error (.pattern (.undeclared label fields))
  | some T =>
    if seen.caughtAll ∨ label ∈ seen.covered then
      .error (.unreachable (some label))
    else do
      let bound ← (bindings payload T).mapError .pattern
      return (⟨label :: seen.covered, seen.caughtAll⟩, bound)

/-- Takes one arm into account, and gives the types it binds. -/
def step (fields : List (Field Ty)) (seen : Progress) :
    Pattern → Except Mistake (Progress × List Ty)
  | .con label payload => catchLabel fields seen label payload
  | .wild => catchAll fields seen []
  | .bind => catchAll fields seen [.variant fields]
  | .product items => .error (.pattern (.notForVariant (.product items)))

/-- Takes the arms into account one after another. A mistake is placed at its arm, or at the
whole case if the arm has no span. -/
def steps (fields : List (Field Ty)) (span : Option Span) :
    Progress → List (Arm Term) → Except TypeError (Progress × List (List Ty))
  | seen, [] => .ok (seen, [])
  | seen, arm :: arms => do
    let (seen, bound) ← (step fields seen arm.pattern).mapError (⟨·, arm.span <|> span⟩)
    let (seen, rest) ← steps fields span seen arms
    return (seen, bound :: rest)

/-- Checks the arms of a case over the variant with these alternatives, and gives for each
arm the types of the variables it binds. -/
def check (fields : List (Field Ty)) (span : Option Span) (arms : List (Arm Term)) :
    Except TypeError (List (List Ty)) :=
  if arms.isEmpty then
    .error ⟨.notExhaustive (Ty.labels fields), span⟩
  else do
    let (seen, bound) ← steps fields span ⟨[], false⟩ arms
    let missing := (Ty.labels fields).filter (· ∉ seen.covered)
    if seen.caughtAll ∨ missing = [] then
      return bound
    else
      .error ⟨.notExhaustive missing, span⟩

end Coverage

end PolyLambda
