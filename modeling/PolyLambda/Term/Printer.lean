import PolyLambda.Term.Basic
import PolyLambda.Ty.Printer

/-!
# PolyLambda.Term.Printer

The text of a term. Bound variables have no names, so binders show a blank or a fixed
letter.
-/

namespace PolyLambda

/-- The text of a literal. -/
def Literal.render : Literal → String
  | .unit => "unit"
  | .bool true => "true"
  | .bool false => "false"
  | .nat value => toString value
  | .prim op => op.name

namespace Term

mutual
/-- The text of a term. -/
def render : Term → String
  | .hole => "None"
  | .lit value _ => value.render
  | .var index _ => "#" ++ toString index
  | .abs param body _ => "λ_:" ++ param.render ++ ". " ++ body.render
  | .app fn arg _ => "(" ++ fn.render ++ " " ++ arg.render ++ ")"
  | .fix inner _ => "fix " ++ inner.render
  | .ite guard yes no _ =>
    "if " ++ guard.render ++ " then " ++ yes.render ++ " else " ++ no.render
  | .inject label payload ty _ =>
    "<" ++ label ++ " = " ++ payload.render ++ "> as " ++ ty.render
  | .proj inner index _ => inner.render ++ "." ++ toString index
  | .tuple items _ => "(" ++ ", ".intercalate (renderItems items) ++ ")"
  | .letIn bound body _ => "let _ = " ++ bound.render ++ " in " ++ body.render
  | .tyAbs body _ => "ΛX. " ++ body.render
  | .tyApp inner arg _ => inner.render ++ " [" ++ arg.render ++ "]"
  | .roll ty inner _ => "fold [" ++ ty.render ++ "] " ++ inner.render
  | .unroll ty inner _ => "unfold [" ++ ty.render ++ "] " ++ inner.render
  | .pack witness inner ty _ =>
    "\x7b*" ++ witness.render ++ ", " ++ inner.render ++ "\x7d as " ++ ty.render
  | .unpack package body _ => "let \x7bX, _\x7d = " ++ package.render ++ " in " ++ body.render
  | .caseOf scrutinee arms _ =>
    "case " ++ scrutinee.render ++ " of " ++ " | ".intercalate (renderArms arms)

/-- The texts of a list of terms. -/
def renderItems : List Term → List String
  | [] => []
  | t :: ts => t.render :: renderItems ts

/-- The texts of the arms of a case. -/
def renderArms : List (Arm Term) → List String
  | [] => []
  | ⟨pattern, body, _⟩ :: arms => (pattern.render ++ " => " ++ body.render) :: renderArms arms
end

end Term

/-- The text of one arm. -/
def Arm.render (a : Arm Term) : String :=
  a.pattern.render ++ " => " ++ a.body.render

end PolyLambda
