import PolyLambda.Ty.Basic

/-!
# PolyLambda.Ty.Printer

The text of a type. Products, arrows and applications are always bracketed and variants
stand in angle brackets, so only binders extend as far to the right as they can.
-/

namespace PolyLambda

/-- The text of a kind. Arrows associate to the right, so only an arrow in argument position is
bracketed. -/
def Kind.render : Kind → String
  | .star => "*"
  | .arrow .star cod => "* => " ++ cod.render
  | .arrow (.arrow a b) cod => "(" ++ (Kind.arrow a b).render ++ ") => " ++ cod.render

/-- The text of a type without parts. -/
def Base.render : Base → String
  | .unit => "Unit"
  | .nat => "Nat"
  | .bool => "Bool"

/-- What is written in front of the body of a binder. -/
def Binder.opening : Binder → String
  | .all => "forall X."
  | .ex => "exists X."
  | .op kind => "lambda X::" ++ kind.render ++ "."
  | .mu => "rec "

namespace Ty

mutual
/-- The text of a type. -/
def render : Ty → String
  | .hole => "None"
  | .base b => b.render
  | .named name => name
  | .var index => "TyVar(" ++ toString index ++ ")"
  | .variant fields => "<" ++ " | ".intercalate (renderFields fields) ++ ">"
  | .product items => "(" ++ ", ".intercalate (renderItems items) ++ ")"
  | .arrow dom cod => "(" ++ dom.render ++ " -> " ++ cod.render ++ ")"
  | .app fn arg => "(" ++ fn.render ++ " " ++ arg.render ++ ")"
  | .binder b body => b.opening ++ body.render

/-- The texts of the alternatives of a variant. -/
def renderFields : List (Field Ty) → List String
  | [] => []
  | ⟨label, ty⟩ :: fields => (label ++ ": " ++ ty.render) :: renderFields fields

/-- The texts of the components of a product. -/
def renderItems : List Ty → List String
  | [] => []
  | ty :: items => ty.render :: renderItems items
end

end Ty

end PolyLambda
