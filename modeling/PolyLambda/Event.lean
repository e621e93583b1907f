import PolyLambda.Error

/-!
# PolyLambda.Event

What a check writes to the log. Every event has one line of text and belongs to one of two
modules, the checker or the context.
-/

namespace PolyLambda

/-- Events: a term got its type, a check failed, a declaration got its type, a name was
given to a type. -/
inductive Event where
  | rule (form : String) (ty : Ty)
  | failed (error : TypeError)
  | declared (name : String) (ty : Ty)
  | named (name : String) (ty : Ty)
  deriving DecidableEq

namespace Event

/-- The line of an event. -/
def message : Event → String
  | .rule form ty => "checker.rule term=" ++ form ++ " type=" ++ ty.render
  | .failed error =>
    let place := match error.span with
      | some span => span.render
      | none => "None"
    "checker.error kind=" ++ error.mistake.kind ++ " span=" ++ place ++ " message=" ++
      error.mistake.message
  | .declared name ty => "checker.declaration name=" ++ name ++ " type=" ++ ty.render
  | .named name ty => "context.alias name=" ++ name ++ " type=" ++ ty.render

/-- The module an event comes from. -/
def origin : Event → String
  | .named .. => "lambdatype.core.context"
  | _ => "lambdatype.core.checker"

end Event

end PolyLambda
