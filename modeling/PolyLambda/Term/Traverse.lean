import PolyLambda.Limit
import PolyLambda.Term.Basic

/-!
# PolyLambda.Term.Traverse

Traversals of terms, bounded by levels like those of types. `Term.visit` lists the
occurrences of term variables with the number of type binders over each; `Term.mapTypes`
rewrites every type written in a term.
-/

namespace PolyLambda.Term

/-- What happens at a term with no level left. A hole has no place that could be reported. -/
def overrun (limit : Limit) : Term → Fault
  | .hole => if limit.machineBound then .outOfStack else .holeSpan
  | t => limit.overrun t.span

/-! ## the immediate parts -/

/-- The immediate subterms from left to right, each under the type binders it has over the
node itself. -/
def parts : Term → List (Nat × Term)
  | .hole | .lit .. | .var .. => []
  | .abs _ body _ => [(0, body)]
  | .app fn arg _ => [(0, fn), (0, arg)]
  | .fix inner _ => [(0, inner)]
  | .ite guard yes no _ => [(0, guard), (0, yes), (0, no)]
  | .inject _ payload _ _ => [(0, payload)]
  | .proj inner _ _ => [(0, inner)]
  | .tuple items _ => items.map fun t => (0, t)
  | .letIn bound body _ => [(0, bound), (0, body)]
  | .tyAbs body _ => [(1, body)]
  | .tyApp inner _ _ => [(0, inner)]
  | .roll _ inner _ => [(0, inner)]
  | .unroll _ inner _ => [(0, inner)]
  | .pack _ inner _ _ => [(0, inner)]
  | .unpack package body _ => [(0, package), (1, body)]
  | .caseOf scrutinee arms _ => (0, scrutinee) :: arms.map fun a => (0, a.body)

/-- Rebuilds a term from its immediate parts: `onTy` treats the types written at the node
and `onTerm` its subterms, from left to right as they are written. -/
def mapParts (onTy : Ty → Except ε Ty) (onTerm : Term → Except ε Term) : Term → Except ε Term
  | .hole => .ok .hole
  | .lit value s => .ok (.lit value s)
  | .var index s => .ok (.var index s)
  | .abs param body s => do return .abs (← onTy param) (← onTerm body) s
  | .app fn arg s => do return .app (← onTerm fn) (← onTerm arg) s
  | .fix inner s => do return .fix (← onTerm inner) s
  | .ite guard yes no s => do return .ite (← onTerm guard) (← onTerm yes) (← onTerm no) s
  | .inject label payload ty s => do return .inject label (← onTerm payload) (← onTy ty) s
  | .proj inner index s => do return .proj (← onTerm inner) index s
  | .tuple items s => do return .tuple (← items.mapM onTerm) s
  | .letIn bound body s => do return .letIn (← onTerm bound) (← onTerm body) s
  | .tyAbs body s => do return .tyAbs (← onTerm body) s
  | .tyApp inner arg s => do return .tyApp (← onTerm inner) (← onTy arg) s
  | .roll ty inner s => do return .roll (← onTy ty) (← onTerm inner) s
  | .unroll ty inner s => do return .unroll (← onTy ty) (← onTerm inner) s
  | .pack witness inner ty s => do
    return .pack (← onTy witness) (← onTerm inner) (← onTy ty) s
  | .unpack package body s => do return .unpack (← onTerm package) (← onTerm body) s
  | .caseOf scrutinee arms s => do
    let scrutinee ← onTerm scrutinee
    let arms ← arms.mapM fun a => do return ⟨a.pattern, ← onTerm a.body, a.span⟩
    return .caseOf scrutinee arms s

/-! ## whole terms -/

/-- Lists the occurrences of term variables from left to right; types are not entered. -/
def visit (limit : Limit) : (levels : Nat) → (under : Nat) → Term → Visit Fault
  | 0, _, t => .fail (t.overrun limit)
  | n + 1, c, t =>
    match t with
    | .hole => .fail .termHole
    | .var i _ => .one ⟨i, c⟩
    | t => .all (t.parts.map fun p => visit limit n (c + p.1) p.2)

/-- Rewrites every type that is written in a term. -/
def mapTypes (limit : Limit) (onTy : Ty → Except Fault Ty) :
    (levels : Nat) → Term → Except Fault Term
  | 0, t => .error (t.overrun limit)
  | n + 1, t =>
    match t with
    | .hole => .error .termHole
    | t => t.mapParts onTy (mapTypes limit onTy n)

end PolyLambda.Term
