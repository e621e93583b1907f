import PolyLambda.Check.Rules
import PolyLambda.Check.Work
import PolyLambda.Settings

/-!
# PolyLambda.Check.Checker

The checker: the typing rules applied as deep as the limit allows, the check of one term,
and the check of a program. A checker keeps a table of aliases across programs.

A checker at work counts the levels it is in: `synthesize`, `check` and `checkAll` go by this count
and change it. Seen from outside, where it is in no level, these are `typeOf` and `program`.
`infer` says the same without a count: it is told how many levels are left.
-/

namespace PolyLambda

/-- A checker: the aliases it knows, how deep it goes, and whether it writes an event for
every typed term. -/
structure Checker where
  aliases : Aliases
  limit : Limit
  trace : Bool

namespace Checker

/-- The checker with these aliases and settings, on a machine with room for this many levels. -/
def ofSettings (aliases : Aliases) (s : Settings) (frames : Option Nat) : Checker :=
  ⟨aliases, ⟨s.maxDepth, frames⟩, s.trace⟩

/-- The context without binders over the aliases of a checker. -/
def freshContext (c : Checker) : Context :=
  .fresh c.aliases c.limit

/-! ## terms -/

/-- The type of a term, with this many levels left. -/
def infer (c : Checker) : (levels : Nat) → Term → Check Ty
  | 0, t => .fail (t.overrun c.limit)
  | n + 1, t => do
    let T ← Check.rule c.limit (c.infer n) t
    if c.trace then
      Check.emit (.rule t.form T)
    return T

/-- The type of a term, each part of it one level down. The recursion is bounded by `n`; the count
of levels ends it no later. -/
def synthesize (c : Checker) : (n : Nat) → Term → Work Ty
  | 0, t => .ofCheck (.fail (t.overrun c.limit))
  | n + 1, t => do
    let T ← .level c.limit.levels (t.overrun c.limit) (Check.rule c.limit (c.synthesize n) t)
    if c.trace then
      Check.emit (.rule t.form T)
    return T

/-- A machine that gives out during the check of `t` counts as nesting beyond the limit, at
the place of `t`. -/
def settle (c : Checker) (t : Term) : Fault → Fault
  | .outOfStack => .type ⟨.tooDeep c.limit.depth, t.span⟩
  | fault => fault

/-- How the check of a term ends, if this is how its type was sought. A type error is also written
to the log. -/
def conclude (c : Checker) (t : Term) (o : Outcome Ty) : Outcome Ty :=
  match o.result with
  | .ok _ => o
  | .error fault =>
    match c.settle t fault with
    | .type e => { o with result := .error (.type e), log := o.log ++ [.failed e] }
    | other => { o with result := .error other }

/-- The check of a term. -/
def check (c : Checker) (t : Term) : Work Ty where
  run d Γ :=
    let o := (c.synthesize c.limit.levels t).run d Γ
    (c.conclude t o.1, o.2)

/-- The type of a term, found by a checker that is in no level yet. -/
def typeOf (c : Checker) (t : Term) : Check Ty where
  run Γ := ((c.check t).run 0 Γ).1

/-- The type of a term in a context of its own. -/
def typeOfClosed (c : Checker) (t : Term) : Outcome Ty :=
  (c.typeOf t).run c.freshContext

/-! ## programs -/

/-- The check of declarations. -/
def checkAll (c : Checker) (decls : List Declaration) : Work (Table Ty) :=
  Check.declarations c.check ∅ decls

/-- Checks a program in a context of its own, and gives the types of its terms. -/
def program (c : Checker) (decls : List Declaration) : Outcome (Table Ty) :=
  ((c.checkAll decls).run 0 c.freshContext).1

/-- The checker after a program: it keeps the types named there, also if the program failed. -/
def after (c : Checker) (o : Outcome α) : Checker :=
  { c with aliases := o.context.aliases }

end Checker

end PolyLambda
