import PolyLambda.Limit
import PolyLambda.Term.Traverse
import PolyLambda.Ty.Alias

/-!
# PolyLambda.Context

Typing contexts. Term variables and type variables have index spaces of their own: a term
binder puts a type on the stack, a type binder only raises the depth. Each entry of the
stack remembers the depth it was pushed at, and looking it up shifts it over the type scopes
opened since. So opening a scope is cheap, and what a look-up gives is always meant at the
present depth.
-/

namespace PolyLambda

/-- The type of a term variable, and the type depth at which it is meant. -/
structure Entry where
  ty : Ty
  depth : Nat
  deriving DecidableEq

/-- A typing context. The head of the stack is term variable `0`. -/
structure Context where
  stack : List Entry
  depth : Nat
  aliases : Aliases
  limit : Limit

namespace Context

/-- The context without binders over a table of aliases. -/
def fresh (aliases : Aliases) (limit : Limit) : Context :=
  ⟨[], 0, aliases, limit⟩

/-- The context without binders or aliases, under the default limit. -/
def empty (frames : Option Nat) : Context :=
  fresh ∅ ⟨Limit.defaultDepth, frames⟩

/-- The number of term variables. -/
def size (Γ : Context) : Nat :=
  Γ.stack.length

/-! ## aliases -/

/-- Gives a name to a type, or a new type to a name. -/
def define (Γ : Context) (name : String) (ty : Ty) : Context :=
  { Γ with aliases := Γ.aliases.insert name ty }

/-- Expands the aliases of a type. -/
def expand (Γ : Context) (T : Ty) : Except Fault Ty :=
  Γ.limit.run fun n => T.expand Γ.aliases n

/-- Expands the aliases of a type and normalises it. -/
def resolve (Γ : Context) (T : Ty) : Except Fault Ty :=
  Γ.limit.run fun n => T.resolve Γ.aliases n

/-- Expands the aliases in every type written in a term. -/
def expandTerm (Γ : Context) (t : Term) : Except Fault Term :=
  t.mapTypes Γ.limit Γ.expand Γ.limit.levels

/-! ## term variables -/

/-- Binds a term variable, which becomes variable `0`; its type is stored resolved. -/
def push (Γ : Context) (T : Ty) : Except Fault Context := do
  return { Γ with stack := ⟨← Γ.resolve T, Γ.depth⟩ :: Γ.stack }

/-- Unbinds term variable `0`. -/
def pop (Γ : Context) : Except Fault Context :=
  match Γ.stack with
  | [] => .error (.underflow .noTerm)
  | _ :: rest => .ok { Γ with stack := rest }

/-- The entry of a term variable. -/
def entry? (Γ : Context) : Int → Option Entry
  | .ofNat i => Γ.stack[i]?
  | .negSucc _ => none

/-- The type of a term variable, meant at the present depth. -/
def find (Γ : Context) (index : Int) : Except Fault (Option Ty) :=
  match Γ.entry? index with
  | none => .ok none
  | some e =>
    if e.depth = Γ.depth then
      .ok (some e.ty)
    else do
      return some (← Γ.limit.run fun n => e.ty.shift n (Γ.depth - e.depth))

/-! ## type variables -/

/-- Opens a scope for one type variable. -/
def openScope (Γ : Context) : Context :=
  { Γ with depth := Γ.depth + 1 }

/-- Closes the innermost type scope, in which no term variable may be left. -/
def closeScope (Γ : Context) : Except Fault Context :=
  match Γ.depth with
  | 0 => .error (.underflow .noScope)
  | d + 1 =>
    if Γ.stack.head?.any (d + 1 ≤ ·.depth) then
      .error (.underflow .termsInside)
    else
      .ok { Γ with depth := d }

/-! ## text -/

/-- The text of one term variable. -/
def renderVariable (Γ : Context) (index : Nat) : Except Fault String := do
  let text := match ← Γ.find index with
    | some T => T.render
    | none => "None"
  return "x" ++ toString index ++ ":" ++ text

/-- The text of a context: its term variables from index `0` up, and its depth. -/
def render (Γ : Context) : Except Fault String := do
  let terms ← (List.range Γ.size).mapM Γ.renderVariable
  return "Context(terms=[" ++ ", ".intercalate terms ++ "], type_depth=" ++ toString Γ.depth ++ ")"

end Context

end PolyLambda
