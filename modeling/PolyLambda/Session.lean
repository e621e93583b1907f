import PolyLambda.Check.Checker
import PolyLambda.Term.Printer

/-!
# PolyLambda.Session

Sessions: a list of commands carried out on one checker and one current context. A failing
command is answered with its failure, and the session goes on.

A block of commands can run with binders open. The binders belong to the context that was
current when the block was entered; if a command inside makes another context current,
leaving the block still closes them where they were opened.
-/

namespace PolyLambda

/-! ## commands and answers -/

/-- What a single command does. `malformed` is a command one of whose arguments could not be
built. -/
inductive Action where
  | malformed (cause : Malformed)
  | push (ty : Ty)
  | pop
  | openScope
  | closeScope
  | define (name : String) (ty : Ty)
  | find (index : Int)
  | text
  | aliases
  | checkerAliases
  | resolve (ty : Ty)
  | expand (ty : Ty)
  | expandTerm (term : Term)
  | typeOf (term : Term)
  | typeOfClosed (term : Term)
  | program (decls : List Declaration)
  | freshContext
  | emptyContext
  | context (aliases : Aliases) (depth : Int)

/-- Commands: single ones, blocks with term variables or a type variable bound, and `raise`,
which leaves the block it stands in. -/
inductive Command where
  | act (action : Action)
  | bind (types : List Ty) (block : List Command)
  | scope (block : List Command)
  | raise

/-- A reply: the answer to a command, and the size and depth of the current context after it. -/
structure Reply (α : Type) where
  answer : α
  size : Nat
  depth : Nat

/-- Answers. `nothing` answers a command that has only an effect, and a look-up that finds
nothing; `raised` answers a block that was left early. -/
inductive Answer where
  | nothing
  | type (ty : Ty)
  | text (text : String)
  | aliases (table : Aliases)
  | term (term : Term)
  | types (types : Table Ty)
  | block (replies : List (Reply Answer))
  | raised
  | failed (fault : Fault)
  | malformed (cause : Malformed)

/-! ## carrying out commands -/

/-- The state of a session: its checker, the number of levels that the checker is in, and the
current context. `left` is the context that the innermost open block was entered with, if another
one has become current since. -/
structure Session where
  checker : Checker
  count : Nat
  current : Context
  left : Option Context

namespace Session

/-- The session that starts with a checker and a fresh context. -/
def start (checker : Checker) : Session :=
  ⟨checker, 0, checker.freshContext, none⟩

/-- Makes another context current. -/
def switch (s : Session) (Γ : Context) : Session :=
  { s with current := Γ, left := s.left <|> some s.current }

/-- What one command did: its answer, the state after it, and the events it wrote. -/
structure Effect where
  answer : Answer
  session : Session
  log : List Event

/-- The answer to a computation, given how a value is shown. -/
def answerOf (f : α → Answer) : Except Fault α → Answer
  | .ok a => f a
  | .error e => .failed e

/-- Runs a computation on the current context. -/
def run (s : Session) (x : Check α) (f : α → Answer) : Effect :=
  let o := x.run s.current
  ⟨answerOf f o.result, { s with current := o.context }, o.log⟩

/-- Carries out a single command. -/
def perform (s : Session) : Action → Effect
  | .malformed cause => ⟨.malformed cause, s, []⟩
  | .push ty => s.run (.modify (·.push ty)) fun _ => .nothing
  | .pop => s.run (.modify (·.pop)) fun _ => .nothing
  | .openScope => s.run .openScope fun _ => .nothing
  | .closeScope => s.run .closeScope fun _ => .nothing
  | .define name ty => s.run (.define name ty) fun _ => .nothing
  | .find index => s.run (.ask (·.find index)) fun
    | some T => .type T
    | none => .nothing
  | .text => s.run (.ask (·.render)) .text
  | .aliases => ⟨.aliases s.current.aliases, s, []⟩
  | .checkerAliases => ⟨.aliases s.checker.aliases, s, []⟩
  | .resolve ty => s.run (.ask (·.resolve ty)) .type
  | .expand ty => s.run (.ask (·.expand ty)) .type
  | .expandTerm term => s.run (.ask (·.expandTerm term)) .term
  | .typeOf term =>
    let o := (s.checker.check term).run s.count s.current
    ⟨answerOf .type o.1.result, { s with count := o.2, current := o.1.context }, o.1.log⟩
  | .typeOfClosed term =>
    let o := (s.checker.check term).run s.count s.checker.freshContext
    ⟨answerOf .type o.1.result, { s with count := o.2 }, o.1.log⟩
  | .program decls =>
    let o := (s.checker.checkAll decls).run s.count s.checker.freshContext
    ⟨answerOf .types o.1.result, { s with checker := s.checker.after o.1, count := o.2 }, o.1.log⟩
  | .freshContext => ⟨.nothing, s.switch s.checker.freshContext, []⟩
  | .emptyContext => ⟨.nothing, s.switch (.empty s.checker.limit.frames), []⟩
  | .context aliases depth =>
    ⟨.nothing, s.switch (.fresh aliases ⟨depth, s.checker.limit.frames⟩), []⟩

/-- The answer to a block whose binders were closed with this result. -/
def blockAnswer (replies : List (Reply Answer)) (raised : Bool) : Except Fault Unit → Answer
  | .error e => .failed e
  | .ok () => if raised then .raised else .block replies

/-- What a list of commands did: the replies, whether it was left early, the state, and the
events. -/
structure Trail where
  replies : List (Reply Answer)
  raised : Bool
  session : Session
  log : List Event

/-- The end of a block: its binders are closed in the context they were opened in. `outer`
is the state before they were opened. -/
def leave (outer : Session) (last : Check Unit) (t : Trail) : Effect :=
  match t.session.left with
  | none =>
    let o := last.run t.session.current
    ⟨blockAnswer t.replies t.raised o.result,
      { t.session with current := o.context, left := outer.left }, t.log ++ o.log⟩
  | some Γ =>
    let o := last.run Γ
    ⟨blockAnswer t.replies t.raised o.result,
      { t.session with left := outer.left <|> some o.context }, t.log ++ o.log⟩

/-- A block: its binders are opened, its commands are carried out, and the binders are
closed again. If opening fails, no command is carried out. -/
def block (s : Session) (first last : Check Unit) (body : Session → Trail) : Effect :=
  let o := first.run s.current
  match o.result with
  | .error e => ⟨.failed e, { s with current := o.context }, o.log⟩
  | .ok () =>
    let e := leave s last (body { s with current := o.context, left := none })
    { e with log := o.log ++ e.log }

mutual
/-- Carries out one command. -/
def exec : Command → Session → Effect
  | .act action, s => s.perform action
  | .bind types body, s => s.block (.pushAll types) (.popAll types) (execAll body)
  | .scope body, s => s.block .openScope .closeScope (execAll body)
  | .raise, s => ⟨.raised, s, []⟩

/-- Carries out commands up to the end or to the first `raise`. -/
def execAll : List Command → Session → Trail
  | [], s => ⟨[], false, s, []⟩
  | .raise :: _, s => ⟨[], true, s, []⟩
  | command :: rest, s =>
    let e := exec command s
    let trail := execAll rest e.session
    ⟨⟨e.answer, e.session.current.size, e.session.current.depth⟩ :: trail.replies, trail.raised,
      trail.session, e.log ++ trail.log⟩
end

end Session

end PolyLambda
