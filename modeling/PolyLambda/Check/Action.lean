import PolyLambda.Context
import PolyLambda.Event

/-!
# PolyLambda.Check.Action

Computations of the checker. A `Check` reads and changes a typing context, writes events,
and may fail; a failure leaves the context as it was at that point, and what was written
stays written.

* `Check.run_bind_of_ok` and `Check.run_bind_of_error` say how a sequence runs; the laws of
  monads hold.
* `Check.ensuring` runs a last step however the first one ends.
* `Check.binding` and `Check.inScope` open binders around a computation and close them
  afterwards.
-/

namespace PolyLambda

/-- How a computation ended: its result, the context it left, and the events it wrote. -/
structure Outcome (α : Type) where
  result : Except Fault α
  context : Context
  log : List Event

/-- A computation over a typing context. -/
@[ext]
structure Check (α : Type) where
  run : Context → Outcome α

namespace Check

/-! ## sequencing -/

/-- The computation that only gives a value. -/
protected def pure (a : α) : Check α :=
  ⟨fun Γ => ⟨.ok a, Γ, []⟩⟩

/-- One computation after another; a failure of the first is the end. -/
protected def bind (x : Check α) (f : α → Check β) : Check β where
  run Γ :=
    match x.run Γ with
    | ⟨.ok a, Δ, log⟩ =>
      let next := (f a).run Δ
      ⟨next.result, next.context, log ++ next.log⟩
    | ⟨.error e, Δ, log⟩ => ⟨.error e, Δ, log⟩

instance : Monad Check where
  pure := Check.pure
  bind := Check.bind

@[simp] theorem run_pure (a : α) (Γ : Context) : (pure a : Check α).run Γ = ⟨.ok a, Γ, []⟩ := rfl

/-- After a success the rest runs in the context that was left, and its events are appended. -/
theorem run_bind_of_ok {x : Check α} {Γ Δ : Context} {a : α} {log : List Event}
    (h : x.run Γ = ⟨.ok a, Δ, log⟩) (f : α → Check β) :
    (x >>= f).run Γ =
      ⟨((f a).run Δ).result, ((f a).run Δ).context, log ++ ((f a).run Δ).log⟩ := by
  change (Check.bind x f).run Γ = _
  simp only [Check.bind, h]

/-- After a failure the rest does not run. -/
theorem run_bind_of_error {x : Check α} {Γ Δ : Context} {e : Fault} {log : List Event}
    (h : x.run Γ = ⟨.error e, Δ, log⟩) (f : α → Check β) :
    (x >>= f).run Γ = ⟨.error e, Δ, log⟩ := by
  change (Check.bind x f).run Γ = _
  simp only [Check.bind, h]

instance : LawfulMonad Check := LawfulMonad.mk' Check
  (by
    intro α x
    ext1
    funext Γ
    change (x >>= pure).run Γ = x.run Γ
    rcases h : x.run Γ with ⟨e | a, Δ, log⟩
    · rw [run_bind_of_error h]
    · rw [run_bind_of_ok h]
      simp)
  (by
    intro α β a f
    ext1
    funext Γ
    rw [run_bind_of_ok (run_pure a Γ)]
    simp)
  (by
    intro α β γ x f g
    ext1
    funext Γ
    rcases h : x.run Γ with ⟨e | a, Δ, log⟩
    · rw [run_bind_of_error (run_bind_of_error h f), run_bind_of_error h]
    · rw [run_bind_of_ok h]
      rcases hf : (f a).run Δ with ⟨e | b, Δ', log'⟩
      · rw [run_bind_of_error (by rw [run_bind_of_ok h, hf]), run_bind_of_error hf]
      · rw [run_bind_of_ok (by rw [run_bind_of_ok h, hf]), run_bind_of_ok hf]
        simp)

/-- Fails. -/
def fail (e : Fault) : Check α :=
  ⟨fun Γ => ⟨.error e, Γ, []⟩⟩

/-- Fails with a mistake found at a place. -/
def reject (mistake : Mistake) (span : Option Span) : Check α :=
  fail (.type ⟨mistake, span⟩)

/-- Gives a result that was computed outside. -/
def ofExcept (r : Except Fault α) : Check α :=
  ⟨fun Γ => ⟨r, Γ, []⟩⟩

/-- Writes an event. -/
def emit (e : Event) : Check Unit :=
  ⟨fun Γ => ⟨.ok (), Γ, [e]⟩⟩

/-! ## the context -/

/-- Asks the context. -/
def ask (f : Context → Except Fault α) : Check α :=
  ⟨fun Γ => ⟨f Γ, Γ, []⟩⟩

/-- Changes the context, which stays as it is if the change fails. -/
def modify (f : Context → Except Fault Context) : Check Unit where
  run Γ :=
    match f Γ with
    | .ok Δ => ⟨.ok (), Δ, []⟩
    | .error e => ⟨.error e, Γ, []⟩

/-- Gives a name to a type. -/
def define (name : String) (ty : Ty) : Check Unit := do
  emit (.named name ty)
  modify fun Γ => .ok (Γ.define name ty)

/-! ## binders around a computation -/

/-- Runs `last` after `body`, however `body` ends. A failure of `last` hides a failure of
`body`. -/
def ensuring (body : Check α) (last : Check Unit) : Check α where
  run Γ :=
    let b := body.run Γ
    let l := last.run b.context
    { result := match l.result with
        | .ok () => b.result
        | .error e => .error e
      context := l.context
      log := b.log ++ l.log }

/-- Pushes types one after another, so that the last becomes variable `0`. If one fails,
those before it stay pushed. -/
def pushAll (Ts : List Ty) : Check Unit :=
  Ts.forM fun T => modify (·.push T)

/-- Pops as many variables as there are types. -/
def popAll (Ts : List Ty) : Check Unit :=
  Ts.forM fun _ => modify (·.pop)

/-- Runs a computation with term variables of these types bound. -/
def binding (Ts : List Ty) (body : Check α) : Check α := do
  pushAll Ts
  ensuring body (popAll Ts)

/-- Opens a type scope. -/
def openScope : Check Unit :=
  modify fun Γ => .ok Γ.openScope

/-- Closes the innermost type scope. -/
def closeScope : Check Unit :=
  modify (·.closeScope)

/-- Runs a computation inside a type scope of its own. -/
def inScope (body : Check α) : Check α := do
  openScope
  ensuring body closeScope

end Check

/-! ## computations with more than a context -/

/-- The kinds of computations that the typing rules can be carried out in: computations over a
context are among them, and binders can be opened around one. -/
class Checks (m : Type → Type) extends Monad m where
  ofCheck : Check α → m α
  binding : List Ty → m α → m α
  inScope : m α → m α

instance : Checks Check where
  ofCheck x := x
  binding := Check.binding
  inScope := Check.inScope

instance [Checks m] : MonadLift Check m where
  monadLift := Checks.ofCheck

end PolyLambda
