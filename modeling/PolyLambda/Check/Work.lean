import PolyLambda.Check.Action

/-!
# PolyLambda.Check.Work

Computations of a checker at work. A checker counts the levels of terms that it is in, and goes by
this count when it decides whether to go further down. The count belongs to the checker and not to
the context, so a `Work` reads and changes both; like the context, the count stays as it is at the
point of a failure.

* `Work.level` goes one level down and up again, however the computation there ends.
* Computations over a context are work that leaves the count alone.
-/

namespace PolyLambda

/-- A computation over the count of a checker and a typing context. It gives its outcome and the
count that it leaves. -/
structure Work (α : Type) where
  run : (count : Nat) → Context → Outcome α × Nat

namespace Work

/-! ## sequencing -/

/-- A computation that has no use for the count. -/
def ofCheck (x : Check α) : Work α :=
  ⟨fun d Γ => (x.run Γ, d)⟩

/-- One computation after another; a failure of the first is the end. -/
protected def bind (x : Work α) (f : α → Work β) : Work β where
  run d Γ :=
    match x.run d Γ with
    | (⟨.ok a, Δ, log⟩, e) =>
      let next := (f a).run e Δ
      (⟨next.1.result, next.1.context, log ++ next.1.log⟩, next.2)
    | (⟨.error fault, Δ, log⟩, e) => (⟨.error fault, Δ, log⟩, e)

instance : Monad Work where
  pure a := ofCheck (pure a)
  bind := Work.bind

/-- Runs `last` after `body`, however `body` ends. A failure of `last` hides a failure of
`body`. -/
def ensuring (body : Work α) (last : Work Unit) : Work α where
  run d Γ :=
    let b := body.run d Γ
    let l := last.run b.2 b.1.context
    ({ result := match l.1.result with
        | .ok () => b.1.result
        | .error e => .error e
       context := l.1.context
       log := b.1.log ++ l.1.log }, l.2)

instance : Checks Work where
  ofCheck := ofCheck
  binding Ts body := do
    ofCheck (Check.pushAll Ts)
    ensuring body (ofCheck (Check.popAll Ts))
  inScope body := do
    ofCheck Check.openScope
    ensuring body (ofCheck Check.closeScope)

/-! ## the count -/

/-- The number of levels that the checker is in. -/
def count : Work Nat :=
  ⟨fun d Γ => (⟨.ok d, Γ, []⟩, d)⟩

/-- Counts one level more. -/
def enter : Work Unit :=
  ⟨fun d Γ => (⟨.ok (), Γ, []⟩, d + 1)⟩

/-- Counts one level less. -/
def leave : Work Unit :=
  ⟨fun d Γ => (⟨.ok (), Γ, []⟩, d - 1)⟩

/-- Runs a computation one level down, or fails if there are only `most` levels. -/
def level (most : Nat) (fault : Fault) (body : Work α) : Work α := do
  enter
  ensuring (do if most < (← count) then ofCheck (.fail fault) else body) leave

end Work

end PolyLambda
