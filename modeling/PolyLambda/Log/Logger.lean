import PolyLambda.Log.Filter

/-!
# PolyLambda.Log.Logger

Configuring a logger. Loggers are made elsewhere: how one keeps its sinks, which levels it has and
what it refuses are parameters here. A `Logger` offers the two operations that configuring needs,
and lets be seen which sinks are installed and which levels exist; `Logger.Lawful` is all that is
relied on.

`Setup.configure` installs one sink and one handler. It takes the old sinks away before it knows
whether the logger accepts the new filter.
-/

namespace PolyLambda.Log

/-! ## loggers -/

/-- A logger that has states `σ` and refuses filters with `ε`. -/
structure Logger (σ ε : Type) where
  /-- The filters of the installed sinks. -/
  sinks : σ → List (Table Threshold)
  /-- Whether there is a level of this name. -/
  hasLevel : String → Bool
  /-- Takes sinks away. -/
  remove : σ → σ
  /-- Installs a sink with this filter, or refuses to. -/
  add : Table Threshold → σ → Except ε Unit × σ

/-- The level that a threshold names. -/
def Threshold.name? : Threshold → Option String
  | .off => none
  | .level name => some name

namespace Logger

variable {σ ε : Type}

/-- Whether all levels that a filter names exist. -/
def knows (L : Logger σ ε) (f : Table Threshold) : Bool :=
  f.entries.all fun entry => entry.2.name?.all L.hasLevel

/-- What is assumed of a logger. -/
structure Lawful (L : Logger σ ε) : Prop where
  /-- Removing leaves no sink. -/
  remove_drops (s : σ) : L.sinks (L.remove s) = []
  /-- A filter that names a level that does not exist is refused, and nothing is installed. -/
  add_refuses (f : Table Threshold) (s : σ) (h : L.knows f = false) :
    ∃ e t, L.add f s = (.error e, t) ∧ L.sinks t = L.sinks s
  /-- For any other filter one sink is installed. -/
  add_installs (f : Table Threshold) (s : σ) (h : L.knows f = true) :
    ∃ t, L.add f s = (.ok (), t) ∧ L.sinks t = L.sinks s ++ [f]

end Logger

/-! ## configuring -/

/-- How logging is set up: whether it has been configured, the state of the logger, and the number
of handlers that forward records from outside to it. -/
structure Setup (σ : Type) where
  configured : Bool
  logger : σ
  handlers : Nat

/-- Configures logging by the filter that is set. Once configured, nothing changes unless it is
forced. A handler is installed only if there is none. -/
def Setup.configure (L : Logger σ ε) (s : Setup σ) (setting : Option String) (force : Bool) :
    Except ε Unit × Setup σ :=
  if s.configured && !force then
    (.ok (), s)
  else
    match L.add (Filter.read none setting).modules (L.remove s.logger) with
    | (.error e, logger) => (.error e, { s with logger })
    | (.ok (), logger) => (.ok (), ⟨true, logger, max 1 s.handlers⟩)

end PolyLambda.Log
