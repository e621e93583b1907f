import PolyLambda.Log.Logger

/-!
# PolyLambda.Log.Sink

Where log records go. A sink lets a record through by the module it comes from: the threshold of
the nearest enclosing module decides.

`standard` is the logger that `Logging` is about, with its seven levels and its wording of a
refusal. These are conventions of one logger; configuring is described for any (`Logger`), and the
statements about it assume no more of this one than `Logger.Lawful`.
-/

namespace PolyLambda.Log

/-! ## levels -/

/-- The levels that have a name, with their numbers. -/
def levels : List (String × Nat) :=
  [("TRACE", 5), ("DEBUG", 10), ("INFO", 20), ("SUCCESS", 25), ("WARNING", 30), ("ERROR", 40),
    ("CRITICAL", 50)]

/-- The number of a named level. -/
def levelNumber? (name : String) : Option Nat :=
  levels.lookup name

/-- The level of debugging messages. -/
def debugLevel : Int := 10

/-- The name that a record shows for its level. Only the round numbers are named. -/
def levelName : Int → String
  | 10 => "DEBUG"
  | 20 => "INFO"
  | 30 => "WARNING"
  | 40 => "ERROR"
  | 50 => "CRITICAL"
  | number => "Level " ++ toString number

/-- A filter names a level that does not exist. -/
structure UnknownLevel where
  source : String
  level : String
  deriving DecidableEq

/-- The wording of the refusal. -/
def UnknownLevel.message (e : UnknownLevel) : String :=
  "The filter dict contains a module '" ++ e.source ++
    "' associated to a level name which does not exist: '" ++ e.level ++ "'"

/-! ## sinks -/

/-- A log record. -/
structure Record where
  source : String
  level : Int
  message : String
  deriving DecidableEq

/-- A sink: its filter, and for each module the least level it lets through, or `none` if it lets
nothing through. -/
structure Sink where
  filter : Table Threshold
  thresholds : List (String × Option Nat)

namespace Sink

/-- The least level that a threshold lets through. -/
def leastLevel (source : String) : Threshold → Except UnknownLevel (Option Nat)
  | .off => .ok none
  | .level name =>
    match levelNumber? name with
    | some n => .ok (some n)
    | none => .error ⟨source, name⟩

/-- The least levels of the modules in a filter, whose levels all have to exist. -/
def leastLevels (entries : List (String × Threshold)) :
    Except UnknownLevel (List (String × Option Nat)) :=
  entries.mapM fun (source, threshold) => do
    return (source, ← leastLevel source threshold)

/-- A module and the modules that enclose it, nearest first; the empty module encloses all. -/
def enclosing (source : String) : List String :=
  let parts := Text.pieces '.' source.toList
  (List.range (parts.length + 1)).map fun k =>
    String.ofList (Text.join '.' (parts.take (parts.length - k)))

/-- Whether a record is let through. -/
def admits (s : Sink) (r : Record) : Bool :=
  match (enclosing r.source).findSome? (s.thresholds.lookup ·) with
  | some (some least) => (least : Int) ≤ r.level
  | some none => false
  | none => true

end Sink

/-! ## the standard logger -/

/-- The logger whose state is the list of its sinks. -/
def standard : Logger (List Sink) UnknownLevel where
  sinks := List.map Sink.filter
  hasLevel name := (levelNumber? name).isSome
  remove _ := []
  add f sinks :=
    match Sink.leastLevels f.entries with
    | .error e => (.error e, sinks)
    | .ok thresholds => (.ok (), sinks ++ [⟨f, thresholds⟩])

/-- How logging to the standard logger is set up. -/
abbrev Logging := Setup (List Sink)

namespace Logging

/-- Before anything is configured. -/
def start : Logging :=
  ⟨false, [], 0⟩

/-- Configures logging to the standard logger. -/
def configure (s : Logging) (setting : Option String) (force : Bool) :
    Except UnknownLevel Unit × Logging :=
  Setup.configure standard s setting force

end Logging

end PolyLambda.Log
