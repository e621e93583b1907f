import PolyLambda.Event
import PolyLambda.Log.Sink

/-!
# PolyLambda.Log.Report

What is written. A record of the library goes to every sink, and leaves a line where it is let
through; a record from outside reaches the sinks once for each installed handler. The events of a
check are records of the library, all of them meant for debugging.
-/

namespace PolyLambda

namespace Log

/-! ## lines -/

/-- A written line: the level in a column of six characters, the module, and the message. -/
structure Line where
  level : String
  source : String
  message : String

/-- The line of a record. -/
def Record.line (r : Record) : Line :=
  ⟨String.ofList ((levelName r.level).toList.rightpad 6 ' '), r.source, r.message⟩

namespace Logging

/-- The lines that a record of the library causes. -/
def write (s : Logging) (r : Record) : List Line :=
  s.logger.flatMap fun sink => if sink.admits r then [r.line] else []

/-- The lines that a record from outside causes. -/
def forward (s : Logging) (r : Record) : List Line :=
  (List.replicate s.handlers r).flatMap s.write

end Logging

end Log

/-! ## events -/

/-- The log record of an event. -/
def Event.record (e : Event) : Log.Record :=
  ⟨e.origin, Log.debugLevel, e.message⟩

/-- The lines that the events of a check cause. -/
def Log.Logging.report (s : Log.Logging) (events : List Event) : List Log.Line :=
  events.flatMap fun e => s.write e.record

end PolyLambda
