/-!
# PolyLambda.Span

Places in a source text: a `Location` is one point, a `Span` the stretch between two points.
Lines and columns are plain integers, because nothing here counts with them beyond comparing
and adding.

A span is printed in the short form used in front of error messages; a span on one line
prints its line once.
-/

namespace PolyLambda

/-! ## locations -/

/-- A point of a source text. An empty file name is a name, but it is not printed. -/
structure Location where
  line : Int
  column : Int
  file : Option String := none
  deriving DecidableEq

namespace Location

/-- The printed file name, if there is one to print. -/
def source? (l : Location) : Option String :=
  l.file.filter (· ≠ "")

/-- The text of a location that stands on its own. -/
def render (l : Location) : String :=
  match l.source? with
  | some file => s!"{file}:{l.line}:{l.column}"
  | none => s!"line {l.line}, column {l.column}"

/-- Locations are ordered by line and then by column; the file plays no part. -/
def before (a b : Location) : Bool :=
  a.line < b.line || (a.line = b.line && a.column < b.column)

end Location

/-! ## spans -/

/-- The stretch from `start` to `stop`. -/
structure Span where
  start : Location
  stop : Location
  deriving DecidableEq

namespace Span

/-- The span of `length` columns that starts at the given point. -/
def ofColumns (line column length : Int) (file : Option String) : Span :=
  ⟨⟨line, column, file⟩, ⟨line, column + length, file⟩⟩

/-- The smallest span that covers both; of two equal ends the first span's is kept. -/
def merge (a b : Span) : Span where
  start := if b.start.before a.start then b.start else a.start
  stop := if a.stop.before b.stop then b.stop else a.stop

/-- The text of a span: the file of its start, then the two ends. -/
def render (s : Span) : String :=
  let file := match s.start.source? with
    | some file => s!"{file}:"
    | none => ""
  if s.start.line = s.stop.line then
    s!"{file}{s.start.line}:{s.start.column}-{s.stop.column}"
  else
    s!"{file}{s.start.line}:{s.start.column}-{s.stop.line}:{s.stop.column}"

end Span

end PolyLambda
