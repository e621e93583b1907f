import PolyLambda.Table
import PolyLambda.Text.Case

/-!
# PolyLambda.Log.Filter

Log filters as they are written: parts divided by commas, each a bare level or
`module=level`. Case does not matter, blanks around words do not count, and empty parts are
passed over. The last bare level is the general one; it holds for every module without an
entry of its own.
-/

namespace PolyLambda.Log

/-- What a filter lets through of a module: nothing, or records of at least the level of
this name. -/
inductive Threshold where
  | off
  | level (name : String)
  deriving DecidableEq

/-- A filter: the general level, and the thresholds of modules in order of first mention.
The empty module stands for all others. -/
structure Filter where
  level : String
  modules : Table Threshold

namespace Filter

/-- The general level where none is written. -/
def defaultLevel : String := "info"

/-- The threshold that a word stands for. -/
def threshold (word : List Char) : Threshold :=
  if word = "false".toList then .off else .level (String.ofList (Text.upper word))

/-- Takes a part into account: a later part replaces an earlier one. -/
def add (f : Filter) (part : List Char) : Filter :=
  match Text.pieces '=' part with
  | [] | [_] => { f with level := String.ofList part }
  | name :: rest =>
    let name := String.ofList (Text.trim Text.isBlank name)
    let word := Text.trim Text.isBlank (Text.join '=' rest)
    { f with modules := f.modules.insert name (threshold word) }

/-- The parts of a written filter: in small letters, without the blanks around them, and
none empty. -/
def parts (text : String) : List (List Char) :=
  ((Text.pieces ',' (Text.lower text.toList)).map (Text.trim Text.isBlank)).filter (· ≠ [])

/-- Gives the modules without an entry of their own the general level. -/
def complete (f : Filter) : Filter :=
  match f.modules.get? "" with
  | some _ => f
  | none =>
    let general := String.ofList (Text.upper f.level.toList)
    { f with modules := f.modules.insert "" (.level general) }

/-- Reads a written filter. -/
def parse (text : String) : Filter :=
  ((parts text).foldl add ⟨defaultLevel, ∅⟩).complete

/-- The filter in force: the one that is asked for, or the one set from outside, or the
default. -/
def read (value setting : Option String) : Filter :=
  parse ((value <|> setting).getD defaultLevel)

end Filter

end PolyLambda.Log
