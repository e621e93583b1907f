import PolyLambda.Text.Basic

/-!
# PolyLambda.Settings.Numeral

Integers as they are written in settings. A numeral is a row of decimal digits, which may
follow a minus sign. Around it are allowed: space on both sides, a plus sign, leading zeros
with any underscores among them, also before the minus sign, a fraction of zeros, and single
underscores inside. All of these are taken away before the numeral is read. Like the rest of what
is accepted as a setting, this is a convention of the library that validates settings
(`PolyLambda.Settings.Value`).
-/

namespace PolyLambda.Numeral

/-- Why a text is not read as an integer. -/
inductive Flaw where
  | unreadable
  | tooLong
  deriving DecidableEq

/-! ## what is taken away -/

/-- Drops a plus sign, which may not stand before a minus sign. -/
def dropPlus : List Char → List Char
  | '+' :: '-' :: cs => '+' :: '-' :: cs
  | '+' :: cs => cs
  | cs => cs

/-- Drops zeros and underscores that follow `last`, itself one of them. If nothing or only a
fraction is left, `last` stays. -/
def dropZerosAfter (last : Char) : List Char → List Char
  | [] => [last]
  | c :: cs =>
    if c = '0' ∨ c = '_' then dropZerosAfter c cs
    else if c = '.' then last :: c :: cs
    else c :: cs

/-- Drops leading zeros with the underscores among them. -/
def dropZeros : List Char → List Char
  | '0' :: cs => dropZerosAfter '0' cs
  | cs => cs

/-- Drops a fraction of zeros, of which there has to be one. -/
def dropFraction (cs : List Char) : List Char :=
  match Text.pieces '.' cs with
  | [whole, fraction] => if !fraction.isEmpty && fraction.all (· = '0') then whole else cs
  | _ => cs

/-- Drops underscores if each of them stands alone inside the text. -/
def dropUnderscores (cs : List Char) : List Char :=
  let groups := Text.pieces '_' cs
  if groups.any List.isEmpty then cs else groups.flatten

/-! ## numerals -/

/-- The longest numeral that is read, its sign included. -/
def maxLength : Nat := 4300

/-- How many digits a text starts with; none follows a leading zero. -/
def digitsLength : List Char → Nat
  | '0' :: _ => 1
  | cs => (cs.takeWhile Char.isDigit).length

/-- The length of the numeral that a text starts with. -/
def length : List Char → Nat
  | '-' :: cs => digitsLength cs + 1
  | cs => digitsLength cs

/-- The number that digits stand for. There has to be a digit, and nothing else. -/
def ofDigits (cs : List Char) : Option Nat :=
  if !cs.isEmpty && cs.all Char.isDigit then
    some (cs.foldl (fun n d => 10 * n + (d.toNat - '0'.toNat)) 0)
  else
    none

/-- The number that a numeral stands for. -/
def ofChars : List Char → Option Int
  | '-' :: cs => (ofDigits cs).map fun n => -(n : Int)
  | cs => (ofDigits cs).map fun n => (n : Int)

/-- Reads an integer. A text that starts with a numeral beyond the longest is refused for
that, whatever follows. -/
def read (s : String) : Except Flaw Int :=
  let cs := Text.trim Text.isSpace s.toList
  let numeral := dropUnderscores (dropFraction (dropZeros (dropPlus cs)))
  if maxLength < length cs ∨ maxLength < length numeral then
    .error .tooLong
  else
    match ofChars numeral with
    | some n => .ok n
    | none => .error .unreadable

end PolyLambda.Numeral
