import PolyLambda.Settings.Numeral

/-!
# PolyLambda.Settings.Value

The values that can be given for a setting, and how they are understood as an integer or as
a flag.

Which values are understood, and in what words others are refused, is not for the checker to say:
these are conventions of the library that validates settings, which is not described here. They are
written down so that settings can be read, and no statement about the checker depends on them.
-/

namespace PolyLambda

/-- A value given for a setting. `decimal m e` is `m` divided by the `e`-th power of ten, to
the precision of 53 bits; `other` is a list or a record, which no setting accepts. -/
inductive Value where
  | null
  | flag (value : Bool)
  | integer (n : Int)
  | decimal (mantissa : Int) (exponent : Nat)
  | text (s : String)
  | other

/-- Why a value is refused. -/
inductive Refusal where
  | notInteger
  | unreadableInteger
  | tooLarge
  | fraction
  | belowOne
  | notFlag
  | unreadableFlag
  deriving DecidableEq

namespace Refusal

/-- The short name of a refusal. -/
def kind : Refusal → String
  | .notInteger => "int_type"
  | .unreadableInteger => "int_parsing"
  | .tooLarge => "int_parsing_size"
  | .fraction => "int_from_float"
  | .belowOne => "greater_than_equal"
  | .notFlag => "bool_type"
  | .unreadableFlag => "bool_parsing"

/-- The wording of a refusal. -/
def message : Refusal → String
  | .notInteger => "Input should be a valid integer"
  | .unreadableInteger => "Input should be a valid integer, unable to parse string as an integer"
  | .tooLarge => "Unable to parse input string as an integer, exceeded maximum size"
  | .fraction => "Input should be a valid integer, got a number with a fractional part"
  | .belowOne => "Input should be greater than or equal to 1"
  | .notFlag => "Input should be a valid boolean"
  | .unreadableFlag => "Input should be a valid boolean, unable to interpret input"

end Refusal

namespace Value

/-! ## decimals -/

/-- Rounds to 53 significant bits. A tie goes to the even neighbour. -/
def roundBits (n : Nat) : Nat :=
  let unit := Nat.pow 2 (n.log2 + 1 - 53)
  let quotient := n / unit
  let rest := n % unit
  if 2 * rest < unit ∨ (2 * rest = unit ∧ quotient % 2 = 0) then
    quotient * unit
  else
    (quotient + 1) * unit

/-- The first integer beyond a signed word of 64 bits. -/
def wordBound : Int := 0x8000000000000000

/-- The integer that a decimal is. It has to be without a fraction, and to fit in a word. -/
def ofDecimal (mantissa : Int) (exponent : Nat) : Except Refusal Int :=
  let unit : Int := Nat.pow 10 exponent
  if mantissa % unit = 0 then
    let n := mantissa / unit
    let n := if n < 0 then -(roundBits n.natAbs : Int) else roundBits n.natAbs
    if -wordBound < n ∧ n < wordBound then .ok n else .error .tooLarge
  else
    .error .fraction

/-! ## integers -/

/-- Any value as an integer; a flag counts as one or zero. -/
def toInteger : Value → Except Refusal Int
  | .flag value => .ok (if value then 1 else 0)
  | .integer n => .ok n
  | .decimal mantissa exponent => ofDecimal mantissa exponent
  | .text s =>
    match Numeral.read s with
    | .ok n => .ok n
    | .error .unreadable => .error .unreadableInteger
    | .error .tooLong => .error .tooLarge
  | .null | .other => .error .notInteger

/-! ## flags -/

/-- The words for a set and an unset flag. -/
def flagWords : Bool → List String
  | true => ["1", "true", "t", "on", "yes", "y"]
  | false => ["0", "false", "f", "off", "no", "n"]

/-- An integer as a flag. One beyond a word is no candidate at all. -/
def flagOfInteger (n : Int) : Except Refusal Bool :=
  if n = 1 then .ok true
  else if n = 0 then .ok false
  else if -wordBound ≤ n ∧ n < wordBound then .error .unreadableFlag
  else .error .notFlag

/-- Any value as a flag; words are read in any mixture of ASCII small and capital letters. -/
def toFlag : Value → Except Refusal Bool
  | .flag value => .ok value
  | .integer n => flagOfInteger n
  | .decimal mantissa exponent =>
    match ofDecimal mantissa exponent with
    | .ok n => flagOfInteger n
    | .error _ => .error .notFlag
  | .text s =>
    let word := String.ofList (s.toList.map Char.toLower)
    if word ∈ flagWords true then .ok true
    else if word ∈ flagWords false then .ok false
    else .error .unreadableFlag
  | .null | .other => .error .notFlag

end Value

end PolyLambda
