import PolyLambda.Text.Basic
import PolyLambda.Text.CaseTable

/-!
# PolyLambda.Text.Case

Small and capital forms of a text. Most characters are mapped on their own; a capital sigma
becomes the final small sigma when a letter stands before it and none after it, with
characters that carry no case passed over on both sides.
-/

namespace PolyLambda.Text

/-! ## single characters -/

/-- The image of a character under a case map: a special form, a range that contains it, or
itself. -/
def mapCase (special : List (Nat × List Nat)) (ranges : List CaseRange) (c : Char) : List Char :=
  match special.lookup c.toNat with
  | some form => form.map Char.ofNat
  | none =>
    match ranges.find? (·.contains c.toNat) with
    | some r => [Char.ofNat (c.toNat + r.offset).toNat]
    | none => [c]

/-- The small form of a character on its own. -/
def lowerChar (c : Char) : List Char :=
  if c.toNat < 0x80 then [c.toLower] else mapCase specialLower lowerRanges c

/-- The capital form of a character. -/
def upperChar (c : Char) : List Char :=
  if c.toNat < 0x80 then [c.toUpper] else mapCase specialUpper upperRanges c

/-- Whether the first character that counts has a case. -/
def startsCased (cs : List Char) : Bool :=
  (cs.dropWhile (inClass caseIgnorable)).head?.any (inClass cased)

/-! ## texts -/

/-- The small form of the rest of a text; `before` is what precedes it, nearest character
first. -/
def lowerAfter (before : List Char) : List Char → List Char
  | [] => []
  | c :: cs =>
    let image :=
      if c = 'Σ' then
        [if startsCased before && !startsCased cs then 'ς' else 'σ']
      else
        lowerChar c
    image ++ lowerAfter (c :: before) cs

/-- The small form of a text. -/
def lower (cs : List Char) : List Char :=
  lowerAfter [] cs

/-- The capital form of a text. -/
def upper (cs : List Char) : List Char :=
  cs.flatMap upperChar

end PolyLambda.Text
