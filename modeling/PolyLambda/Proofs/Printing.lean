import Mathlib
import PolyLambda.Proofs.Walk
import PolyLambda.Ty.Printer

/-!
# PolyLambda.Proofs.Printing

The text of a type says which type it is. This holds of types without holes whose names and labels
are identifiers and whose names are none of the words that the printer uses itself.

A text is read from the left. The word or bracket that it begins with tells the forms of types
apart, except for those in round brackets, which differ in what comes after their first component.
Binders have no end of their own, so the statement is about a type in front of something else: from
the whole it can be told which type it is, and where it ends. What follows may be anything that does
not make a last word longer.

* `Text.Legible` is that statement, for texts of any things.
* `Text.Legible.list`: the members of a list can be told if they can be told one by one.
* `Kind.legible`: a kind in front of anything but a blank.
* `Ty.legible`: a type in front of anything that ends a word. Hence `Ty.render_inj`.
-/

namespace PolyLambda

/-! ## words -/

namespace Text

variable {α : Type} {r s v w : List Char}

/-- A letter of ASCII, or any character beyond ASCII. Not all of the latter are letters, but the
printer uses none of them. -/
def isLetter (c : Char) : Bool :=
  c.isAlpha || 0x80 ≤ c.toNat

/-- A letter, a digit or an underscore. -/
def isWordChar (c : Char) : Bool :=
  isLetter c || c.isDigit || c = '_'

/-- A letter or an underscore, followed by letters, digits and underscores. -/
def isIdentifier (name : String) : Bool :=
  match name.toList with
  | [] => false
  | c :: cs => (isLetter c || c = '_') && cs.all isWordChar

/-- An identifier is a word, and not an empty one. -/
theorem isWordChar_of_isIdentifier {name : String} (h : isIdentifier name = true) :
    name.toList ≠ [] ∧ ∀ c ∈ name.toList, isWordChar c = true := by
  unfold isIdentifier at h
  split at h
  · contradiction
  · next c cs hname =>
    rw [Bool.and_eq_true, List.all_eq_true] at h
    have hc : isWordChar c = true := by
      unfold isWordChar
      grind
    exact ⟨by simp [hname], by simpa [hname] using ⟨hc, h.2⟩⟩

/-- The text does not make a word before it longer. -/
def Ends (cs : List Char) : Prop :=
  cs.takeWhile isWordChar = []

/-- A word ends in front of any other character. -/
theorem ends_cons {c : Char} (h : isWordChar c = false) (cs : List Char) : Ends (c :: cs) := by
  simp [Ends, h]

/-- Characters of some class are cut off where the class ends. -/
theorem append_inj_of_class {p : Char → Bool} (hv : ∀ c ∈ v, p c = true)
    (hw : ∀ c ∈ w, p c = true) (hr : r.takeWhile p = []) (hs : s.takeWhile p = [])
    (h : v ++ r = w ++ s) : v = w ∧ r = s := by
  have htake : (v ++ r).takeWhile p = (w ++ s).takeWhile p := congrArg _ h
  rw [List.takeWhile_append_of_pos hv, List.takeWhile_append_of_pos hw, hr, hs, List.append_nil,
    List.append_nil] at htake
  subst htake
  exact ⟨rfl, List.append_cancel_left h⟩

/-- The characters that types and the alternatives of variants begin with. -/
def isOpening (c : Char) : Bool :=
  isWordChar c || c = '(' || c = '<'

/-- The text begins with one of these characters. -/
def Opens (cs : List Char) : Prop :=
  ∃ c rest, cs = c :: rest ∧ isOpening c = true

/-- Whether a text opens shows at its first character. -/
theorem Opens.append (h : Opens v) (r : List Char) : Opens (v ++ r) := by
  obtain ⟨c, rest, rfl, hc⟩ := h
  exact ⟨c, rest ++ r, rfl, hc⟩

/-- A text that opens does not begin with a mark. -/
theorem Opens.append_ne_cons (h : Opens v) {c : Char} (hc : isOpening c = false) :
    v ++ r ≠ c :: s := by
  obtain ⟨d, rest, rfl, hd⟩ := h
  intro heq
  rw [List.cons_append, List.cons.injEq] at heq
  rw [heq.1, hc] at hd
  contradiction

/-- Identifiers open. -/
theorem opens_word {word : String} (h : isIdentifier word = true) : Opens word.toList := by
  obtain ⟨hne, hword⟩ := isWordChar_of_isIdentifier h
  cases hw : word.toList with
  | nil => exact absurd hw hne
  | cons c cs =>
    have hc : isWordChar c = true := hword c (by simp [hw])
    exact ⟨c, cs, rfl, by simp [isOpening, hc]⟩

/-! ## legible texts -/

/-- Where the text of `a` or of `b` stands in front of something that ends a word, it can be told
from the whole which of the two it is, and where it ends. -/
def Legible (text : α → List Char) (a b : α) : Prop :=
  ∀ r s, Ends r → Ends s → text a ++ r = text b ++ s → a = b ∧ r = s

theorem Legible.symm {text : α → List Char} {a b : α} (h : Legible text a b) :
    Legible text b a := by
  intro r s hr hs heq
  obtain ⟨rfl, rfl⟩ := h s r hs hr heq.symm
  exact ⟨rfl, rfl⟩

section Lists

variable {text : α → List Char} {xs ys : List α} {mark close : Char} {sep : List Char}

/-- What comes after the first member of a list: the other members, each after a separator, and
then the end. -/
def others (text : α → List Char) (sep ending : List Char) : List α → List Char
  | [] => ending
  | x :: xs => sep ++ (text x ++ others text sep ending xs)

/-- The text of a list is the text of its head, and that of the others with separators before them.
-/
theorem intercalate_map_cons (x : α) (xs : List α) :
    sep.intercalate ((x :: xs).map text) ++ r = text x ++ others text sep r xs := by
  induction xs generalizing x with
  | nil => simp [others]
  | cons y ys ih =>
    rw [List.map_cons, List.map_cons, List.intercalate_cons_cons, ← List.map_cons,
      List.append_assoc, ih, List.append_assoc, others]

/-- After the head of a list comes a separator or the closing bracket, so a word ends there. -/
theorem ends_others (hmark : isWordChar mark = false) (hclose : isWordChar close = false) :
    Ends (others text (mark :: sep) (close :: r) xs) := by
  cases xs with
  | nil => exact ends_cons hclose r
  | cons x xs => exact ends_cons hmark _

/-- Separators are told from the closing bracket, so the members of lists can be read one after
another. -/
theorem Legible.others (hlegible : ∀ x ∈ xs, ∀ y ∈ ys, Legible text x y)
    (hmark : isWordChar mark = false) (hclose : isWordChar close = false) (hne : mark ≠ close)
    (h : others text (mark :: sep) (close :: r) xs = others text (mark :: sep) (close :: s) ys) :
    xs = ys ∧ r = s := by
  induction xs generalizing ys with
  | nil =>
    cases ys with
    | nil => exact ⟨rfl, (List.cons.inj h).2⟩
    | cons y ys => exact absurd (List.cons.inj h).1 hne.symm
  | cons x xs ih =>
    cases ys with
    | nil => exact absurd (List.cons.inj h).1 hne
    | cons y ys =>
      obtain ⟨rfl, hrest⟩ := hlegible x List.mem_cons_self y List.mem_cons_self _ _
        (ends_others hmark hclose) (ends_others hmark hclose) (List.append_cancel_left h)
      obtain ⟨rfl, rfl⟩ := ih (fun a ha b hb =>
        hlegible a (List.mem_cons_of_mem x ha) b (List.mem_cons_of_mem x hb)) hrest
      exact ⟨rfl, rfl⟩

/-- The members of a list that is written with separators, up to an end that no member begins
with. -/
theorem Legible.list (hlegible : ∀ x ∈ xs, ∀ y ∈ ys, Legible text x y)
    (hxs : ∀ x ∈ xs, Opens (text x)) (hys : ∀ y ∈ ys, Opens (text y))
    (hmark : isWordChar mark = false) (hclose : isWordChar close = false)
    (hopen : isOpening close = false) (hne : mark ≠ close)
    (h : (mark :: sep).intercalate (xs.map text) ++ close :: r =
      (mark :: sep).intercalate (ys.map text) ++ close :: s) : xs = ys ∧ r = s := by
  cases xs with
  | nil =>
    cases ys with
    | nil => exact ⟨rfl, (List.cons.inj h).2⟩
    | cons y ys =>
      rw [intercalate_map_cons] at h
      exact absurd h.symm ((hys y List.mem_cons_self).append_ne_cons hopen)
  | cons x xs =>
    cases ys with
    | nil =>
      rw [intercalate_map_cons] at h
      exact absurd h ((hxs x List.mem_cons_self).append_ne_cons hopen)
    | cons y ys =>
      rw [intercalate_map_cons, intercalate_map_cons] at h
      obtain ⟨rfl, hrest⟩ := hlegible x List.mem_cons_self y List.mem_cons_self _ _
        (ends_others hmark hclose) (ends_others hmark hclose) h
      obtain ⟨rfl, rfl⟩ := Legible.others (fun a ha b hb =>
        hlegible a (List.mem_cons_of_mem x ha) b (List.mem_cons_of_mem x hb)) hmark hclose hne hrest
      exact ⟨rfl, rfl⟩

end Lists

end Text

/-! ## kinds and binders -/

/-- A kind can be told from a text that goes on with anything but a blank. -/
theorem Kind.legible {K L : Kind} {r s : List Char} (hr : r.head? ≠ some ' ')
    (hs : s.head? ≠ some ' ') (h : K.render.toList ++ r = L.render.toList ++ s) :
    K = L ∧ r = s := by
  induction K using Kind.render.induct generalizing L r s with
  | case1 =>
    rcases L with _ | ⟨_ | ⟨a, b⟩, cod⟩
    · simpa [render] using h
    · simp only [render, String.toList_append, List.append_assoc] at h
      have hrest : r = " => ".toList ++ (cod.render.toList ++ s) := (List.cons.inj h).2
      exact absurd (by rw [hrest]; rfl) hr
    · simp [render] at h
  | case2 cod ih =>
    rcases L with _ | ⟨_ | ⟨a, b⟩, cod'⟩
    · simp only [render, String.toList_append, List.append_assoc] at h
      have hrest : " => ".toList ++ (cod.render.toList ++ r) = s := (List.cons.inj h).2
      exact absurd (by rw [← hrest]; rfl) hs
    · simp only [render, String.toList_append, List.append_assoc] at h
      obtain ⟨rfl, rfl⟩ := ih hr hs (List.append_cancel_left h)
      exact ⟨rfl, rfl⟩
    · simp [render] at h
  | case3 a b cod iharg ihcod =>
    rcases L with _ | ⟨_ | ⟨a', b'⟩, cod'⟩
    · simp [render] at h
    · simp [render] at h
    · simp only [render, String.toList_append, List.append_assoc] at h
      obtain ⟨harg, hcod⟩ := iharg (by simp) (by simp) (List.append_cancel_left h)
      obtain ⟨rfl, rfl⟩ := ihcod hr hs (List.append_cancel_left hcod)
      rw [harg]
      exact ⟨rfl, rfl⟩

namespace Binder

/-- The word that a binder begins with. -/
def word : Binder → String
  | .all => "forall"
  | .ex => "exists"
  | .op _ => "lambda"
  | .mu => "rec"

/-- What a binder says of its variable. -/
def bound : Binder → List Char
  | .all | .ex => ['X', '.']
  | .op kind => 'X' :: ':' :: ':' :: kind.render.toList ++ ['.']
  | .mu => []

theorem legible {b c : Binder} {r s : List Char} (hw : b.word = c.word)
    (h : b.bound ++ r = c.bound ++ s) : b = c ∧ r = s := by
  cases b <;> cases c <;> simp_all [word, bound]
  next K L =>
    obtain ⟨rfl, hrest⟩ := Kind.legible (by simp) (by simp) h
    exact ⟨rfl, (List.cons.inj hrest).2⟩

end Binder

/-! ## texts of types -/

/-- The words that the printer uses at the beginning of types. -/
def Ty.reserved : List String :=
  ["Unit", "Nat", "Bool", "TyVar", "forall", "exists", "lambda", "rec"]

/-- The words of the notation are identifiers. -/
theorem Ty.isIdentifier_of_reserved : ∀ word ∈ reserved, Text.isIdentifier word = true := by
  decide +kernel

/-- The names of the base types are reserved. -/
theorem Base.render_mem_reserved (b : Base) : b.render ∈ Ty.reserved := by
  cases b <;> simp [render, Ty.reserved]

/-- The words for binders are reserved. -/
theorem Binder.word_mem_reserved (b : Binder) : b.word ∈ Ty.reserved := by
  cases b <;> simp [word, Ty.reserved]

/-- A node that is printed legibly: it is no hole, its labels or its name are identifiers, and the
name is none of the words of the printer. -/
def Shape.Readable : Shape → Prop
  | .hole => False
  | .named name => Text.isIdentifier name = true ∧ name ∉ Ty.reserved
  | .variant labels => ∀ label ∈ labels, Text.isIdentifier label = true
  | _ => True

instance (s : Shape) : Decidable s.Readable :=
  match s with
  | .hole => .isFalse not_false
  | .named _ => inferInstanceAs (Decidable (_ ∧ _))
  | .variant labels => inferInstanceAs (Decidable (∀ label ∈ labels, _))
  | .base _ | .var _ | .product _ | .arrow | .app | .binder _ => .isTrue trivial

namespace Ty

open Text

variable {T U A B C D : Ty} {r s : List Char}

/-- Every node is printed legibly. -/
def Readable (T : Ty) : Prop :=
  T.EveryShape Shape.Readable

/-- A test for types that nest at most `n` deep. -/
def isReadable : (n : Nat) → Ty → Bool
  | 0, _ => false
  | n + 1, T => decide T.shape.Readable && T.children.all (isReadable n)

/-- Being readable can be computed. -/
theorem readable_of_isReadable {n : Nat} (h : T.isReadable n = true) : T.Readable := by
  induction n generalizing T with
  | zero => contradiction
  | succ n ih =>
    rw [isReadable, Bool.and_eq_true, decide_eq_true_iff, List.all_eq_true] at h
    exact ⟨h.1, fun U hU => ih (h.2 U hU)⟩

/-- The parts of a readable arrow are readable. -/
theorem Readable.arrow (h : (Ty.arrow A B).Readable) : A.Readable ∧ B.Readable :=
  ⟨h.child (by simp [children]), h.child (by simp [children])⟩

/-- The parts of a readable application are readable. -/
theorem Readable.app (h : (Ty.app A B).Readable) : A.Readable ∧ B.Readable :=
  ⟨h.child (by simp [children]), h.child (by simp [children])⟩

theorem Readable.body {b : Binder} (h : (binder b A).Readable) : A.Readable :=
  h.child (by simp [children])

/-- The characters of the text of a type. -/
def text (T : Ty) : List Char :=
  T.render.toList

/-- The characters of the text of an alternative. -/
def fieldText (f : Field Ty) : List Char :=
  f.label.toList ++ ':' :: ' ' :: f.ty.text

theorem renderItems_eq (items : List Ty) : renderItems items = items.map render := by
  induction items with
  | nil => rfl
  | cons T items ih => rw [renderItems, ih, List.map_cons]

theorem renderFields_eq (fields : List (Field Ty)) :
    renderFields fields = fields.map fun f => f.label ++ ": " ++ f.ty.render := by
  induction fields with
  | nil => rfl
  | cons f fields ih => rw [renderFields, ih, List.map_cons]

/-- A variable begins with a word of its own and a bracket. -/
theorem text_var (i : Int) :
    (var i).text ++ r = "TyVar".toList ++ '(' :: ((toString i).toList ++ ')' :: r) := by
  simp [text, render]

/-- A binder begins with its word and a blank. -/
theorem text_binder (b : Binder) :
    (binder b T).text ++ r = b.word.toList ++ ' ' :: (b.bound ++ (T.text ++ r)) := by
  cases b <;> simp [text, render, Binder.opening, Binder.word, Binder.bound]

/-- An arrow begins with a bracket, and after its domain comes a blank. -/
theorem text_arrow :
    (arrow A B).text ++ r = '(' :: (A.text ++ ' ' :: ("-> ".toList ++ (B.text ++ ')' :: r))) := by
  simp [text, render]

/-- So does an application, with nothing to mark it after the blank. -/
theorem text_app :
    (app A B).text ++ r = '(' :: (A.text ++ ' ' :: ([] ++ (B.text ++ ')' :: r))) := by
  simp [text, render]

/-- A product begins with the same bracket, and after its first component comes no blank. -/
theorem text_product (items : List Ty) :
    (product items).text ++ r =
      '(' :: ([',', ' '].intercalate (items.map text) ++ ')' :: r) := by
  simp only [text, render, renderItems_eq, String.toList_append, String.toList_intercalate,
    List.map_map, List.append_assoc]
  rfl

/-- A variant has brackets of its own. -/
theorem text_variant (fields : List (Field Ty)) :
    (variant fields).text ++ r =
      '<' :: ([' ', '|', ' '].intercalate (fields.map fieldText) ++ '>' :: r) := by
  simp only [text, render, renderFields_eq, String.toList_append, String.toList_intercalate,
    List.map_map, Function.comp_def, List.append_assoc]
  rfl

/-! ## how a type begins -/

/-- What the text of a type begins with: a word of the printer, a name, or a bracket. -/
inductive Start where
  | base (b : Base)
  | var
  | binder (word : String)
  | name (name : String)
  | bracket (c : Option Char)

namespace Start

/-- What a word stands for at the beginning of a type. -/
def ofWord : String → Start
  | "Unit" => .base .unit
  | "Nat" => .base .nat
  | "Bool" => .base .bool
  | "TyVar" => .var
  | "forall" => .binder "forall"
  | "exists" => .binder "exists"
  | "lambda" => .binder "lambda"
  | "rec" => .binder "rec"
  | other => .name other

/-- A word that is not reserved is the name of an alias. -/
theorem ofWord_of_not_reserved {name : String} (h : name ∉ reserved) :
    ofWord name = .name name := by
  unfold ofWord
  split <;> simp_all [reserved]

/-- Reads the beginning of a text. -/
def read (cs : List Char) : Start :=
  match cs.takeWhile isWordChar with
  | [] => .bracket cs.head?
  | word => ofWord (String.ofList word)

/-- A text that begins with no word begins with a bracket. -/
theorem read_bracket {c : Char} (hc : isWordChar c = false) (cs : List Char) :
    read (c :: cs) = .bracket (some c) := by
  simp [read, hc]

/-- A word is read as a whole. -/
theorem read_word {word : String} (h : isIdentifier word = true) (hr : Ends r) :
    read (word.toList ++ r) = ofWord word := by
  obtain ⟨hne, hword⟩ := isWordChar_of_isIdentifier h
  have htake : (word.toList ++ r).takeWhile isWordChar = word.toList := by
    rw [List.takeWhile_append_of_pos hword, hr, List.append_nil]
  unfold read
  rw [htake]
  split
  · contradiction
  · rw [String.ofList_toList]

end Start

/-- What the text of a type begins with, by its form. -/
def start : Ty → Start
  | .hole => .bracket none
  | .base b => .base b
  | .named name => .name name
  | .var _ => .var
  | .variant _ => .bracket (some '<')
  | .product _ | .arrow _ _ | .app _ _ => .bracket (some '(')
  | .binder b _ => .binder b.word

/-- How a readable type begins can be read off its text. -/
theorem read_text (hT : T.Readable) (hr : Ends r) : Start.read (T.text ++ r) = T.start := by
  cases T with
  | hole => exact hT.here.elim
  | base b =>
    rw [text, render, Start.read_word (isIdentifier_of_reserved _ b.render_mem_reserved) hr]
    cases b <;> rfl
  | named name =>
    obtain ⟨hname, hfree⟩ := hT.here
    rw [text, render, Start.read_word hname hr, Start.ofWord_of_not_reserved hfree]
    rfl
  | var i =>
    have hword : "TyVar" ∈ reserved := by simp [reserved]
    rw [text_var, Start.read_word (isIdentifier_of_reserved _ hword) (ends_cons (by decide) _)]
    rfl
  | variant fields => exact text_variant fields ▸ Start.read_bracket (by decide) _
  | product items => exact text_product items ▸ Start.read_bracket (by decide) _
  | arrow A B => exact text_arrow ▸ Start.read_bracket (by decide) _
  | app A B => exact text_app ▸ Start.read_bracket (by decide) _
  | binder b body =>
    rw [text_binder, Start.read_word (isIdentifier_of_reserved _ b.word_mem_reserved)
      (ends_cons (by decide) _)]
    cases b <;> rfl

/-- Only types that begin in the same way have to be told apart. -/
theorem legible_of_start (hT : T.Readable) (hU : U.Readable)
    (h : T.start = U.start → Legible text T U) : Legible text T U := by
  intro r s hr hs heq
  have hstart : T.start = U.start := by rw [← read_text hT hr, heq, read_text hU hs]
  exact h hstart r s hr hs heq

/-- The text of a readable type opens. -/
theorem opens_text (hT : T.Readable) : Opens T.text := by
  rw [← List.append_nil T.text]
  cases T with
  | hole => exact hT.here.elim
  | base b => exact (opens_word (isIdentifier_of_reserved _ b.render_mem_reserved)).append _
  | named name => exact (opens_word hT.here.1).append _
  | var i => exact ⟨_, _, text_var i, by decide⟩
  | variant fields => exact ⟨_, _, text_variant fields, by decide⟩
  | product items => exact ⟨_, _, text_product items, by decide⟩
  | arrow A B => exact ⟨_, _, text_arrow, by decide⟩
  | app A B => exact ⟨_, _, text_app, by decide⟩
  | binder b body =>
    rw [text_binder]
    exact (opens_word (isIdentifier_of_reserved _ b.word_mem_reserved)).append _

/-! ## one form at a time -/

/-- An index is written with digits and perhaps a sign. -/
theorem ne_close_of_mem_index {i : Int} {c : Char} (h : c ∈ (toString i).toList) : c ≠ ')' := by
  have hdigits : ∀ n : Nat, ')' ∉ n.repr.toList := by
    intro n hn
    rw [Nat.repr_eq_ofList_toDigits, String.toList_ofList] at hn
    have hdigit : Char.isDigit ')' = true := Nat.isDigit_of_mem_toDigits (by decide) (by decide) hn
    contradiction
  rintro rfl
  rw [Int.toString_eq_repr, Int.repr_eq_if] at h
  split at h
  · exact hdigits _ h
  · rw [String.toList_append, List.mem_append] at h
    exact h.elim (by decide) (hdigits _)

/-- An index ends in front of its bracket. -/
theorem legible_var {i j : Int} : Legible text (var i) (var j) := by
  intro r s _ _ h
  have hindex : ∀ k : Int, ∀ c ∈ (toString k).toList, (c != ')') = true :=
    fun k c hc => bne_iff_ne.2 (ne_close_of_mem_index hc)
  rw [text_var, text_var, List.append_cancel_left_eq, List.cons.injEq] at h
  obtain ⟨htext, hrest⟩ := append_inj_of_class (hindex i) (hindex j) (by simp) (by simp) h.2
  rw [String.toList_inj, Int.toString_eq_repr, Int.toString_eq_repr] at htext
  exact ⟨by rw [Int.repr_injective htext], (List.cons.inj hrest).2⟩

/-- After the word of a binder stands what it binds, and then the body. -/
theorem legible_binder {b c : Binder} (hw : b.word = c.word) (h : Legible text T U) :
    Legible text (binder b T) (binder c U) := by
  intro r s hr hs heq
  rw [text_binder, text_binder, hw, List.append_cancel_left_eq, List.cons.injEq] at heq
  obtain ⟨rfl, hbody⟩ := Binder.legible hw heq.2
  obtain ⟨rfl, hrest⟩ := h r s hr hs hbody
  exact ⟨rfl, hrest⟩

/-- A label ends in front of its colon. -/
theorem legible_field {label label' : String} (hlabel : isIdentifier label = true)
    (hlabel' : isIdentifier label' = true) (h : Legible text T U) :
    Legible fieldText ⟨label, T⟩ ⟨label', U⟩ := by
  intro r s hr hs heq
  simp only [fieldText, List.append_assoc, List.cons_append] at heq
  obtain ⟨hword, hrest⟩ := append_inj_of_class (isWordChar_of_isIdentifier hlabel).2
    (isWordChar_of_isIdentifier hlabel').2 (ends_cons (by decide) _) (ends_cons (by decide) _) heq
  simp only [List.cons.injEq, true_and] at hrest
  obtain ⟨rfl, hend⟩ := h r s hr hs hrest
  rw [String.toList_inj.1 hword]
  exact ⟨rfl, hend⟩

/-- The alternatives of two variants can be told apart if their types can. -/
theorem legible_variant {fields others : List (Field Ty)} (hT : (variant fields).Readable)
    (hU : (variant others).Readable) (h : ∀ f ∈ fields, ∀ g ∈ others, Legible text f.ty g.ty) :
    Legible text (variant fields) (variant others) := by
  intro r s _ _ heq
  have hf : ∀ f ∈ fields, isIdentifier f.label = true :=
    fun f hf => hT.here f.label (List.mem_map_of_mem hf)
  have hg : ∀ g ∈ others, isIdentifier g.label = true :=
    fun g hg => hU.here g.label (List.mem_map_of_mem hg)
  rw [text_variant, text_variant, List.cons.injEq] at heq
  obtain ⟨rfl, hrest⟩ := Legible.list
    (fun f hmem g hmem' => legible_field (hf f hmem) (hg g hmem') (h f hmem g hmem'))
    (fun f hmem => (opens_word (hf f hmem)).append _)
    (fun g hmem => (opens_word (hg g hmem)).append _)
    (by decide) (by decide) (by decide) (by decide) heq.2
  exact ⟨rfl, hrest⟩

/-- The components of two products can be told apart if their types can. -/
theorem legible_product {items others : List Ty} (hT : (product items).Readable)
    (hU : (product others).Readable) (h : ∀ A ∈ items, ∀ B ∈ others, Legible text A B) :
    Legible text (product items) (product others) := by
  intro r s _ _ heq
  rw [text_product, text_product, List.cons.injEq] at heq
  obtain ⟨rfl, hrest⟩ := Legible.list h (fun A hA => opens_text (hT.child hA))
    (fun B hB => opens_text (hU.child hB)) (by decide) (by decide) (by decide) (by decide) heq.2
  exact ⟨rfl, hrest⟩

/-- Two components in round brackets, with a blank between them and perhaps more. -/
theorem pair_eq {sep : List Char} (hAC : Legible text A C) (hBD : Legible text B D)
    (h : '(' :: (A.text ++ ' ' :: (sep ++ (B.text ++ ')' :: r))) =
      '(' :: (C.text ++ ' ' :: (sep ++ (D.text ++ ')' :: s)))) : A = C ∧ B = D ∧ r = s := by
  obtain ⟨hA, hsep⟩ := hAC _ _ (ends_cons (by decide) _) (ends_cons (by decide) _)
    (List.cons.inj h).2
  simp only [List.cons.injEq, true_and, List.append_cancel_left_eq] at hsep
  obtain ⟨hB, hclose⟩ := hBD _ _ (ends_cons (by decide) _) (ends_cons (by decide) _) hsep
  exact ⟨hA, hB, (List.cons.inj hclose).2⟩

/-- Two arrows with the same text have the same domains, and then the same codomains. -/
theorem legible_arrow (hAC : Legible text A C) (hBD : Legible text B D) :
    Legible text (arrow A B) (arrow C D) := by
  intro r s _ _ h
  rw [text_arrow, text_arrow] at h
  obtain ⟨rfl, rfl, hrest⟩ := pair_eq hAC hBD h
  exact ⟨rfl, hrest⟩

/-- The same holds of two applications. -/
theorem legible_app (hAC : Legible text A C) (hBD : Legible text B D) :
    Legible text (app A B) (app C D) := by
  intro r s _ _ h
  rw [text_app, text_app] at h
  obtain ⟨rfl, rfl, hrest⟩ := pair_eq hAC hBD h
  exact ⟨rfl, hrest⟩

/-- No type begins like an arrow sign. -/
theorem legible_arrow_app (hAC : Legible text A C) (hD : D.Readable) :
    Legible text (arrow A B) (app C D) := by
  intro r s _ _ h
  rw [text_arrow, text_app, List.cons.injEq] at h
  obtain ⟨-, hblank⟩ := hAC _ _ (ends_cons (by decide) _) (ends_cons (by decide) _) h.2
  exact absurd (List.cons.inj hblank).2.symm ((opens_text hD).append_ne_cons (by decide))

/-- After the first component of a product there is no blank. -/
theorem items_ne_pair {items : List Ty} (hA : A.Readable) (h : ∀ B ∈ items, Legible text B A) :
    [',', ' '].intercalate (items.map text) ++ ')' :: r ≠ A.text ++ ' ' :: s := by
  intro heq
  cases items with
  | nil => exact (opens_text hA).append_ne_cons (by decide) heq.symm
  | cons B items =>
    rw [intercalate_map_cons] at heq
    obtain ⟨-, hrest⟩ := h B List.mem_cons_self _ _ (ends_others (by decide) (by decide))
      (ends_cons (by decide) _) heq
    cases items <;> simp [others] at hrest

/-- A product and an arrow differ after what comes first in them, if not before. -/
theorem legible_product_arrow {items : List Ty} (hA : A.Readable)
    (h : ∀ C ∈ items, Legible text C A) : Legible text (product items) (arrow A B) := by
  intro r s _ _ heq
  rw [text_product, text_arrow, List.cons.injEq] at heq
  exact absurd heq.2 (items_ne_pair hA h)

/-- So do a product and an application. -/
theorem legible_product_app {items : List Ty} (hA : A.Readable)
    (h : ∀ C ∈ items, Legible text C A) : Legible text (product items) (app A B) := by
  intro r s _ _ heq
  rw [text_product, text_app, List.cons.injEq] at heq
  exact absurd heq.2 (items_ne_pair hA h)

/-! ## all forms -/

/-- In front of something that ends a word, it can be told what a type is and where it ends. -/
theorem legible (hT : T.Readable) (hU : U.Readable) : Legible text T U := by
  induction T generalizing U with
  | hole => exact hT.here.elim
  | base b =>
    refine legible_of_start hT hU fun hstart => ?_
    cases U with
    | base c =>
      obtain rfl : b = c := by simpa [start] using hstart
      exact fun _ _ _ _ h => ⟨rfl, List.append_cancel_left h⟩
    | _ => simp [start] at hstart
  | named name =>
    refine legible_of_start hT hU fun hstart => ?_
    cases U with
    | named other =>
      obtain rfl : name = other := by simpa [start] using hstart
      exact fun _ _ _ _ h => ⟨rfl, List.append_cancel_left h⟩
    | _ => simp [start] at hstart
  | var i =>
    refine legible_of_start hT hU fun hstart => ?_
    cases U with
    | var j => exact legible_var
    | _ => simp [start] at hstart
  | variant fields ih =>
    refine legible_of_start hT hU fun hstart => ?_
    cases U with
    | variant others =>
      exact legible_variant hT hU fun f hf g hg =>
        ih f hf (hT.child (List.mem_map_of_mem hf)) (hU.child (List.mem_map_of_mem hg))
    | _ => simp [start] at hstart
  | product items ih =>
    have hitems : ∀ A ∈ items, ∀ B : Ty, B.Readable → Legible text A B :=
      fun A hA B hB => ih A hA (hT.child hA) hB
    refine legible_of_start hT hU fun hstart => ?_
    cases U with
    | product others => exact legible_product hT hU fun A hA B hB => hitems A hA B (hU.child hB)
    -- an arrow and an application begin like a product: what follows the first part decides
    | arrow C D =>
      exact legible_product_arrow hU.arrow.1 fun A hA => hitems A hA C hU.arrow.1
    | app C D => exact legible_product_app hU.app.1 fun A hA => hitems A hA C hU.app.1
    | _ => simp [start] at hstart
  | arrow A B ihA ihB =>
    obtain ⟨hA, hB⟩ := hT.arrow
    refine legible_of_start hT hU fun hstart => ?_
    cases U with
    | product items =>
      exact (legible_product_arrow hA fun C hC => (ihA hA (hU.child hC)).symm).symm
    | arrow C D => exact legible_arrow (ihA hA hU.arrow.1) (ihB hB hU.arrow.2)
    | app C D => exact legible_arrow_app (ihA hA hU.app.1) hU.app.2
    | _ => simp [start] at hstart
  | app A B ihA ihB =>
    obtain ⟨hA, hB⟩ := hT.app
    refine legible_of_start hT hU fun hstart => ?_
    cases U with
    | product items =>
      exact (legible_product_app hA fun C hC => (ihA hA (hU.child hC)).symm).symm
    | arrow C D => exact (legible_arrow_app (ihA hA hU.arrow.1).symm hB).symm
    | app C D => exact legible_app (ihA hA hU.app.1) (ihB hB hU.app.2)
    | _ => simp [start] at hstart
  | binder b body ih =>
    refine legible_of_start hT hU fun hstart => ?_
    cases U with
    | binder c other =>
      have hword : b.word = c.word := by simpa [start] using hstart
      exact legible_binder hword (ih hT.body hU.body)
    | _ => simp [start] at hstart

/-- Readable types with the same text are the same. -/
theorem render_inj (hT : T.Readable) (hU : U.Readable) (h : T.render = U.render) : T = U :=
  (legible hT hU [] [] rfl rfl (by rw [text, text, h])).1

end Ty

end PolyLambda
