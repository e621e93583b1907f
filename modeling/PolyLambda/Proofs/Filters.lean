import Mathlib
import PolyLambda.Log.Filter

/-!
# PolyLambda.Proofs.Filters

Filters as they are written, and what is read from them. A filter is a list of entries: bare levels,
and levels of modules. It is written as parts with commas between them. A part is an entry with any
blanks around its words, or it has nothing but blanks.

Reading gives the entries back, in small letters: cutting at commas is the inverse of joining with
them, trimming takes the blanks away, and the small form of a text is found character by character,
since no part has a character for which that is not so. What is left is a run through the entries,
in which a later entry replaces an earlier one.

* `Filter.Part` and `Filter.written`: the ways of writing a filter.
* `Filter.foldl_add_parts`: reading a written filter takes up its entries one after another.
* `Filter.Reads`: what a filter with given entries is, said without the order of reading them.
* `Filter.read_written`: a written filter is read back.
-/

namespace PolyLambda

namespace Text

variable {p : Char → Bool} {sep c : Char} {cs xs ys : List Char}

/-! ## cutting -/

/-- Cutting a text is the splitting of a list at one of its elements, so the lemmas about that
apply. -/
theorem pieces_eq_splitOn (sep : Char) (cs : List Char) : pieces sep cs = cs.splitOn sep := by
  induction cs with
  | nil => rfl
  | cons c cs ih =>
    have hcons : (c :: cs).splitOn sep =
        if c = sep then [] :: cs.splitOn sep else (cs.splitOn sep).modifyHead (List.cons c) := by
      simp only [List.splitOn_eq_splitOnP, List.splitOnP_cons_eq_if_modifyHead, beq_iff_eq]
    rw [pieces, ih, hcons]
    cases hs : cs.splitOn sep with
    | nil => exact absurd hs (List.splitOn_ne_nil sep cs)
    | cons q qs => rfl

/-- A map that keeps the separator can be applied to the pieces. -/
theorem map_intercalate {f : Char → Char} (hf : f sep = sep) (ls : List (List Char)) :
    ([sep].intercalate ls).map f = [sep].intercalate (ls.map (List.map f)) := by
  induction ls with
  | nil => simp
  | cons l ls ih =>
    cases ls with
    | nil => simp
    | cons l' ls =>
      simp only [List.map_cons, List.intercalate_cons_cons, List.map_append, List.map_nil, hf]
        at ih ⊢
      rw [ih]

/-- Joined pieces hold nothing but the characters of the pieces and the separator. -/
theorem forall_mem_intercalate {P : Char → Prop} (hsep : P sep) {ls : List (List Char)}
    (h : ∀ l ∈ ls, ∀ c ∈ l, P c) : ∀ c ∈ [sep].intercalate ls, P c := by
  induction ls with
  | nil => simp
  | cons l ls ih =>
    obtain ⟨hl, hls⟩ := List.forall_mem_cons.1 h
    cases ls with
    | nil => simpa using hl
    | cons l' ls =>
      simp only [List.intercalate_cons_cons, List.forall_mem_append, List.forall_mem_singleton]
      exact ⟨⟨hl, hsep⟩, ih hls⟩

/-! ## trimming -/

/-- What is trimmed away may be put in front. -/
theorem trim_append_left (h : ∀ c ∈ xs, p c = true) : trim p (xs ++ cs) = trim p cs := by
  rw [trim, trim, List.dropWhile_append_of_pos h]

/-- What is trimmed away may be put behind. -/
theorem trim_append_right (h : ∀ c ∈ xs, p c = true) : trim p (cs ++ xs) = trim p cs := by
  have hrev : ∀ c ∈ xs.reverse, p c = true := fun c hc => h c (List.mem_reverse.1 hc)
  rw [trim, trim, List.dropWhile_append]
  split
  · next hnil =>
    rw [List.isEmpty_iff.1 hnil, List.dropWhile_eq_nil_iff.2 h]
  · rw [List.reverse_append, List.dropWhile_append_of_pos hrev]

/-- Nothing is trimmed from a text that has no character of the class. -/
theorem trim_of_none (h : ∀ c ∈ cs, p c = false) : trim p cs = cs := by
  have hdrop : ∀ ds : List Char, (∀ c ∈ ds, p c = false) → ds.dropWhile p = ds := by
    intro ds hds
    cases ds with
    | nil => rfl
    | cons d ds => simp [hds d List.mem_cons_self]
  rw [trim, hdrop cs h, hdrop _ fun c hc => h c (List.mem_reverse.1 hc), List.reverse_reverse]

/-- Trimming stops at a character that is not trimmed. -/
theorem trim_around (hc : p c = false) :
    trim p (xs ++ c :: ys) = xs.dropWhile p ++ c :: ys.rdropWhile p := by
  have hdrop : ∀ us vs : List Char, (us ++ c :: vs).dropWhile p = us.dropWhile p ++ c :: vs := by
    intro us vs
    rw [List.dropWhile_append]
    split
    · next hnil => simp [List.isEmpty_iff.1 hnil, hc]
    · rfl
  rw [trim, hdrop, List.reverse_append, List.reverse_cons, List.append_assoc, List.singleton_append,
    hdrop]
  simp [List.rdropWhile]

theorem trim_dropWhile : trim p (xs.dropWhile p) = trim p xs := by
  rw [trim, trim, List.dropWhile_idempotent]

theorem trim_rdropWhile : trim p (xs.rdropWhile p) = trim p xs := by
  have hblank : ∀ c ∈ xs.rtakeWhile p, p c = true := fun c hc => List.mem_rtakeWhile_imp hc
  rw [← trim_append_right hblank, List.rdropWhile_append_rtakeWhile]

/-! ## small and capital letters -/

/-- The small form of the character is that of ASCII, wherever it stands. -/
def Simple (c : Char) : Prop :=
  c ≠ 'Σ' ∧ lowerChar c = [c.toLower]

/-- The ASCII characters have simple small forms. -/
theorem simple_of_ascii (h : c.toNat < 0x80) : Simple c := by
  refine ⟨?_, by simp [lowerChar, h]⟩
  rintro rfl
  contradiction

/-- Without characters that depend on their neighbours, the small form is taken one by one. -/
theorem lower_eq_map (h : ∀ c ∈ cs, Simple c) : lower cs = cs.map Char.toLower := by
  have hafter : ∀ before, lowerAfter before cs = cs.map Char.toLower := by
    induction cs with
    | nil => exact fun _ => rfl
    | cons c cs ih =>
      intro before
      obtain ⟨hc, hcs⟩ := List.forall_mem_cons.1 h
      rw [lowerAfter, if_neg hc.1, hc.2, ih hcs]
      rfl
  exact hafter []

/-- The capital form of an ASCII text is taken one by one. -/
theorem upper_eq_map (h : ∀ c ∈ cs, c.toNat < 0x80) : upper cs = cs.map Char.toUpper := by
  induction cs with
  | nil => rfl
  | cons c cs ih =>
    obtain ⟨hc, hcs⟩ := List.forall_mem_cons.1 h
    rw [upper, List.flatMap_cons, ← upper, ih hcs, upperChar, if_pos hc]
    rfl

/-- The blanks beyond ASCII. -/
def wideBlanks : List Nat :=
  [0x85, 0xa0, 0x1680, 0x2028, 0x2029, 0x202f, 0x205f, 0x3000] ++ List.range' 0x2000 11

/-- The blanks outside ASCII are few enough to be listed. -/
theorem mem_wideBlanks (h : isBlank c = true) (hc : ¬ c.toNat < 0x80) : c.toNat ∈ wideBlanks := by
  simp only [isBlank, isSpace, Bool.or_eq_true, Bool.and_eq_true, decide_eq_true_eq] at h
  simp only [wideBlanks, List.mem_append, List.mem_cons, List.not_mem_nil, or_false,
    List.mem_range'_1]
  omega

/-- None of the blanks beyond ASCII has another small form. -/
theorem unmapped_wideBlanks : ∀ n ∈ wideBlanks,
    (specialLower.lookup n).isNone = true ∧ (lowerRanges.find? (·.contains n)).isNone = true := by
  decide +kernel

/-- Blanks have no other small form. -/
theorem toLower_of_isBlank (h : isBlank c = true) : c.toLower = c := by
  refine Char.toLower_eq_of_not_isUpper fun hupper => ?_
  simp only [Char.isUpper, decide_eq_true_eq, ge_iff_le, UInt32.le_iff_toNat_le, Char.reduceVal,
    UInt32.reduceToNat] at hupper
  simp only [isBlank, isSpace, Bool.or_eq_true, Bool.and_eq_true, decide_eq_true_eq,
    Char.toNat] at h
  omega

/-- So blanks in a text do not change how the rest of it becomes small. -/
theorem simple_of_isBlank (h : isBlank c = true) : Simple c := by
  by_cases hc : c.toNat < 0x80
  · exact simple_of_ascii hc
  · obtain ⟨hspecial, hranges⟩ := unmapped_wideBlanks _ (mem_wideBlanks h hc)
    refine ⟨by rintro rfl; contradiction, ?_⟩
    rw [lowerChar, if_neg hc, mapCase, Option.isNone_iff_eq_none.1 hspecial,
      Option.isNone_iff_eq_none.1 hranges, toLower_of_isBlank h]

end Text

/-! ## the names in a table -/

namespace Table

variable {α : Type} {t : Table α} {name key : String} {value : α}

/-- The names that have a value, in order of first entry. -/
def keys (t : Table α) : List String :=
  t.entries.map (·.1)

/-- A name that is entered keeps its place, and goes to the end if it is new. -/
theorem map_fst_insertEntry (es : List (String × α)) :
    (insertEntry name value es).map (·.1) =
      if name ∈ es.map (·.1) then es.map (·.1) else es.map (·.1) ++ [name] := by
  induction es with
  | nil => rfl
  | cons e es ih =>
    by_cases he : e.1 = name
    · simp [insertEntry, he]
    · rw [insertEntry, if_neg he, List.map_cons, ih]
      by_cases hname : name ∈ es.map (·.1)
      · rw [if_pos hname, List.map_cons, if_pos (List.mem_cons_of_mem _ hname)]
      · have hcons : name ∉ (e :: es).map (·.1) :=
          List.not_mem_cons_of_ne_of_not_mem (Ne.symm he) hname
        rw [if_neg hname, if_neg hcons, List.map_cons, List.cons_append]

theorem keys_insert :
    (t.insert name value).keys = if name ∈ t.keys then t.keys else t.keys ++ [name] :=
  map_fst_insertEntry t.entries

/-- The names after an entry are the old ones and the one entered. -/
theorem mem_keys_insert : key ∈ (t.insert name value).keys ↔ key = name ∨ key ∈ t.keys := by
  rw [keys_insert]
  split
  · next hname => exact ⟨.inr, fun h => h.elim (fun heq => heq ▸ hname) id⟩
  · rw [List.mem_append, List.mem_singleton, or_comm]

/-- No name is ever in a table twice. -/
theorem nodup_insert (h : t.keys.Nodup) : (t.insert name value).keys.Nodup := by
  rw [keys_insert]
  split
  · exact h
  · next hname => exact h.append (List.nodup_singleton name) (List.disjoint_singleton.2 hname)

/-- The names in a table are those that can be looked up. -/
theorem mem_keys_iff : key ∈ t.keys ↔ ∃ value, t.get? key = some value := by
  rw [← Option.isSome_iff_exists, get?, List.lookup_isSome_iff, keys, List.mem_map]
  refine exists_congr fun e => and_congr_right fun _ => ?_
  rw [beq_iff_eq, eq_comm]

end Table

namespace Log.Filter

/-! ## written filters -/

/-- The characters of levels and of names of modules. -/
def inWord (c : Char) : Bool :=
  c.isAlphanum || c = '.' || c = '_'

/-- A level or the name of a module, in letters of any case. -/
structure Word where
  chars : List Char
  plain : chars.all inWord = true

/-- Any number of blanks. -/
structure Blanks where
  chars : List Char
  blank : chars.all Text.isBlank = true

/-- A word with blanks around it. -/
structure Padded where
  before : Blanks
  word : Word
  after : Blanks

/-- An entry of a filter: a level, or the level of a module. -/
inductive Entry where
  | bare (level : Word)
  | pair (name level : Word)

/-- A part of a written filter: nothing but blanks, a level, or the level of a module. -/
inductive Part where
  | blank (blanks : Blanks)
  | bare (level : Padded) (nonempty : level.word.chars ≠ [])
  | pair (name level : Padded)

def Padded.chars (w : Padded) : List Char :=
  w.before.chars ++ (w.word.chars ++ w.after.chars)

namespace Part

def chars : Part → List Char
  | .blank blanks => blanks.chars
  | .bare level _ => level.chars
  | .pair name level => name.chars ++ '=' :: level.chars

/-- What a part says. -/
def entry? : Part → Option Entry
  | .blank _ => none
  | .bare level _ => some (.bare level.word)
  | .pair name level => some (.pair name.word level.word)

end Part

/-- The text of a filter that is written in these parts. -/
def written (ps : List Part) : String :=
  ",".intercalate (ps.map fun p => String.ofList p.chars)

/-- The entries of a filter that is written in these parts. -/
def entries (ps : List Part) : List Entry :=
  ps.filterMap Part.entry?

namespace Word

/-- The word in small letters. -/
def lower (w : Word) : String :=
  String.ofList (w.chars.map Char.toLower)

/-- The word in capital letters. -/
def upper (w : Word) : String :=
  String.ofList (w.chars.map Char.toUpper)

/-- What the word stands for as the level of a module. -/
def threshold (w : Word) : Threshold :=
  if w.lower = "false" then .off else .level w.upper

end Word

/-! ## reading the parts -/

section Characters

variable {c : Char}

/-- Where the characters of words are among the code points. -/
theorem range_of_inWord (h : inWord c = true) :
    c = '.' ∨ c = '_' ∨ 0x30 ≤ c.toNat ∧ c.toNat ≤ 0x7a := by
  simp only [inWord, Char.isAlphanum, Char.isAlpha, Char.isUpper, Char.isLower, Char.isDigit,
    Bool.or_eq_true, Bool.and_eq_true, decide_eq_true_eq, ge_iff_le, UInt32.le_iff_toNat_le,
    Char.reduceVal, UInt32.reduceToNat] at h
  obtain (hrange | hdot) | hline := h
  · right
    right
    simp only [Char.toNat]
    omega
  · exact .inl hdot
  · exact .inr (.inl hline)

theorem ascii_of_inWord (h : inWord c = true) : c.toNat < 0x80 := by
  obtain rfl | rfl | hrange := range_of_inWord h
  · decide
  · decide
  · omega

/-- Words have no blanks inside. -/
theorem isBlank_of_inWord (h : inWord c = true) : Text.isBlank c = false := by
  obtain rfl | rfl | hrange := range_of_inWord h
  · decide
  · decide
  · simp only [Text.isBlank, Text.isSpace, Bool.or_eq_false_iff, Bool.and_eq_false_iff,
      decide_eq_false_iff_not]
    omega

/-- Small forms of words are words. -/
theorem inWord_toLower (h : inWord c = true) : inWord c.toLower = true := by
  by_cases hc : c.isUpper = true
  · have halpha : c.toLower.isAlpha = true := by
      rw [Char.isAlpha_toLower_eq_isAlpha, Char.isAlpha, hc, Bool.true_or]
    simp [inWord, Char.isAlphanum, halpha]
  · rwa [Char.toLower_eq_of_not_isUpper hc]

end Characters

theorem Word.inWord_of_mem (w : Word) : ∀ c ∈ w.chars, inWord c = true :=
  List.all_eq_true.1 w.plain

theorem Blanks.isBlank_of_mem (b : Blanks) : ∀ c ∈ b.chars, Text.isBlank c = true :=
  List.all_eq_true.1 b.blank

theorem Word.inWord_lower (w : Word) : ∀ c ∈ w.chars.map Char.toLower, inWord c = true := by
  intro c hc
  obtain ⟨d, hd, rfl⟩ := List.mem_map.1 hc
  exact inWord_toLower (w.inWord_of_mem d hd)

/-- The threshold of a word does not depend on the case in which the word is written. -/
theorem Word.threshold_lower (w : Word) :
    Filter.threshold (w.chars.map Char.toLower) = w.threshold := by
  have hupper : Text.upper (w.chars.map Char.toLower) = w.chars.map Char.toUpper := by
    rw [Text.upper_eq_map fun c hc => ascii_of_inWord (w.inWord_lower c hc), List.map_map]
    exact List.map_congr_left fun c _ => Char.toUpper_toLower_eq_toUpper c
  have hfalse : w.chars.map Char.toLower = "false".toList ↔ w.lower = "false" := by
    simp [Word.lower, ← String.toList_inj]
  simp only [Filter.threshold, Word.threshold, hfalse, hupper, Word.upper]

/-- Blanks stay what they are when a text becomes small. -/
theorem Blanks.lower (b : Blanks) : b.chars.map Char.toLower = b.chars := by
  have hid : ∀ c ∈ b.chars, c.toLower = id c := fun c hc =>
    Text.toLower_of_isBlank (b.isBlank_of_mem c hc)
  rw [List.map_congr_left hid, List.map_id]

namespace Padded

variable (w : Padded)

/-- The small form of a word with blanks around it has the same blanks around it. -/
theorem lower : w.chars.map Char.toLower =
    w.before.chars ++ (w.word.chars.map Char.toLower ++ w.after.chars) := by
  rw [chars, List.map_append, List.map_append, w.before.lower, w.after.lower]

theorem simple : ∀ c ∈ w.chars, Text.Simple c := by
  simp only [chars, List.forall_mem_append]
  exact ⟨fun c hc => Text.simple_of_isBlank (w.before.isBlank_of_mem c hc),
    fun c hc => Text.simple_of_ascii (ascii_of_inWord (w.word.inWord_of_mem c hc)),
    fun c hc => Text.simple_of_isBlank (w.after.isBlank_of_mem c hc)⟩

/-- Blanks around a word do not count. -/
theorem trim_lower :
    Text.trim Text.isBlank (w.chars.map Char.toLower) = w.word.chars.map Char.toLower := by
  rw [w.lower, Text.trim_append_left w.before.isBlank_of_mem,
    Text.trim_append_right w.after.isBlank_of_mem,
    Text.trim_of_none fun c hc => isBlank_of_inWord (w.word.inWord_lower c hc)]

/-- A character that is neither blank nor in a word. -/
theorem not_mem_lower {c : Char} (hword : inWord c = false) (hblank : Text.isBlank c = false) :
    c ∉ w.chars.map Char.toLower := by
  rw [w.lower]
  intro hc
  simp only [List.mem_append] at hc
  obtain hc | hc | hc := hc
  · simp [w.before.isBlank_of_mem c hc] at hblank
  · simp [w.word.inWord_lower c hc] at hword
  · simp [w.after.isBlank_of_mem c hc] at hblank

end Padded

namespace Part

/-- What is left of a part when it is read: small letters, and no blanks at the ends. -/
def core (p : Part) : List Char :=
  Text.trim Text.isBlank (p.chars.map Char.toLower)

theorem simple (p : Part) : ∀ c ∈ p.chars, Text.Simple c := by
  cases p with
  | blank blanks => exact fun c hc => Text.simple_of_isBlank (blanks.isBlank_of_mem c hc)
  | bare level _ => exact level.simple
  | pair name level =>
    simp only [chars, List.forall_mem_append, List.forall_mem_cons]
    exact ⟨name.simple, Text.simple_of_ascii (by decide), level.simple⟩

/-- A part has no comma inside, so it is never cut. -/
theorem comma_not_mem (p : Part) : ',' ∉ p.chars.map Char.toLower := by
  cases p with
  | blank blanks =>
    rw [chars, blanks.lower]
    intro hc
    have := blanks.isBlank_of_mem _ hc
    contradiction
  | bare level _ => exact level.not_mem_lower (by decide) (by decide)
  | pair name level =>
    rw [chars, List.map_append, List.map_cons, List.mem_append, List.mem_cons]
    rintro (hc | hc | hc)
    · exact name.not_mem_lower (by decide) (by decide) hc
    · contradiction
    · exact level.not_mem_lower (by decide) (by decide) hc

end Part

/-- Reading finds the parts again, but for the blanks around them and the empty ones. -/
theorem parts_written (ps : List Part) :
    parts (written ps) = (ps.map Part.core).filter (· ≠ []) := by
  have htext : (written ps).toList = [','].intercalate (ps.map Part.chars) := by
    rw [written, String.toList_intercalate, List.map_map]
    simp [Function.comp_def]
  have hsimple : ∀ c ∈ (written ps).toList, Text.Simple c := by
    rw [htext]
    refine Text.forall_mem_intercalate (Text.simple_of_ascii (by decide)) ?_
    simp only [List.forall_mem_map]
    exact fun p _ => p.simple
  rw [parts, Text.lower_eq_map hsimple, htext, Text.map_intercalate (by decide),
    Text.pieces_eq_splitOn]
  cases ps with
  | nil =>
    -- The empty text has one piece, which is passed over.
    rfl
  | cons p ps =>
    rw [List.splitOn_intercalate]
    · rw [List.map_map, List.map_map]
      rfl
    · simp only [List.forall_mem_map]
      exact fun q _ => q.comma_not_mem
    · simp

/-! ## taking up the entries -/

/-- Takes an entry into account: a later one replaces an earlier one. -/
def enter (f : Filter) : Entry → Filter
  | .bare level => { f with level := level.lower }
  | .pair name level => { f with modules := f.modules.insert name.lower level.threshold }

/-- Of a part that is all blank nothing is left. -/
theorem core_blank (blanks : Blanks) : (Part.blank blanks).core = [] := by
  rw [Part.core, Part.chars, blanks.lower, ← List.nil_append blanks.chars,
    Text.trim_append_right blanks.isBlank_of_mem]
  rfl

/-- A bare word is read as the entry that it is meant to be. -/
theorem add_bare (f : Filter) (level : Padded) (h : level.word.chars ≠ []) :
    (Part.bare level h).core ≠ [] ∧
      f.add (Part.bare level h).core = f.enter (.bare level.word) := by
  rw [Part.core, Part.chars, level.trim_lower]
  refine ⟨by simpa using h, ?_⟩
  have hpieces : Text.pieces '=' (level.word.chars.map Char.toLower) =
      [level.word.chars.map Char.toLower] := by
    rw [Text.pieces_eq_splitOn, List.splitOn_eq_singleton]
    intro hc
    have := level.word.inWord_lower _ hc
    contradiction
  simp only [add, hpieces]
  rfl

/-- A pair is read as the entry that it is meant to be, with the blanks around the sign taken off.
-/
theorem add_pair (f : Filter) (name level : Padded) :
    (Part.pair name level).core ≠ [] ∧
      f.add (Part.pair name level).core = f.enter (.pair name.word level.word) := by
  -- Trimming the part leaves the blanks next to the equals sign; they go with those of the sides.
  have hcore : (Part.pair name level).core =
      (name.chars.map Char.toLower).dropWhile Text.isBlank ++
        '=' :: (level.chars.map Char.toLower).rdropWhile Text.isBlank := by
    rw [Part.core, Part.chars, List.map_append, List.map_cons]
    exact Text.trim_around (by decide)
  have hname : '=' ∉ (name.chars.map Char.toLower).dropWhile Text.isBlank := fun h =>
    name.not_mem_lower (by decide) (by decide) ((List.dropWhile_suffix _).subset h)
  have hlevel : '=' ∉ (level.chars.map Char.toLower).rdropWhile Text.isBlank := fun h =>
    level.not_mem_lower (by decide) (by decide) ((List.rdropWhile_prefix _ _).subset h)
  have hpieces : Text.pieces '=' (Part.pair name level).core =
      [(name.chars.map Char.toLower).dropWhile Text.isBlank,
        (level.chars.map Char.toLower).rdropWhile Text.isBlank] := by
    rw [hcore, Text.pieces_eq_splitOn, List.splitOn_append_cons_self_of_not_mem hname,
      List.splitOn_eq_singleton hlevel]
  refine ⟨by simp [hcore], ?_⟩
  simp only [add, hpieces, Text.join, Text.trim_dropWhile, Text.trim_rdropWhile, name.trim_lower,
    level.trim_lower, Word.threshold_lower]
  rfl

/-- Reading a written filter takes up its entries one after another. -/
theorem foldl_add_parts (ps : List Part) (f : Filter) :
    (parts (written ps)).foldl add f = (entries ps).foldl enter f := by
  rw [parts_written]
  induction ps generalizing f with
  | nil => rfl
  | cons p ps ih =>
    cases p with
    | blank blanks =>
      rw [List.map_cons, core_blank]
      exact ih f
    | bare level h =>
      obtain ⟨hne, hadd⟩ := add_bare f level h
      rw [List.map_cons, List.filter_cons_of_pos (by simpa using hne), List.foldl_cons, hadd, ih]
      rfl
    | pair name level =>
      obtain ⟨hne, hadd⟩ := add_pair f name level
      rw [List.map_cons, List.filter_cons_of_pos (by simpa using hne), List.foldl_cons, hadd, ih]
      rfl

/-! ## what the entries mean -/

/-- A filter with these entries: the last bare level is the general one, each module has the level
of its last entry, and the empty name stands for all other modules. Names and the general level are
in small letters, the levels of modules in capital ones. -/
structure Reads (es : List Entry) (f : Filter) : Prop where
  level : ∀ (before : List Entry) (level : Word) (after : List Entry),
    es = before ++ .bare level :: after → (∀ other : Word, .bare other ∉ after) →
    f.level = level.lower
  noLevel : (∀ level : Word, .bare level ∉ es) → f.level = "info"
  nodup : f.modules.keys.Nodup
  mem_keys : ∀ key : String, key ∈ f.modules.keys ↔
    key = "" ∨ ∃ name level : Word, .pair name level ∈ es ∧ key = name.lower
  threshold : ∀ (before : List Entry) (name level : Word) (after : List Entry),
    es = before ++ .pair name level :: after →
    (∀ other level' : Word, .pair other level' ∈ after → other.lower ≠ name.lower) →
    f.modules.get? name.lower = some level.threshold
  others : (∀ name level : Word, .pair name level ∈ es → name.chars ≠ []) →
    f.modules.get? "" = some (.level (String.ofList (f.level.toList.map Char.toUpper)))

section Run

variable {es : List Entry} {e : Entry} {f : Filter} {key : String}

/-- The general level changes only at bare words. -/
theorem level_foldl_enter (h : ∀ level, .bare level ∉ es) : (es.foldl enter f).level = f.level := by
  induction es generalizing f with
  | nil => rfl
  | cons e es ih =>
    rw [List.foldl_cons, ih fun level hl => h level (List.mem_cons_of_mem e hl)]
    cases e with
    | bare level => exact absurd List.mem_cons_self (h level)
    | pair name level => rfl

/-- The threshold of a module changes only at pairs that name it. -/
theorem get?_foldl_enter (h : ∀ name level, .pair name level ∈ es → name.lower ≠ key) :
    (es.foldl enter f).modules.get? key = f.modules.get? key := by
  induction es generalizing f with
  | nil => rfl
  | cons e es ih =>
    rw [List.foldl_cons, ih fun name level hl => h name level (List.mem_cons_of_mem e hl)]
    cases e with
    | bare level => rfl
    | pair name level =>
      rw [enter, Table.get?_insert, if_neg (h name level List.mem_cons_self).symm]

/-- What holds of a filter while its entries are taken up: names are keys once, and the general
level is in ASCII. -/
structure Sound (f : Filter) : Prop where
  nodup : f.modules.keys.Nodup
  ascii : ∀ c ∈ f.level.toList, c.toNat < 0x80

/-- An entry keeps the table sound. -/
theorem Sound.enter (h : f.Sound) (e : Entry) : (f.enter e).Sound := by
  cases e with
  | bare level =>
    refine ⟨h.nodup, fun c hc => ?_⟩
    rw [Filter.enter, Word.lower, String.toList_ofList] at hc
    exact ascii_of_inWord (level.inWord_lower c hc)
  | pair name level => exact ⟨Table.nodup_insert h.nodup, h.ascii⟩

theorem Sound.foldl (h : f.Sound) : (es.foldl Filter.enter f).Sound := by
  induction es generalizing f with
  | nil => exact h
  | cons e es ih => exact ih (h.enter e)

/-- The modules with a threshold are those that some pair names. -/
theorem mem_keys_foldl : key ∈ (es.foldl enter f).modules.keys ↔
    key ∈ f.modules.keys ∨ ∃ name level, .pair name level ∈ es ∧ key = name.lower := by
  induction es generalizing f with
  | nil => simp
  | cons e es ih =>
    rw [List.foldl_cons, ih]
    cases e with
    | bare level => simp [enter]
    | pair name level =>
      simp only [enter, Table.mem_keys_insert, List.mem_cons, Entry.pair.injEq]
      grind

end Run

section Complete

variable {f : Filter} {key : String}

theorem level_complete : f.complete.level = f.level := by
  unfold complete
  split <;> rfl

/-- Completing a filter changes no threshold that is there. -/
theorem get?_complete_of_some {t : Threshold} (h : f.modules.get? key = some t) :
    f.complete.modules.get? key = some t := by
  unfold complete
  split
  · exact h
  · next hnone =>
    have hne : key ≠ "" := by
      rintro rfl
      rw [hnone] at h
      contradiction
    rw [Table.get?_insert, if_neg hne, h]

/-- A filter without a threshold for all modules gets the general level as one. -/
theorem get?_complete_of_none (h : f.modules.get? "" = none) :
    f.complete.modules.get? "" =
      some (.level (String.ofList (Text.upper f.level.toList))) := by
  simp only [complete, h, Table.get?_insert, if_true]

theorem nodup_complete (h : f.modules.keys.Nodup) : f.complete.modules.keys.Nodup := by
  unfold complete
  split
  · exact h
  · exact Table.nodup_insert h

/-- Completing a filter adds the module that stands for all, and no other. -/
theorem mem_keys_complete : key ∈ f.complete.modules.keys ↔ key = "" ∨ key ∈ f.modules.keys := by
  unfold complete
  split
  · next t ht =>
    have hmem : "" ∈ f.modules.keys := Table.mem_keys_iff.2 ⟨t, ht⟩
    exact ⟨.inr, fun h => h.elim (fun heq => heq ▸ hmem) id⟩
  · exact Table.mem_keys_insert

end Complete

/-- The entries that count are the last ones: those after them say nothing of the same name. -/
theorem reads_complete (es : List Entry) :
    Reads es (es.foldl enter ⟨defaultLevel, ∅⟩).complete := by
  have hsound : (es.foldl enter ⟨defaultLevel, ∅⟩).Sound :=
    Sound.foldl ⟨List.nodup_nil, by simp [defaultLevel]⟩
  constructor
  · rintro before level after rfl hafter
    rw [level_complete, List.foldl_append, List.foldl_cons, level_foldl_enter hafter]
    rfl
  · intro hnone
    rw [level_complete, level_foldl_enter hnone]
    rfl
  · exact nodup_complete hsound.nodup
  · intro key
    rw [mem_keys_complete, mem_keys_foldl]
    exact or_congr_right ⟨fun h => h.resolve_left List.not_mem_nil, .inr⟩
  · rintro before name level after rfl hafter
    apply get?_complete_of_some
    rw [List.foldl_append, List.foldl_cons, get?_foldl_enter hafter, enter, Table.get?_insert,
      if_pos rfl]
  · intro hnames
    have hnone : (es.foldl enter ⟨defaultLevel, ∅⟩).modules.get? "" = none := by
      rw [get?_foldl_enter]
      · rfl
      · intro name level hmem heq
        refine hnames name level hmem ?_
        simpa [Word.lower] using heq
    rw [get?_complete_of_none hnone, level_complete, Text.upper_eq_map hsound.ascii]

/-- A written filter is read back, whether it is asked for or set from outside. -/
theorem read_written (ps : List Part) (value setting : Option String)
    (h : (value <|> setting) = some (written ps)) : Reads (entries ps) (read value setting) := by
  rw [read, h, Option.getD_some, parse, foldl_add_parts]
  exact reads_complete (entries ps)

/-- A filter with blank parts, blanks beyond ASCII, and a module that is written in two ways. -/
def respelledModule : List Part :=
  [ .pair ⟨⟨" ".toList, rfl⟩, ⟨"Lambda.Core".toList, rfl⟩, ⟨[], rfl⟩⟩
      ⟨⟨" ".toList, rfl⟩, ⟨"Debug".toList, rfl⟩, ⟨['\t'], rfl⟩⟩,
    .blank ⟨[], rfl⟩,
    .bare ⟨⟨['\u00a0'], rfl⟩, ⟨"WARNING".toList, rfl⟩, ⟨[], rfl⟩⟩ (by decide),
    .blank ⟨['\u3000', ' '], rfl⟩,
    .pair ⟨⟨[], rfl⟩, ⟨"lambda.CORE".toList, rfl⟩, ⟨" ".toList, rfl⟩⟩
      ⟨⟨[], rfl⟩, ⟨"False".toList, rfl⟩, ⟨[], rfl⟩⟩,
    .bare ⟨⟨[], rfl⟩, ⟨"Error".toList, rfl⟩, ⟨" ".toList, rfl⟩⟩ (by decide) ]

/-- The last spelling of the module counts, and so does the last bare word. -/
theorem read_written_respelledModule :
    written respelledModule =
        " Lambda.Core= Debug\t,,\u00a0WARNING,\u3000 ,lambda.CORE =False,Error " ∧
      Reads (entries respelledModule) (read none (some (written respelledModule))) ∧
      (read none (some (written respelledModule))).level = "error" ∧
      (read none (some (written respelledModule))).modules.get? "lambda.core" = some .off ∧
      (read none (some (written respelledModule))).modules.get? "" = some (.level "ERROR") := by
  have hreads := read_written respelledModule none (some (written respelledModule)) rfl
  have hlevel : (read none (some (written respelledModule))).level = "error" :=
    hreads.level [_, _, _] ⟨"Error".toList, rfl⟩ [] rfl fun _ => List.not_mem_nil
  refine ⟨by decide +kernel, hreads, hlevel, ?_, ?_⟩
  · exact hreads.threshold [_, _] ⟨"lambda.CORE".toList, rfl⟩ ⟨"False".toList, rfl⟩ [_] rfl
      (by simp)
  · have hnames : ∀ name level, .pair name level ∈ entries respelledModule → name.chars ≠ [] := by
      intro name level hmem
      simp only [entries, respelledModule, Part.entry?, List.filterMap_cons, List.filterMap_nil,
        List.mem_cons, List.not_mem_nil, Entry.pair.injEq, reduceCtorEq, false_or, or_false] at hmem
      obtain ⟨rfl, -⟩ | ⟨rfl, -⟩ := hmem <;> decide
    rw [hreads.others hnames, hlevel]
    rfl

end Log.Filter

end PolyLambda
