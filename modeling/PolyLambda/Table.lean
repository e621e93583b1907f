/-!
# PolyLambda.Table

Tables from names to values. A table remembers the order in which names were first entered;
entering a name again changes its value and keeps its place.

Main statement: `Table.get?_insert` (the last value entered is the one found).
-/

namespace PolyLambda

/-- A table, as its entries in order of first entry. -/
structure Table (α : Type) where
  entries : List (String × α)
  deriving DecidableEq

namespace Table

/-- The table without entries. -/
def empty : Table α := ⟨[]⟩

instance : EmptyCollection (Table α) := ⟨empty⟩
instance : Inhabited (Table α) := ⟨empty⟩

/-- Puts a value at its name's place, or at the end if the name is new. -/
def insertEntry (name : String) (value : α) : List (String × α) → List (String × α)
  | [] => [(name, value)]
  | (key, old) :: rest =>
    if key = name then (name, value) :: rest else (key, old) :: insertEntry name value rest

/-- Enters a value under a name. -/
def insert (t : Table α) (name : String) (value : α) : Table α :=
  ⟨insertEntry name value t.entries⟩

/-- The value of a name. -/
def get? (t : Table α) (name : String) : Option α :=
  t.entries.lookup name

/-- Enters the pairs of a list one after another. -/
def ofList (pairs : List (String × α)) : Table α :=
  pairs.foldl (fun t p => t.insert p.1 p.2) ∅

/-- The entries sorted by name. -/
def sorted (t : Table α) : List (String × α) :=
  t.entries.mergeSort fun a b => decide (a.1 ≤ b.1)

/-- The last value entered is the one found, and other names keep theirs. -/
theorem get?_insert (t : Table α) (name key : String) (value : α) :
    (t.insert name value).get? key = if key = name then some value else t.get? key := by
  obtain ⟨entries⟩ := t
  simp only [get?, insert]
  induction entries with
  | nil => by_cases h : key = name <;> simp [insertEntry, h]
  | cons e rest ih =>
    obtain ⟨k, v⟩ := e
    by_cases h : k = name
    · subst h
      by_cases hk : key = k
      · simp [insertEntry, hk]
      · simp [insertEntry, List.lookup_cons, hk, beq_false_of_ne hk]
    · by_cases hk : key = k
      · subst hk
        simp [insertEntry, h]
      · simp [insertEntry, h, List.lookup_cons, beq_false_of_ne hk, ih]

end Table

end PolyLambda
