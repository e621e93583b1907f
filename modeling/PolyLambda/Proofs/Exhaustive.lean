import PolyLambda.Proofs.Arms

/-!
# PolyLambda.Proofs.Exhaustive

The check of case arms against its meaning. The check goes through the arms once, with a list of
labels that are covered, a mark for an arm that catches all, and a comparison of two lengths. What
it decides is said here without any of these: each label is taken by some arm, each arm is the
first to take some label, and payload patterns have the shape of payload types.

The variables of a pattern have addresses, and the type that a variable is bound to is the one that
stands at its address in the variant.

* `Pattern.Suits` and `Pattern.Admissible`: the patterns that a variant can be taken apart with.
* `Pattern.addresses` and `Ty.at?`: where the variables of a pattern stand, and the types there.
* `Coverage.check_accepts`: the check accepts exactly the arm lists that are exhaustive and in which
  no arm is redundant, and answers with the types at the addresses.
-/

namespace PolyLambda

variable {fields : List (Field Ty)}

/-! ## addresses -/

/-- A step from a type to one of its parts: to the payload of a label, or to a component. -/
inductive Selector where
  | payload (label : String)
  | item (index : Nat)

namespace Ty

/-- The part of a type that a step leads to. -/
def part? : Ty → Selector → Option Ty
  | .variant fields, .payload label => fieldAt fields label
  | .product items, .item i => items[i]?
  | _, _ => none

/-- The type that stands at an address. -/
def at? (T : Ty) : List Selector → Option Ty
  | [] => some T
  | s :: address => (T.part? s).bind fun U => U.at? address

end Ty

namespace Pattern

mutual
/-- The addresses of the variables of a pattern, from left to right. -/
def addresses : Pattern → List (List Selector)
  | .wild => []
  | .bind => [[]]
  | .product items => itemAddresses 0 items
  | .con label payload => payload.addresses.map (.payload label :: ·)

/-- The addresses of the variables in components of a product pattern, which are counted on from
`k`. -/
def itemAddresses : Nat → List Pattern → List (List Selector)
  | _, [] => []
  | k, p :: ps => p.addresses.map (.item k :: ·) ++ itemAddresses (k + 1) ps
end

/-- A payload pattern has the shape of a payload type: it is made of wildcards, variables and
product patterns, and each of these has as many components as the product it meets. -/
inductive Suits : Pattern → Ty → Prop where
  | wild {T : Ty} : Suits .wild T
  | bind {T : Ty} : Suits .bind T
  | product {ps : List Pattern} {Ts : List Ty} (hlen : ps.length = Ts.length)
      (h : ∀ p T, (p, T) ∈ ps.zip Ts → Suits p T) : Suits (.product ps) (.product Ts)

/-- The pattern of an arm catches all labels, or names a declared one with a pattern that suits its
payload. -/
inductive Admissible (fields : List (Field Ty)) : Pattern → Prop where
  | wild : Admissible fields .wild
  | bind : Admissible fields .bind
  | con {label : String} {payload : Pattern} {T : Ty} (hl : ⟨label, T⟩ ∈ fields)
      (h : Suits payload T) : Admissible fields (.con label payload)

/-! ## what patterns bind -/

variable {p : Pattern} {ps : List Pattern} {T : Ty} {Ts Us : List Ty}

theorem Binds.suits (h : Binds Eq ps Ts Us) : List.Forall₂ Suits ps Ts := by
  induction h with
  | nil => exact .nil
  | wild _ ih => exact .cons .wild ih
  | bind _ ih => exact .cons .bind ih
  | product hT _ _ ihqs ih =>
    obtain ⟨hlen, hzip⟩ := List.forall₂_iff_zip.1 ihqs
    rw [hT]
    exact .cons (.product hlen fun p T hpT => hzip hpT) ih

theorem exists_binds_items (hlen : ps.length = Ts.length)
    (h : ∀ p T, (p, T) ∈ ps.zip Ts → ∃ Us, Binds Eq [p] [T] Us) : ∃ Us, Binds Eq ps Ts Us := by
  induction ps generalizing Ts with
  | nil =>
    obtain rfl := List.eq_nil_of_length_eq_zero hlen.symm
    exact ⟨[], .nil⟩
  | cons p ps ih =>
    obtain ⟨T, Ts, rfl⟩ := List.exists_cons_of_length_eq_add_one hlen.symm
    obtain ⟨As, hAs⟩ := h p T (by simp)
    obtain ⟨Bs, hBs⟩ := ih (by simpa using hlen) fun q U hqU => h q U (by simp [hqU])
    exact ⟨As ++ Bs, binds_cons.2 ⟨As, Bs, hAs, hBs, rfl⟩⟩

theorem Suits.exists_binds (h : p.Suits T) : ∃ Us, Binds Eq [p] [T] Us := by
  induction h with
  | wild => exact ⟨[], .wild .nil⟩
  | bind => exact ⟨_, .bind .nil⟩
  | product hlen _ ih =>
    obtain ⟨Us, hUs⟩ := exists_binds_items hlen ih
    exact ⟨Us ++ [], .product rfl hUs .nil⟩

/-- A pattern opens the variant exactly if it is admissible. -/
theorem exists_opens_iff : (∃ Us, p.Opens Eq fields Us) ↔ p.Admissible fields := by
  constructor
  · rintro ⟨Us, h⟩
    cases h with
    | wild => exact .wild
    | bind => exact .bind
    | con hl hb => exact .con hl (List.forall₂_cons.1 hb.suits).1
  · intro h
    cases h with
    | wild => exact ⟨[], .wild⟩
    | bind => exact ⟨_, .bind⟩
    | con hl h =>
      obtain ⟨Us, hUs⟩ := h.exists_binds
      exact ⟨Us, .con hl hUs⟩

/-- The addresses in a component are taken from that component. -/
theorem map_itemAddresses_cons (before : List Ty) :
    (itemAddresses before.length (p :: ps)).map (Ty.product (before ++ T :: Ts)).at? =
      p.addresses.map T.at? ++
        (itemAddresses (before ++ [T]).length ps).map (Ty.product (before ++ [T] ++ Ts)).at? := by
  rw [itemAddresses, List.map_append, List.map_map, List.append_assoc, List.singleton_append,
    List.length_append, List.length_singleton]
  congr 1
  refine List.map_congr_left fun address _ => ?_
  simp [Ty.at?, Ty.part?]

/-- What patterns bind in components of a product stands at their addresses. -/
theorem Binds.at_addresses (h : Binds Eq ps Ts Us) (before : List Ty) :
    Us.map some = (itemAddresses before.length ps).map (Ty.product (before ++ Ts)).at? := by
  induction h generalizing before with
  | nil => rfl
  | wild _ ih => rw [map_itemAddresses_cons, ← ih, addresses, List.map_nil, List.nil_append]
  | bind _ ih =>
    rw [map_itemAddresses_cons, ← ih, addresses, List.map_cons]
    rfl
  | product hT _ _ ihqs ih =>
    rw [map_itemAddresses_cons, ← ih, addresses, hT, List.map_append, ihqs []]
    rfl

theorem Binds.at_payload (h : Binds Eq [p] [T] Us) : Us.map some = p.addresses.map T.at? := by
  rw [h.at_addresses [], List.nil_append]
  exact (map_itemAddresses_cons []).trans (List.append_nil _)

/-- What a pattern binds when it opens a variant stands at its addresses. -/
theorem Opens.at_addresses (hwf : (Ty.variant fields).WellFormed) (h : p.Opens Eq fields Us) :
    Us.map some = p.addresses.map (Ty.variant fields).at? := by
  cases h with
  | wild => rfl
  | bind => rfl
  | @con label payload T _ hl hb =>
    have hfield := (Coverage.field?_eq_some hwf).2 hl
    have hpart : (Ty.variant fields).part? (.payload label) = some T :=
      (Option.filter_eq_some_iff.1 hfield).1
    rw [hb.at_payload, addresses, List.map_map]
    refine List.map_congr_left fun address _ => ?_
    rw [Function.comp_apply, Ty.at?, hpart, Option.bind_some]

end Pattern

/-! ## first arms -/

/-- A pattern is of use exactly if it is the first to take some label. -/
theorem Pattern.useful_iff {labels : List String} {before after : List Pattern} {p : Pattern} :
    p.Useful labels before ↔ ∃ label ∈ labels,
      (before ++ p :: after).findIdx? (·.takes label) = some before.length := by
  refine exists_congr fun label => and_congr_right fun _ => ?_
  rw [List.findIdx?_append, List.findIdx?_cons]
  cases h : before.findIdx? (·.takes label) with
  | none =>
    have hopen : ∀ q ∈ before, q.takes label = false := List.findIdx?_eq_none_iff.1 h
    cases hp : p.takes label with
    | true => simpa using hopen
    | false =>
      simp only [Bool.false_eq_true, if_false, false_and, false_iff, Option.none_or,
        Option.map_eq_some_iff]
      rintro ⟨_, ⟨j, -, rfl⟩, hj⟩
      omega
  | some i =>
    obtain ⟨hi, htaken, -⟩ := List.findIdx?_eq_some_iff_getElem.1 h
    have hne : i ≠ before.length := by omega
    have hclosed : ¬ ∀ q ∈ before, q.takes label = false := fun hopen => by
      simp [hopen _ (List.getElem_mem hi)] at htaken
    simp [hne, hclosed]

theorem forall_useful_iff (labels : List String) (ps : List Pattern) :
    (∀ before p after, ps = before ++ p :: after → p.Useful labels before) ↔
      ∀ i < ps.length, ∃ label ∈ labels, ps.findIdx? (·.takes label) = some i := by
  constructor
  · intro h i hi
    have hsplit : ps = ps.take i ++ ps[i] :: ps.drop (i + 1) := by simp
    obtain ⟨label, hl, hfirst⟩ := Pattern.useful_iff.1 (h _ _ _ hsplit)
    rw [← hsplit, List.length_take_of_le (Nat.le_of_lt hi)] at hfirst
    exact ⟨label, hl, hfirst⟩
  · rintro h before p after rfl
    exact Pattern.useful_iff.2 (h before.length (by simp))

/-- Coverage, said of the arms. -/
theorem covers_iff {labels : List String} {arms : List (Arm Term)} :
    Covers labels (arms.map (·.pattern)) ↔
      arms ≠ [] ∧ (∀ label ∈ labels, ∃ arm ∈ arms, arm.pattern.takes label = true) ∧
        ∀ i < arms.length, ∃ label ∈ labels,
          arms.findIdx? (·.pattern.takes label) = some i := by
  have hfirst : ∀ label, (arms.map (·.pattern)).findIdx? (·.takes label) =
      arms.findIdx? (·.pattern.takes label) := fun label => by
    rw [List.findIdx?_map]
    rfl
  have hall := forall_useful_iff labels (arms.map (·.pattern))
  simp only [List.length_map, hfirst] at hall
  rw [← hall]
  constructor
  · intro h
    exact ⟨by simpa using h.nonempty, by simpa using h.exhaustive, h.useful⟩
  · rintro ⟨hne, hex, huse⟩
    exact ⟨by simpa using hne, by simpa using hex, huse⟩

theorem exists_forall₂_iff {α β : Type} {R : α → β → Prop} {xs : List α} :
    (∃ ys, List.Forall₂ R xs ys) ↔ ∀ x ∈ xs, ∃ y, R x y := by
  induction xs with
  | nil => simp
  | cons x xs ih =>
    rw [List.forall_mem_cons, ← ih]
    constructor
    · rintro ⟨_, h⟩
      obtain ⟨y, ys, hy, hys, rfl⟩ := List.forall₂_cons_left_iff.1 h
      exact ⟨⟨y, hy⟩, ys, hys⟩
    · rintro ⟨⟨y, hy⟩, ys, hys⟩
      exact ⟨y :: ys, .cons hy hys⟩

namespace Coverage

/-- The check succeeds exactly if there is an arm, each arm is admissible, each label is taken by
some arm, and each arm is the first to take some label. Then it gives for each arm the types that
stand at the addresses of the variables of its pattern, from left to right. -/
theorem check_accepts (hwf : (Ty.variant fields).WellFormed) (span : Option Span)
    (arms : List (Arm Term)) :
    ((∃ bound, check fields span arms = .ok bound) ↔
      arms ≠ [] ∧ (∀ arm ∈ arms, arm.pattern.Admissible fields) ∧
        (∀ label ∈ Ty.labels fields, ∃ arm ∈ arms, arm.pattern.takes label = true) ∧
        ∀ i < arms.length, ∃ label ∈ Ty.labels fields,
          arms.findIdx? (·.pattern.takes label) = some i) ∧
      ∀ bound, check fields span arms = .ok bound →
        bound.map (List.map some) =
          arms.map fun arm => arm.pattern.addresses.map (Ty.variant fields).at? := by
  constructor
  · simp only [check_eq_ok hwf, exists_and_left, covers_iff, exists_forall₂_iff,
      Pattern.exists_opens_iff]
    tauto
  · intro bound h
    obtain ⟨-, hopens⟩ := (check_eq_ok hwf).1 h
    have heq : List.Forall₂ Eq (bound.map (List.map some))
        (arms.map fun arm => arm.pattern.addresses.map (Ty.variant fields).at?) := by
      rw [List.forall₂_map_left_iff, List.forall₂_map_right_iff]
      exact hopens.flip.imp fun Us arm ho => ho.at_addresses hwf
    rwa [List.forall₂_eq_eq_eq] at heq

/-- A tree: a leaf, a node with a number and two subtrees, or a place where one was cut off. -/
def tree : List (Field Ty) :=
  [⟨"leaf", .unit⟩, ⟨"node", .product [.nat, .product [.var 0, .var 0]]⟩, ⟨"cut", .bool⟩]

/-- An arm for nodes that binds the number and the second subtree, and one for all the rest. -/
def nodeFirst : List (Arm Term) :=
  [⟨.con "node" (.product [.bind, .product [.wild, .bind]]), .var 0 none, none⟩,
    ⟨.bind, .var 0 none, none⟩]

/-- The second arm is the first to take two of the labels, and binds the whole variant. -/
theorem check_accepts_tree :
    (Ty.variant tree).WellFormed ∧
      (∀ i < 2, ∃ label ∈ Ty.labels tree, nodeFirst.findIdx? (·.pattern.takes label) = some i) ∧
      check tree none nodeFirst = .ok [[.nat, .var 0], [.variant tree]] ∧
      ([[.nat, .var 0], [.variant tree]] : List (List Ty)).map (List.map some) =
        nodeFirst.map fun arm => arm.pattern.addresses.map (Ty.variant tree).at? := by
  have hwf : (Ty.variant tree).WellFormed := (Ty.shift_ok (n := 4) (k := 0) rfl).1
  have hcheck : check tree none nodeFirst = .ok [[.nat, .var 0], [.variant tree]] := rfl
  obtain ⟨hiff, hbound⟩ := check_accepts hwf none nodeFirst
  exact ⟨hwf, (hiff.1 ⟨_, hcheck⟩).2.2.2, hcheck, hbound _ hcheck⟩

end Coverage

end PolyLambda
