import Mathlib.Data.List.Perm.Subperm
import PolyLambda.Coverage
import PolyLambda.Proofs.Confluence

/-!
# PolyLambda.Proofs.Arms

The arms of a case, as the typing rules see them. A pattern at the top of an arm takes one
label or every label. A list of arms covers a variant if each label is taken and each arm is
the first to take some label. The variables of an arm have the types that the pattern meets
when it takes the payload apart.

* `Covers` and `Pattern.Opens` say this without running through the arms.
* `Coverage.check_eq_ok`: the check accepts exactly the arms that cover the variant and open it,
  and gives the types that they bind. It rests on `Coverage.Tracks`, which says what the
  progress of the check means, and which one arm preserves (`Coverage.step_ok`).
* `Pattern.Opens.of_conv`: what a pattern binds, it binds up to conversion on any resolved form
  of the variant.
-/

namespace PolyLambda

open Ty

variable {aliases : Aliases} {fields : List (Field Ty)}

/-! ## what a pattern takes -/

namespace Pattern

/-- Whether a pattern at the top of an arm takes this label. -/
def takes : Pattern → String → Bool
  | .wild, _ => true
  | .bind, _ => true
  | .product _, _ => false
  | .con l _, label => l = label

/-- A constructor pattern takes its own label only. -/
theorem takes_con {l label : String} {payload : Pattern} :
    (Pattern.con l payload).takes label = true ↔ label = l := by
  simp [takes, eq_comm]

/-- Some label is taken by `p` and by no pattern before it. -/
def Useful (labels : List String) (before : List Pattern) (p : Pattern) : Prop :=
  ∃ label ∈ labels, p.takes label = true ∧ ∀ q ∈ before, q.takes label = false

/-- The patterns `ps` take the types `Ts` apart, and `Us` are the types at their variables, from
left to right. The relation says which types may be taken for a product; a constructor stands
only at the top of an arm. -/
inductive Binds (R : Ty → Ty → Prop) : List Pattern → List Ty → List Ty → Prop where
  | nil : Binds R [] [] []
  | wild {ps : List Pattern} {T : Ty} {Ts Us : List Ty} (h : Binds R ps Ts Us) :
      Binds R (.wild :: ps) (T :: Ts) Us
  | bind {ps : List Pattern} {T : Ty} {Ts Us : List Ty} (h : Binds R ps Ts Us) :
      Binds R (.bind :: ps) (T :: Ts) (T :: Us)
  | product {ps qs : List Pattern} {T : Ty} {Ts Us Vs Ws : List Ty} (hT : R T (.product Vs))
      (hqs : Binds R qs Vs Ws) (h : Binds R ps Ts Us) :
      Binds R (.product qs :: ps) (T :: Ts) (Ws ++ Us)

/-- The pattern of an arm opens the variant with these alternatives, and `Us` are the types at
its variables. -/
inductive Opens (R : Ty → Ty → Prop) (fields : List (Field Ty)) : Pattern → List Ty → Prop where
  | wild : Opens R fields .wild []
  | bind : Opens R fields .bind [.variant fields]
  | con {label : String} {payload : Pattern} {T : Ty} {Us : List Ty} (hl : ⟨label, T⟩ ∈ fields)
      (h : Binds R [payload] [T] Us) : Opens R fields (.con label payload) Us

/-- Patterns that bind with respect to a relation bind with respect to a weaker one. -/
theorem Binds.mono {R S : Ty → Ty → Prop} (hRS : ∀ T U, R T U → S T U) {ps : List Pattern}
    {Ts Us : List Ty} (h : Binds R ps Ts Us) : Binds S ps Ts Us := by
  induction h with
  | nil => exact .nil
  | wild _ ih => exact .wild ih
  | bind _ ih => exact .bind ih
  | product hT _ _ ihqs ih => exact .product (hRS _ _ hT) ihqs ih

/-- So do the patterns of arms. -/
theorem Opens.mono {R S : Ty → Ty → Prop} (hRS : ∀ T U, R T U → S T U) {p : Pattern}
    {Us : List Ty} (h : Opens R fields p Us) : Opens S fields p Us := by
  cases h with
  | wild => exact .wild
  | bind => exact .bind
  | con hl h => exact .con hl (h.mono hRS)

/-- What holds of types that are taken apart holds of the types at the variables, if it goes from
products to their components. -/
theorem Binds.forall {Q : Ty → Prop} (hprod : ∀ Vs, Q (.product Vs) → ∀ V ∈ Vs, Q V)
    {ps : List Pattern} {Ts Us : List Ty} (h : Binds Eq ps Ts Us) (hTs : ∀ T ∈ Ts, Q T) :
    ∀ U ∈ Us, Q U := by
  induction h with
  | nil => simp
  | wild _ ih => exact ih (List.forall_mem_cons.1 hTs).2
  | bind _ ih =>
    obtain ⟨hT, hTs⟩ := List.forall_mem_cons.1 hTs
    exact List.forall_mem_cons.2 ⟨hT, ih hTs⟩
  | product hT _ _ ihqs ih =>
    obtain ⟨hT', hTs⟩ := List.forall_mem_cons.1 hTs
    rw [hT] at hT'
    exact List.forall_mem_append.2 ⟨ihqs (hprod _ hT'), ih hTs⟩

/-- What holds of a variant and its fields, and passes from products to components, holds of the
types of all variables. -/
theorem Opens.forall {Q : Ty → Prop} (hprod : ∀ Vs, Q (.product Vs) → ∀ V ∈ Vs, Q V)
    (hfield : ∀ f ∈ fields, Q f.ty) (hV : Q (.variant fields)) {p : Pattern} {Us : List Ty}
    (h : Opens Eq fields p Us) : ∀ U ∈ Us, Q U := by
  cases h with
  | wild => simp
  | bind => simpa using hV
  | con hl h => exact h.forall hprod (by simpa using hfield _ hl)

/-- The variables of the first pattern come before those of the others. -/
theorem binds_cons {R : Ty → Ty → Prop} {p : Pattern} {ps : List Pattern} {T : Ty}
    {Ts Us : List Ty} : Binds R (p :: ps) (T :: Ts) Us ↔
      ∃ As Bs, Binds R [p] [T] As ∧ Binds R ps Ts Bs ∧ As ++ Bs = Us := by
  constructor
  · intro h
    cases h with
    | wild h => exact ⟨[], Us, .wild .nil, h, rfl⟩
    | bind h => exact ⟨[T], _, .bind .nil, h, rfl⟩
    | product hT hqs h => exact ⟨_, _, .product hT hqs .nil, h, by simp⟩
  · rintro ⟨As, Bs, hp, hps, h⟩
    cases hp with
    | wild hnil => cases hnil; exact h ▸ .wild hps
    | bind hnil => cases hnil; exact h ▸ .bind hps
    | product hT hqs hnil => cases hnil; exact h ▸ by simpa using .product hT hqs hps

end Pattern

/-- Patterns of arms that cover a variant with these labels: there is an arm, every label is
taken, and every arm is of use. -/
structure Covers (labels : List String) (patterns : List Pattern) : Prop where
  nonempty : patterns ≠ []
  exhaustive : ∀ label ∈ labels, ∃ p ∈ patterns, p.takes label = true
  useful : ∀ before p after, patterns = before ++ p :: after → p.Useful labels before

/-- A variant is not covered by no arms at all. -/
theorem Covers.zip_ne_nil {labels : List String} {arms : List (Arm Term)}
    {R : Arm Term → List Ty → Prop} {bound : List (List Ty)}
    (h : Covers labels (arms.map (·.pattern))) (hb : List.Forall₂ R arms bound) :
    arms.zip bound ≠ [] := by
  cases hb with
  | nil => exact absurd rfl h.nonempty
  | cons _ _ => simp

namespace Coverage

/-! ## payloads -/

/-- The components of a product pattern, given what is known of each. -/
theorem itemBindings_eq_ok {ps : List Pattern} {Ts Us : List Ty}
    (hps : ∀ p ∈ ps, ∀ T Us, bindings p T = .ok Us ↔ Pattern.Binds Eq [p] [T] Us) :
    Ts.length = ps.length ∧ itemBindings ps Ts = .ok Us ↔ Pattern.Binds Eq ps Ts Us := by
  induction ps generalizing Ts Us with
  | nil =>
    cases Ts with
    | nil =>
      simp only [itemBindings, Except.ok.injEq]
      exact ⟨fun h => h.2 ▸ .nil, fun h => by cases h; exact ⟨rfl, rfl⟩⟩
    | cons T Ts => exact ⟨fun h => by simp at h, fun h => by cases h⟩
  | cons p ps ih =>
    cases Ts with
    | nil => exact ⟨fun h => by simp at h, fun h => by cases h⟩
    | cons T Ts =>
      have ihp := hps p List.mem_cons_self
      have ihps : ∀ Us, _ ↔ Pattern.Binds Eq ps Ts Us := fun Us =>
        ih fun q hq => hps q (List.mem_cons_of_mem p hq)
      rw [Pattern.binds_cons, itemBindings]
      simp only [bind_eq_ok, ihp, ← ihps, List.length_cons, Nat.add_right_cancel_iff, pure,
        Except.pure, Except.ok.injEq]
      constructor
      · rintro ⟨hlen, As, hAs, Bs, hBs, h⟩
        exact ⟨As, Bs, hAs, ⟨hlen, hBs⟩, h⟩
      · rintro ⟨As, Bs, hAs, ⟨hlen, hBs⟩, h⟩
        exact ⟨hlen, As, hAs, Bs, hBs, h⟩

/-- The function that finds the variables of a pattern decides the relation. -/
theorem bindings_eq_ok {p : Pattern} {T : Ty} {Us : List Ty} :
    bindings p T = .ok Us ↔ Pattern.Binds Eq [p] [T] Us := by
  induction p generalizing T Us with
  | wild =>
    simp only [bindings, Except.ok.injEq]
    exact ⟨fun h => h ▸ .wild .nil, fun h => by cases h with | wild h => cases h; rfl⟩
  | bind =>
    simp only [bindings, Except.ok.injEq]
    exact ⟨fun h => h ▸ .bind .nil, fun h => by cases h with | bind h => cases h; rfl⟩
  | con label payload _ => exact ⟨fun h => by simp [bindings] at h, fun h => by cases h⟩
  | product items ih =>
    have hitems : ∀ Ts Us, _ ↔ Pattern.Binds Eq items Ts Us := fun Ts Us =>
      itemBindings_eq_ok fun p hp T Us => ih p hp
    constructor
    · intro h
      cases T with
      | product Ts =>
        rw [bindings] at h
        split at h
        · next hlen =>
          rw [← List.append_nil Us]
          exact .product rfl ((hitems _ _).1 ⟨hlen, h⟩) .nil
        · contradiction
      | _ => simp [bindings] at h
    · intro h
      cases h with
      | product hT hqs h =>
        cases h
        obtain ⟨hlen, hok⟩ := (hitems _ _).2 hqs
        rw [hT, bindings, if_pos hlen, List.append_nil, hok]

/-- In a well-formed variant an alternative is found by its label. -/
theorem field?_eq_some (hwf : (Ty.variant fields).WellFormed) {label : String} {T : Ty} :
    field? fields label = some T ↔ ⟨label, T⟩ ∈ fields := by
  have hnd : (labels fields).Nodup := hwf.here.2
  have hne : ∀ f ∈ fields, f.ty ≠ .hole := fun f hf hhole =>
    (hwf.child (List.mem_map_of_mem hf)).here.1 (by rw [hhole, shape])
  simp only [field?, fieldAt, Option.filter_eq_some_iff, Option.map_eq_some_iff]
  constructor
  · rintro ⟨⟨f, hf, hT⟩, _⟩
    have hl := List.find?_some hf
    have hmem := List.mem_of_find?_eq_some hf
    simp only [decide_eq_true_eq] at hl
    rwa [← hl, ← hT]
  · intro hmem
    have hfind : fields.find? (·.label = label) = some ⟨label, T⟩ := by
      rw [List.find?_eq_some_iff_append]
      obtain ⟨before, after, rfl⟩ := List.append_of_mem hmem
      refine ⟨by simp, before, after, rfl, fun f hf => ?_⟩
      simp only [labels, List.map_append, List.map_cons, List.nodup_append, List.mem_cons] at hnd
      simpa using hnd.2.2 f.label (List.mem_map_of_mem hf) label (.inl rfl)
    exact ⟨⟨⟨label, T⟩, hfind, rfl⟩, by simpa using hne _ hmem⟩

/-! ## progress -/

/-- The progress after the patterns `before`: what it says of a label is whether they take it. -/
structure Tracks (labels : List String) (before : List Pattern) (seen : Progress) : Prop where
  nodup : seen.covered.Nodup
  declared : seen.covered ⊆ labels
  taken : ∀ label ∈ labels, (seen.caughtAll = true ∨ label ∈ seen.covered) ↔
    ∃ p ∈ before, p.takes label = true

variable {labels : List String} {before : List Pattern} {seen seen' : Progress} {p : Pattern}
  {Us : List Ty}

theorem tracks_nil (labels : List String) : Tracks labels [] ⟨[], false⟩ :=
  ⟨List.nodup_nil, List.nil_subset labels, by simp⟩

namespace Tracks

/-- A label is still open if no pattern so far takes it. -/
theorem open_iff (h : Tracks labels before seen) {label : String} (hl : label ∈ labels) :
    ¬ (seen.caughtAll = true ∨ label ∈ seen.covered) ↔ ∀ q ∈ before, q.takes label = false := by
  simp [h.taken label hl]

/-- Either some label is open, or the count of the covered ones shows that none is. -/
theorem full_iff (h : Tracks labels before seen) (hnd : labels.Nodup) :
    (seen.caughtAll = true ∨ seen.covered.length = labels.length) ↔
      ∀ label ∈ labels, seen.caughtAll = true ∨ label ∈ seen.covered := by
  have hsub : seen.covered.Subperm labels := h.nodup.subperm h.declared
  constructor
  · intro hfull label hl
    refine hfull.imp_right fun hlen => ?_
    exact (hsub.perm_of_length_le (Nat.le_of_eq hlen.symm)).mem_iff.2 hl
  · intro hall
    by_cases hc : seen.caughtAll = true
    · exact .inl hc
    · -- neither list repeats a label, so inclusion both ways makes the lengths equal
      have hcov : labels ⊆ seen.covered := fun label hl => (hall label hl).resolve_left hc
      have hle := (hnd.subperm hcov).length_le
      exact .inr (Nat.le_antisymm hsub.length_le hle)

/-- No label is missing if each is taken. -/
theorem exhaustive_iff (h : Tracks labels before seen) :
    (seen.caughtAll = true ∨ labels.filter (· ∉ seen.covered) = []) ↔
      ∀ label ∈ labels, ∃ p ∈ before, p.takes label = true := by
  have htaken : (∀ label ∈ labels, ∃ p ∈ before, p.takes label = true) ↔
      ∀ label ∈ labels, seen.caughtAll = true ∨ label ∈ seen.covered :=
    forall₂_congr fun label hl => (h.taken label hl).symm
  rw [htaken, List.filter_eq_nil_iff]
  by_cases hc : seen.caughtAll = true <;> simp [hc]

/-- After an arm that takes every label. -/
theorem catchAll (h : Tracks labels before seen) (hp : ∀ label, p.takes label = true) :
    Tracks labels (before ++ [p]) ⟨seen.covered, true⟩ :=
  ⟨h.nodup, h.declared, fun label _ => by simp [hp label]⟩

/-- After an arm that takes one label, which was open. -/
theorem catchLabel (h : Tracks labels before seen) {label : String} {payload : Pattern}
    (hl : label ∈ labels) (hopen : label ∉ seen.covered) :
    Tracks labels (before ++ [.con label payload]) ⟨label :: seen.covered, seen.caughtAll⟩ := by
  refine ⟨List.nodup_cons.2 ⟨hopen, h.nodup⟩, List.cons_subset.2 ⟨hl, h.declared⟩, ?_⟩
  intro other ho
  simp only [List.mem_cons, List.mem_append, List.not_mem_nil, or_false, or_and_right, exists_or,
    exists_eq_left, Pattern.takes_con, ← h.taken other ho]
  grind

end Tracks

/-! ## one arm -/

/-- A pattern that takes every label is accepted as long as some label is open. -/
theorem catchAll_eq_ok (hwf : (Ty.variant fields).WellFormed)
    (h : Tracks (Ty.labels fields) before seen) (hp : ∀ label, p.takes label = true)
    {Vs : List Ty} :
    catchAll fields seen Vs = .ok (seen', Us) ↔
      p.Useful (Ty.labels fields) before ∧ ⟨seen.covered, true⟩ = seen' ∧ Vs = Us := by
  have hfull : (seen.caughtAll = true ∨ seen.covered.length = fields.length) ↔
      ¬ p.Useful (Ty.labels fields) before := by
    have hiff := h.full_iff hwf.here.2
    rw [Ty.labels, List.length_map] at hiff
    rw [hiff, Pattern.Useful]
    simp only [hp, true_and, not_exists, not_and]
    exact forall₂_congr fun label hl => by rw [← h.open_iff hl, not_not]
  unfold catchAll
  split
  · next hc => simp [hfull.1 hc]
  · next hc => simp [not_not.1 (mt hfull.2 hc)]

/-- A constructor pattern is accepted as long as its label is open and its payload matches. -/
theorem catchLabel_eq_ok (hwf : (Ty.variant fields).WellFormed)
    (h : Tracks (Ty.labels fields) before seen) {label : String} {payload : Pattern} :
    catchLabel fields seen label payload = .ok (seen', Us) ↔
      (Pattern.con label payload).Useful (Ty.labels fields) before ∧
      (Pattern.con label payload).Opens Eq fields Us ∧
      ⟨label :: seen.covered, seen.caughtAll⟩ = seen' := by
  unfold catchLabel
  constructor
  · intro hs
    split at hs
    · contradiction
    next T hT =>
    have hmem : ⟨label, T⟩ ∈ fields := (field?_eq_some hwf).1 hT
    have hl : label ∈ Ty.labels fields := List.mem_map_of_mem hmem
    split at hs
    · contradiction
    next hopen =>
    obtain ⟨bound, hb, heq⟩ := bind_eq_ok.1 hs
    obtain ⟨rfl, rfl⟩ := Prod.mk.inj (Except.ok.inj heq)
    refine ⟨⟨label, hl, Pattern.takes_con.2 rfl, (h.open_iff hl).1 hopen⟩, ?_, rfl⟩
    exact .con hmem (bindings_eq_ok.1 (mapError_eq_ok.1 hb))
  · rintro ⟨⟨l, hl, htakes, hopen⟩, ho, hseen⟩
    obtain rfl := Pattern.takes_con.1 htakes
    cases ho with
    | con hmem hb =>
      rw [(field?_eq_some hwf).2 hmem]
      simp only [if_neg ((h.open_iff hl).2 hopen), bindings_eq_ok.2 hb, ← hseen]
      rfl

/-- One arm is accepted if it is of use and opens the variant, and the progress stays true. -/
theorem step_ok (hwf : (Ty.variant fields).WellFormed)
    (h : Tracks (Ty.labels fields) before seen) (hs : step fields seen p = .ok (seen', Us)) :
    p.Useful (Ty.labels fields) before ∧ p.Opens Eq fields Us ∧
      Tracks (Ty.labels fields) (before ++ [p]) seen' := by
  cases p with
  | wild =>
    obtain ⟨hu, rfl, rfl⟩ := (catchAll_eq_ok (p := .wild) hwf h fun _ => rfl).1 hs
    exact ⟨hu, .wild, h.catchAll fun _ => rfl⟩
  | bind =>
    obtain ⟨hu, rfl, rfl⟩ := (catchAll_eq_ok (p := .bind) hwf h fun _ => rfl).1 hs
    exact ⟨hu, .bind, h.catchAll fun _ => rfl⟩
  | product items => contradiction
  | con label payload =>
    obtain ⟨hu, ho, rfl⟩ := (catchLabel_eq_ok hwf h).1 hs
    obtain ⟨l, hl, htakes, hopen⟩ := hu
    obtain rfl := Pattern.takes_con.1 htakes
    have hnew : l ∉ seen.covered := fun hc => (h.open_iff hl).2 hopen (.inr hc)
    exact ⟨⟨l, hl, htakes, hopen⟩, ho, h.catchLabel hl hnew⟩

/-- One arm that is useful and whose pattern matches is accepted. -/
theorem step_of_useful (hwf : (Ty.variant fields).WellFormed)
    (h : Tracks (Ty.labels fields) before seen) (hu : p.Useful (Ty.labels fields) before)
    (ho : p.Opens Eq fields Us) : ∃ seen', step fields seen p = .ok (seen', Us) := by
  cases ho with
  | wild => exact ⟨_, (catchAll_eq_ok hwf h fun _ => rfl).2 ⟨hu, rfl, rfl⟩⟩
  | bind => exact ⟨_, (catchAll_eq_ok hwf h fun _ => rfl).2 ⟨hu, rfl, rfl⟩⟩
  | con hl hb => exact ⟨_, (catchLabel_eq_ok hwf h).2 ⟨hu, .con hl hb, rfl⟩⟩

/-! ## all arms -/

variable {span : Option Span} {arms : List (Arm Term)} {bound : List (List Ty)}

/-- Arms that are accepted are useful, each after those before it, and their patterns match. -/
theorem steps_ok (hwf : (Ty.variant fields).WellFormed)
    (h : Tracks (Ty.labels fields) before seen)
    (hs : steps fields span seen arms = .ok (seen', bound)) :
    (∀ first p rest, arms.map (·.pattern) = first ++ p :: rest →
      p.Useful (Ty.labels fields) (before ++ first)) ∧
    List.Forall₂ (fun arm Us => arm.pattern.Opens Eq fields Us) arms bound ∧
    Tracks (Ty.labels fields) (before ++ arms.map (·.pattern)) seen' := by
  -- what has been covered so far tracks the patterns before, and each arm moves both on
  induction arms generalizing before seen bound with
  | nil =>
    obtain ⟨rfl, rfl⟩ := Prod.mk.inj (Except.ok.inj hs)
    exact ⟨by simp, .nil, by simpa using h⟩
  | cons arm arms ih =>
    rw [steps] at hs
    obtain ⟨⟨seen₁, Us⟩, h₁, hs⟩ := bind_eq_ok.1 hs
    obtain ⟨⟨seen₂, rest⟩, h₂, hs⟩ := bind_eq_ok.1 hs
    obtain ⟨rfl, rfl⟩ := Prod.mk.inj (Except.ok.inj hs)
    obtain ⟨hu, ho, htracks⟩ := step_ok hwf h (mapError_eq_ok.1 h₁)
    obtain ⟨hus, hos, htracks'⟩ := ih htracks h₂
    refine ⟨fun first p rest hsplit => ?_, .cons ho hos, by simpa using htracks'⟩
    cases first with
    | nil =>
      obtain ⟨rfl, -⟩ := List.cons.inj hsplit
      simpa using hu
    | cons q first =>
      obtain ⟨rfl, hrest⟩ := List.cons.inj hsplit
      simpa using hus first p rest hrest

/-- Conversely, such arms are accepted. -/
theorem steps_of_useful (hwf : (Ty.variant fields).WellFormed)
    (h : Tracks (Ty.labels fields) before seen)
    (hu : ∀ first p rest, arms.map (·.pattern) = first ++ p :: rest →
      p.Useful (Ty.labels fields) (before ++ first))
    (ho : List.Forall₂ (fun arm Us => arm.pattern.Opens Eq fields Us) arms bound) :
    ∃ seen', steps fields span seen arms = .ok (seen', bound) := by
  induction ho generalizing before seen with
  | nil => exact ⟨seen, rfl⟩
  | @cons arm Us arms bound ho _ ih =>
    obtain ⟨seen₁, h₁⟩ := step_of_useful hwf h (by simpa using hu [] _ _ rfl) ho
    have htracks := (step_ok hwf h h₁).2.2
    obtain ⟨seen₂, h₂⟩ := ih htracks fun first p rest hsplit => by
      simpa using hu (arm.pattern :: first) p rest (by simp [hsplit])
    refine ⟨seen₂, bind_eq_ok.2 ⟨(seen₁, Us), mapError_eq_ok.2 h₁, ?_⟩⟩
    exact bind_eq_ok.2 ⟨(seen₂, bound), h₂, rfl⟩

/-- Arms are accepted exactly if they cover the variant and each opens it, and the answer is
the list of the types they bind. -/
theorem check_eq_ok (hwf : (Ty.variant fields).WellFormed) :
    check fields span arms = .ok bound ↔
      Covers (Ty.labels fields) (arms.map (·.pattern)) ∧
      List.Forall₂ (fun arm Us => arm.pattern.Opens Eq fields Us) arms bound := by
  unfold check
  constructor
  · intro hcheck
    split at hcheck
    · contradiction
    next hne =>
    obtain ⟨⟨seen, bound'⟩, hsteps, hcheck⟩ := bind_eq_ok.1 hcheck
    obtain ⟨hu, ho, htracks⟩ := steps_ok hwf (tracks_nil _) hsteps
    simp only [List.nil_append] at hu htracks
    dsimp only at hcheck
    split at hcheck
    · next hall =>
      obtain rfl := Except.ok.inj hcheck
      exact ⟨⟨by simpa using hne, htracks.exhaustive_iff.1 hall, hu⟩, ho⟩
    · contradiction
  · rintro ⟨hc, ho⟩
    have hne : arms.isEmpty = false := by simpa using hc.nonempty
    obtain ⟨seen, hsteps⟩ : ∃ seen, steps fields span ⟨[], false⟩ arms = .ok (seen, bound) :=
      steps_of_useful hwf (tracks_nil _) hc.useful ho
    have htracks := (steps_ok hwf (tracks_nil _) hsteps).2.2
    rw [hne, hsteps]
    simp only [List.nil_append] at htracks
    exact if_pos (htracks.exhaustive_iff.2 hc.exhaustive)

theorem length_steps {r : Progress × List (List Ty)}
    (h : steps fields span seen arms = .ok r) : r.2.length = arms.length := by
  induction arms generalizing seen r with
  | nil =>
    obtain rfl := Except.ok.inj h
    rfl
  | cons arm arms ih =>
    obtain ⟨p, -, h⟩ := bind_eq_ok.1 h
    obtain ⟨q, hq, h⟩ := bind_eq_ok.1 h
    obtain rfl := Except.ok.inj h
    simp [ih hq]

/-- As many lists of types are bound as there are arms. -/
theorem length_check (h : check fields span arms = .ok bound) : bound.length = arms.length := by
  unfold check at h
  split at h
  · contradiction
  · obtain ⟨r, hr, h⟩ := bind_eq_ok.1 h
    dsimp only at h
    split at h
    · obtain rfl := Except.ok.inj h
      exact length_steps hr
    · contradiction

end Coverage

/-! ## arms up to conversion -/

/-- Alternatives keep their labels when their types compute. -/
theorem exists_field_of_steps {gs : List (Field Ty)} {f : Field Ty}
    (hl : labels fields = labels gs)
    (hs : List.Forall₂ (Steps aliases) (fields.map (·.ty)) (gs.map (·.ty))) (hf : f ∈ fields) :
    ∃ U, ⟨f.label, U⟩ ∈ gs ∧ Steps aliases f.ty U := by
  induction fields generalizing gs with
  | nil => contradiction
  | cons f' fields ih =>
    cases gs with
    | nil => simp [labels] at hl
    | cons g gs =>
      obtain ⟨hlabel, hlabels⟩ := List.cons.inj hl
      obtain ⟨hstep, hsteps⟩ := List.forall₂_cons.1 hs
      obtain rfl | hf := List.mem_cons.1 hf
      · exact ⟨g.ty, by simp [hlabel], hstep⟩
      · obtain ⟨U, hU, hstep⟩ := ih hlabels hsteps hf
        exact ⟨U, List.mem_cons_of_mem g hU, hstep⟩

namespace Pattern

/-- Patterns that bind up to conversion bind, after their types are resolved, on the nose. -/
theorem Binds.of_conv (hcl : aliases.Closed) {ps : List Pattern} {Ts Ts' Us : List Ty}
    (h : Binds (Conv aliases) ps Ts Us) (hTs : List.Forall₂ (Steps aliases) Ts Ts')
    (hres : ∀ T ∈ Ts', T.Resolved aliases) :
    ∃ Us', Binds Eq ps Ts' Us' ∧ List.Forall₂ (Conv aliases) Us Us' := by
  induction h generalizing Ts' with
  | nil =>
    cases hTs
    exact ⟨[], .nil, .nil⟩
  | wild _ ih =>
    obtain ⟨T', Ts', -, hrest, rfl⟩ := List.forall₂_cons_left_iff.1 hTs
    obtain ⟨Us', hUs, hconv⟩ := ih hrest fun T hT => hres T (List.mem_cons_of_mem T' hT)
    exact ⟨Us', .wild hUs, hconv⟩
  | bind _ ih =>
    obtain ⟨T', Ts', hT, hrest, rfl⟩ := List.forall₂_cons_left_iff.1 hTs
    obtain ⟨Us', hUs, hconv⟩ := ih hrest fun T hT => hres T (List.mem_cons_of_mem T' hT)
    exact ⟨T' :: Us', .bind hUs, .cons (.of_steps hT) hconv⟩
  | product hprod _ _ ihqs ih =>
    obtain ⟨T', Ts', hT, hrest, rfl⟩ := List.forall₂_cons_left_iff.1 hTs
    obtain ⟨Us', hUs, hconv⟩ := ih hrest fun T hT => hres T (List.mem_cons_of_mem T' hT)
    have hT' : T'.Resolved aliases := hres T' List.mem_cons_self
    obtain ⟨Vs', rfl, hVs⟩ := (hprod.symm.trans (.of_steps hT)).product_inv hcl hT'
    obtain ⟨Ws', hWs, hconv'⟩ := ihqs hVs fun V hV => hT'.child hV
    exact ⟨Ws' ++ Us', .product rfl hWs hUs, List.rel_append hconv' hconv⟩

/-- A pattern opens a resolved form of a variant if it opens the variant up to conversion, and
the types it binds are convertible. -/
theorem Opens.of_conv (hcl : aliases.Closed) {gs : List (Field Ty)} {p : Pattern} {Us : List Ty}
    (h : Opens (Conv aliases) fields p Us) (hV : Steps aliases (.variant fields) (.variant gs))
    (hres : (Ty.variant gs).Resolved aliases) :
    ∃ Us', Opens Eq gs p Us' ∧ List.Forall₂ (Conv aliases) Us Us' := by
  cases h with
  | wild => exact ⟨[], .wild, .nil⟩
  | bind => exact ⟨[.variant gs], .bind, .cons (.of_steps hV) .nil⟩
  | con hl hb =>
    obtain ⟨hs, hc⟩ := hV.rigid (by simp [Rigid, shape])
    obtain ⟨U, hU, hstep⟩ := exists_field_of_steps (Shape.variant.inj hs) hc hl
    have hU' : U.Resolved aliases := hres.child (List.mem_map_of_mem hU)
    obtain ⟨Us', hUs, hconv⟩ := hb.of_conv hcl (.cons hstep .nil) (by simpa using hU')
    exact ⟨Us', .con hU hUs, hconv⟩

/-- What holds of one arm holds of all. -/
theorem exists_opens_of_conv (hcl : aliases.Closed) {gs : List (Field Ty)}
    {arms : List (Arm Term)} {bound : List (List Ty)}
    (h : List.Forall₂ (fun a Ts => a.pattern.Opens (Conv aliases) fields Ts) arms bound)
    (hV : Steps aliases (.variant fields) (.variant gs))
    (hres : (Ty.variant gs).Resolved aliases) :
    ∃ bound', List.Forall₂ (fun a Ts => a.pattern.Opens Eq gs Ts) arms bound' ∧
      ∀ a Us, (a, Us) ∈ arms.zip bound' →
        ∃ Ts, (a, Ts) ∈ arms.zip bound ∧ List.Forall₂ (Conv aliases) Ts Us := by
  induction h with
  | nil => exact ⟨[], .nil, by simp⟩
  | @cons a Ts arms bound ho _ ih =>
    obtain ⟨Us, hUs, hconv⟩ := ho.of_conv hcl hV hres
    obtain ⟨bound', hbound', hzip⟩ := ih
    refine ⟨Us :: bound', .cons hUs hbound', fun b Vs hb => ?_⟩
    rw [List.zip_cons_cons, List.mem_cons] at hb
    obtain heq | hb := hb
    · obtain ⟨rfl, rfl⟩ := Prod.mk.inj heq
      exact ⟨Ts, by simp, hconv⟩
    · obtain ⟨Ws, hWs, hVs⟩ := hzip b Vs hb
      exact ⟨Ws, by simp [hWs], hVs⟩

end Pattern

end PolyLambda
