import PolyLambda.Proofs.Ground
import PolyLambda.Proofs.Instance

/-!
# PolyLambda.Proofs.Unfolding

When the expansion of aliases ends. A type leads to names, and these to the names in their
definitions. If there is a name on the way that leads back to itself, no number of levels is enough
for an expansion. Otherwise some number is, and every greater one, because a table is finite.

Both directions go through the names that are accessible for `Aliases.Refers`. A run that succeeds
has been through the definition of every name that it met, so these names are accessible, and then
there is no circle among them.

What an expansion gives is described without levels: names are replaced by their definitions, one
at a time and anywhere, until no name is left that has a definition. In whatever order this is done,
nothing else can come out.

* `Ty.Circular`: a name that the type leads to leads back to itself.
* `Ty.FullyExpands`: what is left when all names have been replaced.
* `Ty.Expands.not_circular`, `Ty.exists_expand_of_not_circular`: expansions end exactly without
  circles.
* `Ty.Expands.of_step`: replacing a name does not change what comes out.
* `Ty.run_expand_ends`: the expansion under every limit.
-/

namespace PolyLambda

open Relation

/-! ## circles -/

namespace Aliases

variable {aliases : Aliases} {name key : String}

/-- An accessible name does not lead back to itself. -/
theorem not_circle_of_acc (h : Acc (fun b a => aliases.Refers a b) name) :
    ¬ TransGen aliases.Refers name name := by
  induction h with
  | intro name _ ih =>
    intro hcircle
    -- the circle goes through the next name as well
    obtain ⟨key, hkey, hback⟩ := TransGen.head'_iff.1 hcircle
    exact ih key hkey (.tail' hback hkey)

/-- If following references from a name comes to an end, so it does from every name on the way. -/
theorem acc_of_reached (h : Acc (fun b a => aliases.Refers a b) name)
    (hkey : ReflTransGen aliases.Refers name key) :
    Acc (fun b a => aliases.Refers a b) key := by
  induction hkey with
  | refl => exact h
  | tail _ hstep ih => exact ih.inv hstep

end Aliases

namespace Ty

variable {aliases : Aliases} {n : Nat} {T U V : Ty} {name : String}

/-- The name stands in the type, or in a definition that the type leads to. -/
def LeadsTo (aliases : Aliases) (T : Ty) (name : String) : Prop :=
  ∃ key, T.Mentions key ∧ ReflTransGen aliases.Refers key name

/-- A name that the type leads to leads back to itself. -/
def Circular (aliases : Aliases) (T : Ty) : Prop :=
  ∃ name, T.LeadsTo aliases name ∧ TransGen aliases.Refers name name

/-- Whatever an expansion has met is accessible. -/
theorem Expands.acc (h : Expands aliases n T U) (hname : T.Mentions name) :
    Acc (fun b a => aliases.Refers a b) name := by
  induction h generalizing name with
  | name hd _ ih =>
    cases hname with
    | here =>
      refine ⟨_, ?_⟩
      rintro key ⟨D, hD, hkey⟩
      obtain rfl : _ = D := Option.some.inj (hd.symm.trans hD)
      exact ih hkey
    | inside hA _ => simp [children] at hA
  | node _ hu hs _ ih =>
    cases hname with
    | here => exact Aliases.acc_of_undefined (by simp [hu name rfl])
    | @inside _ A hA hname =>
      obtain ⟨B, -, hB⟩ := exists_of_forall₂_left (forall₂_children hs ih) hA
      exact hB hname

/-- A type that can be expanded is not circular. -/
theorem Expands.not_circular (h : Expands aliases n T U) : ¬ T.Circular aliases := by
  rintro ⟨name, ⟨key, hkey, hreach⟩, hcircle⟩
  exact Aliases.not_circle_of_acc (Aliases.acc_of_reached (h.acc hkey) hreach) hcircle

/-- Conversely, a type that is not circular can be expanded, given levels enough. -/
theorem exists_expand_of_not_circular (hal : aliases.WellFormed) (hT : T.WellFormed)
    (h : ¬ T.Circular aliases) : ∃ n U, T.expand aliases n = .ok U := by
  refine exists_expand hal hT fun name hname => Aliases.acc_refers fun key hkey hcircle => ?_
  exact h ⟨key, ⟨name, hname, hkey⟩, hcircle⟩

/-! ## full expansions -/

/-- A name gives way to its definition. -/
inductive Unfolds (aliases : Aliases) : Ty → Ty → Prop where
  | intro {name : String} {T : Ty} (h : aliases.definition? name = some T) :
      Unfolds aliases (.named name) T

/-- Names have been replaced by their definitions, one at a time, until none is left that has
one. -/
structure FullyExpands (aliases : Aliases) (T U : Ty) : Prop where
  steps : ReflTransGen (Anywhere (Unfolds aliases)) T U
  unknown : ∀ name, U.Mentions name → aliases.definition? name = none

/-- A name that an expanded type still mentions has no definition. -/
theorem Mentions.unknown (h : T.Mentions name) (hT : T.EveryShape (Unknown aliases)) :
    aliases.definition? name = none := by
  induction h with
  | here => exact hT.here name rfl
  | inside hA _ ih => exact ih (hT.child hA)

namespace Expands

/-- An expansion consists of unfoldings, one after another. -/
theorem unfolds (h : Expands aliases n T U) : ReflTransGen (Anywhere (Unfolds aliases)) T U := by
  induction h with
  | name hd _ ih => exact .head (.here (.intro hd)) ih
  | node _ _ hs _ ih => exact reflTransGen_node hs (forall₂_children hs ih)

theorem fullyExpands (h : Expands aliases n T U) : T.FullyExpands aliases U :=
  ⟨h.unfolds, fun _ hname => hname.unknown h.unknown⟩

/-- Replacing a name by its definition does not change what comes out. -/
theorem of_step (h : Expands aliases n T U) (hV : Anywhere (Unfolds aliases) T V) :
    Expands aliases n V U := by
  induction hV generalizing n U with
  | here hV =>
    cases hV with
    | intro hd =>
      cases h with
      | name hd' h =>
        obtain rfl := Option.some.inj (hd.symm.trans hd')
        exact h.mono (Nat.le_succ _)
      | node _ hu _ _ => simp [hu _ rfl] at hd
  | @inside T V A B before after hs hTc hVc _ ih =>
    cases h with
    | name => simp [children] at hTc
    | @node n _ _ hp hu hsU hc =>
      have hchange : List.Forall₂
          (fun X Y => ∀ {n W}, Expands aliases n X W → Expands aliases n Y W)
          T.children V.children := by
        rw [hTc, hVc]
        exact List.rel_append (List.forall₂_same.2 fun _ _ _ _ h => h)
          (.cons ih (List.forall₂_same.2 fun _ _ _ _ h => h))
      have hparts : List.Forall₂ (Expands aliases n) V.children U.children := by
        have hc := forall₂_children hsU hc
        rw [List.forall₂_iff_get] at hchange hc ⊢
        exact ⟨hchange.1.symm.trans hc.1, fun i hi hi' =>
          hchange.2 i (hchange.1 ▸ hi) hi (hc.2 i (hchange.1 ▸ hi) hi')⟩
      exact .node (hs ▸ hp) (hs ▸ hu) (hs ▸ hsU) fun _ _ hXY => List.forall₂_zip hparts hXY

/-- After any unfoldings, the expansion is still the same. -/
theorem of_steps (h : Expands aliases n T U)
    (hV : ReflTransGen (Anywhere (Unfolds aliases)) T V) : Expands aliases n V U := by
  induction hV with
  | refl => exact h
  | tail _ hstep ih => exact ih.of_step hstep

/-- A type without names that have a definition is its own expansion. -/
theorem eq_of_unknown (h : Expands aliases n T U)
    (hT : ∀ name, T.Mentions name → aliases.definition? name = none) : T = U := by
  induction h with
  | name hd _ _ => simp [hT _ .here] at hd
  | @node n T U _ _ hs _ ih =>
    refine eq_of_shape_children hs ?_
    have hparts : List.Forall₂ Eq T.children U.children := forall₂_children hs fun A B hAB =>
      ih A B hAB fun name hname => hT name (.inside (List.of_mem_zip hAB).1 hname)
    rwa [List.forall₂_eq_eq_eq] at hparts

end Expands

/-- There is only one way to be fully expanded. -/
theorem FullyExpands.eq (hV : T.FullyExpands aliases V) (h : Expands aliases n T U) : V = U :=
  (h.of_steps hV.steps).eq_of_unknown hV.unknown

/-! ## the end of an expansion -/

/-- If a type leads into a circle of definitions, its expansion runs out of levels under every
limit. Otherwise there is a limit from which on it gives the full expansion, of which there is only
one. -/
theorem run_expand_ends (hal : aliases.WellFormed) (hT : T.WellFormed) :
    (T.Circular aliases → ∀ m : Int,
      (Limit.run ⟨m, none⟩ fun n => T.expand aliases n) = .error (.type ⟨.tooDeep m, none⟩)) ∧
    (¬ T.Circular aliases → ∃ U, T.FullyExpands aliases U ∧
      (∀ V, T.FullyExpands aliases V → V = U) ∧
      ∃ M : Int, ∀ m, M ≤ m → (Limit.run ⟨m, none⟩ fun n => T.expand aliases n) = .ok U) := by
  constructor
  · intro hcircle m
    have hrun : (Limit.run ⟨m, none⟩ fun n => T.expand aliases n) =
      (T.expand aliases m.toNat).mapError (Limit.fault ⟨m, none⟩) := rfl
    rw [hrun]
    cases h : T.expand aliases m.toNat with
    | ok U => exact absurd hcircle (expands_of_ok h).not_circular
    | error e =>
      obtain rfl := expand_error hal hT h
      rfl
  · intro hcircle
    obtain ⟨n, U, hU⟩ := exists_expand_of_not_circular hal hT hcircle
    have hexp := expands_of_ok hU
    refine ⟨U, hexp.fullyExpands, fun V hV => hV.eq hexp, n, fun m hm => ?_⟩
    have hlevels : n ≤ (Limit.mk m none).levels := by
      simp only [Limit.levels]
      omega
    rw [Limit.run, kept_expand hlevels U hU]
    rfl

/-- Trees and forests, which are defined by each other, over labels, which are made of keys. What a
key is is left open. -/
def roseTrees : Aliases :=
  (((∅ : Aliases).insert "Label" (.product [.named "Key", .named "Key"])).insert "Tree"
    (.product [.named "Label", .named "Forest"])).insert "Forest"
    (.variant [⟨"none", .unit⟩, ⟨"more", .product [.named "Tree", .named "Forest"]⟩])

theorem roseTrees_wellFormed : roseTrees.WellFormed := by
  have hlabel : (Ty.product [.named "Key", .named "Key"]).WellFormed :=
    (shift_ok (n := 2) (k := 0) rfl).1
  have htree : (Ty.product [.named "Label", .named "Forest"]).WellFormed :=
    (shift_ok (n := 2) (k := 0) rfl).1
  have hforest : (Ty.variant [⟨"none", .unit⟩,
      ⟨"more", .product [.named "Tree", .named "Forest"]⟩]).WellFormed :=
    (shift_ok (n := 3) (k := 0) rfl).1
  exact ((Aliases.wellFormed_empty.insert hlabel).insert htree).insert hforest

/-- A tree leads to a forest and a forest back to a tree. -/
theorem circular_trees : Circular roseTrees (.arrow (.named "Label") (.named "Tree")) := by
  have htree : (Ty.arrow (.named "Label") (.named "Tree")).Mentions "Tree" :=
    .inside (A := .named "Tree") (by simp [children]) .here
  have hforest : roseTrees.Refers "Tree" "Forest" :=
    ⟨_, rfl, .inside (A := .named "Forest") (by simp [children]) .here⟩
  have hback : roseTrees.Refers "Forest" "Tree" :=
    ⟨_, rfl, .inside (A := .product [.named "Tree", .named "Forest"]) (by simp [children])
      (.inside (A := .named "Tree") (by simp [children]) .here)⟩
  exact ⟨"Tree", ⟨"Tree", htree, .refl⟩, .tail (.single hforest) hback⟩

/-- Functions from labels to trees have no expansion. Functions on labels have one, in which keys
are left as they are. -/
theorem run_expand_ends_roseTrees :
    roseTrees.WellFormed ∧
      (∀ m : Int, (Limit.run ⟨m, none⟩ fun n =>
          (Ty.arrow (.named "Label") (.named "Tree")).expand roseTrees n) =
        .error (.type ⟨.tooDeep m, none⟩)) ∧
      ¬ Circular roseTrees (.arrow (.named "Label") (.named "Label")) ∧
      ∃ M : Int, ∀ m, M ≤ m → (Limit.run ⟨m, none⟩ fun n =>
          (Ty.arrow (.named "Label") (.named "Label")).expand roseTrees n) =
        .ok (.arrow (.product [.named "Key", .named "Key"])
          (.product [.named "Key", .named "Key"])) := by
  have htrees : (Ty.arrow (.named "Label") (.named "Tree")).WellFormed :=
    (shift_ok (n := 2) (k := 0) rfl).1
  have hlabels : (Ty.arrow (.named "Label") (.named "Label")).WellFormed :=
    (shift_ok (n := 2) (k := 0) rfl).1
  have hexp : Expands roseTrees 4 (.arrow (.named "Label") (.named "Label"))
      (.arrow (.product [.named "Key", .named "Key"]) (.product [.named "Key", .named "Key"])) :=
    expands_of_ok rfl
  obtain ⟨U, hU, -, hM⟩ := (run_expand_ends roseTrees_wellFormed hlabels).2 hexp.not_circular
  obtain rfl := hU.eq hexp
  exact ⟨roseTrees_wellFormed, (run_expand_ends roseTrees_wellFormed htrees).1 circular_trees,
    hexp.not_circular, hM⟩

end Ty

end PolyLambda
