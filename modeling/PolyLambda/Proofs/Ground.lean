import Mathlib.Data.Fintype.Card
import Mathlib.Data.Set.Finite.Basic
import PolyLambda.Proofs.Deeper
import PolyLambda.Proofs.Levels

/-!
# PolyLambda.Proofs.Ground

Types that need only finitely many levels to resolve. There are two ways in which resolving can go
on forever: definitions of aliases that refer to each other in a circle, and type operators that
are applied over and over. Where definitions are without circles and no operator is written, neither
happens, and what is left after the expansion has nothing to normalise.

* `Aliases.Refers` relates a name to the names in its definition. Since a table is finite, a name
  that leads into no circle is accessible for this relation (`Aliases.acc_refers`).
* `Ty.exists_expand`: a type whose names are accessible has an expansion.
* `Ty.Ground` types have no name to be looked up and no operator in them. They are closed under
  lifting and instantiation, and each is its own resolved form, once there are levels for its nodes.
* `Ty.exists_resolve`: over a tame table, types without operators resolve to ground types.
-/

namespace PolyLambda

open Relation

/-! ## references between names -/

/-- The name stands somewhere in the type. -/
inductive Ty.Mentions (name : String) : Ty → Prop where
  | here : Mentions name (.named name)
  | inside {T A : Ty} (hA : A ∈ T.children) (h : Mentions name A) : Mentions name T

/-- No operator is written in the type. -/
def Ty.OperatorFree (T : Ty) : Prop :=
  T.EveryShape fun s => ∀ kind, s ≠ .binder (.op kind)

namespace Aliases

variable {aliases : Aliases} {name key : String} {T U : Ty}

/-- The definition of the first name mentions the second. -/
def Refers (aliases : Aliases) (a b : String) : Prop :=
  ∃ T, aliases.definition? a = some T ∧ T.Mentions b

/-- No name refers to itself, be it through other names. -/
def Acyclic (aliases : Aliases) : Prop :=
  ∀ name, ¬ TransGen aliases.Refers name name

/-- References that always go down do not go round in a circle. -/
theorem acyclic_of_rank (rank : String → Nat)
    (h : ∀ a b, aliases.Refers a b → rank b < rank a) : aliases.Acyclic := by
  have hdown : ∀ {a b}, TransGen aliases.Refers a b → rank b < rank a := by
    intro a b hab
    induction hab with
    | single hab => exact h _ _ hab
    | tail _ hbc ih => exact Nat.lt_trans (h _ _ hbc) ih
  exact fun name hname => Nat.lt_irrefl _ (hdown hname)

/-- A definition stands in the table. -/
theorem mem_entries_of_definition (h : aliases.definition? name = some T) :
    (name, T) ∈ aliases.entries := by
  have hget : aliases.entries.lookup name = some T := (Option.filter_eq_some_iff.1 h).1
  obtain ⟨before, after, hentries, -⟩ := List.lookup_eq_some_iff.1 hget
  rw [hentries]
  simp

/-- Only finitely many names are defined. -/
theorem finite_defined (aliases : Aliases) :
    {name | ∃ T, aliases.definition? name = some T}.Finite := by
  refine (List.finite_toSet (aliases.entries.map Prod.fst)).subset ?_
  rintro name ⟨T, hT⟩
  exact List.mem_map.2 ⟨_, mem_entries_of_definition hT, rfl⟩

/-- A name without a definition refers to nothing. -/
theorem acc_of_undefined (h : ¬ ∃ T, aliases.definition? name = some T) :
    Acc (fun b a => aliases.Refers a b) name := by
  refine ⟨name, ?_⟩
  rintro b ⟨T, hT, -⟩
  exact absurd ⟨T, hT⟩ h

/-- Names are accessible if no circle can be reached from them, because only finitely many names
have a definition. -/
theorem acc_refers
    (h : ∀ key, ReflTransGen aliases.Refers name key → ¬ TransGen aliases.Refers key key) :
    Acc (fun b a => aliases.Refers a b) name := by
  let Reached : Set String :=
    {key | (∃ T, aliases.definition? key = some T) ∧ ReflTransGen aliases.Refers name key}
  have hfinite : Finite Reached := (aliases.finite_defined.subset fun _ hkey => hkey.1).to_subtype
  have htrans : IsTrans Reached fun b a => TransGen aliases.Refers a.1 b.1 :=
    ⟨fun _ _ _ hab hbc => hbc.trans hab⟩
  have hirrefl : Std.Irrefl fun b a : Reached => TransGen aliases.Refers a.1 b.1 :=
    ⟨fun a ha => h a.1 a.2.2 ha⟩
  -- on finitely many names, reaching is well founded as soon as no name reaches itself
  have hwf := Finite.wellFounded_of_trans_of_irrefl
    fun b a : Reached => TransGen aliases.Refers a.1 b.1
  have hreached : ∀ a : Reached, Acc (fun b a => aliases.Refers a b) a.1 := by
    intro a
    induction a using hwf.induction with
    | h a ih =>
      refine ⟨a.1, fun b hab => ?_⟩
      by_cases hb : ∃ T, aliases.definition? b = some T
      · exact ih ⟨b, hb, a.2.2.tail hab⟩ (.single hab)
      · exact acc_of_undefined hb
  by_cases hname : ∃ T, aliases.definition? name = some T
  · exact hreached ⟨name, hname, .refl⟩
  · exact acc_of_undefined hname

/-- Where names do not refer to themselves, following references comes to an end. -/
theorem Acyclic.acc (h : aliases.Acyclic) (name : String) :
    Acc (fun b a => aliases.Refers a b) name :=
  acc_refers fun key _ => h key

/-- Definitions are well formed, without circles and without operators. -/
structure Tame (aliases : Aliases) : Prop where
  wellFormed : aliases.WellFormed
  acyclic : aliases.Acyclic
  operatorFree : ∀ name T, aliases.definition? name = some T → T.OperatorFree

end Aliases

/-- A shape that can be written down, and is neither a name that has a definition nor an
operator. -/
def Shape.Ground (aliases : Aliases) (s : Shape) : Prop :=
  s.Proper ∧ Ty.Unknown aliases s ∧ ∀ kind, s ≠ .binder (.op kind)

theorem Shape.ground_var {aliases : Aliases} (i : Int) : (Shape.var i).Ground aliases :=
  ⟨Ty.proper_var i, nofun, nofun⟩

namespace Ty

variable {aliases : Aliases} {n k c : Nat} {T U A body : Ty}

/-! ## expansions that end -/

/-- A type has an expansion if the definitions of its names have one. -/
theorem exists_expand_of_mentioned (hT : T.WellFormed)
    (h : ∀ name D, T.Mentions name → aliases.definition? name = some D →
      ∃ n U, D.expand aliases n = .ok U) : ∃ n U, T.expand aliases n = .ok U := by
  induction T using byChildren with
  | node T ih =>
    by_cases hname : ∃ name, T.shape = .named name
    · obtain ⟨name, hname⟩ := hname
      obtain rfl := eq_of_shape_named hname
      cases hdef : aliases.definition? name with
      | none => exact ⟨1, .named name, expand_unknown hdef⟩
      | some D =>
        obtain ⟨n, U, hU⟩ := h name D .here hdef
        exact ⟨n + 1, U, by rw [expand, hdef]; exact hU⟩
    · have hparts : ∀ A ∈ T.children, ∃ n U, A.expand aliases n = .ok U := fun A hA =>
        ih A hA (hT.child hA) fun name D hmention hdef => h name D (.inside hA hmention) hdef
      obtain ⟨n, hn⟩ := exists_bound (P := fun n (A : Ty) => ∃ U, A.expand aliases n = .ok U)
        (fun hnm hA => hA.imp (kept_expand hnm)) hparts
      obtain ⟨U, hU⟩ := exists_mapParts (f := fun _ A => A.expand aliases n) hT.here.2 hn
      refine ⟨n + 1, U, ?_⟩
      rw [expand_node hT.here.1 (not_exists.1 hname)]
      exact hU

/-- A definition is expanded after the definitions of the names in it. -/
theorem exists_expand_of_definition (hal : aliases.WellFormed) {name : String}
    (hacc : Acc (fun b a => aliases.Refers a b) name) (hD : aliases.definition? name = some T) :
    ∃ n U, T.expand aliases n = .ok U := by
  induction hacc generalizing T with
  | intro name _ ih =>
    refine exists_expand_of_mentioned (hal name T hD) fun key D hkey hdef => ?_
    exact ih key ⟨T, hD, hkey⟩ hdef

/-- A type whose names can be followed to their ends can be expanded, given levels enough. -/
theorem exists_expand (hal : aliases.WellFormed) (hT : T.WellFormed)
    (hacc : ∀ name, T.Mentions name → Acc (fun b a => aliases.Refers a b) name) :
    ∃ n U, T.expand aliases n = .ok U :=
  exists_expand_of_mentioned hT fun name _ hname hdef =>
    exists_expand_of_definition hal (hacc name hname) hdef

/-- The expansion keeps what holds of all shapes, if it holds of the definitions. -/
theorem Expands.everyShape {P : Shape → Prop} (h : Expands aliases n T U)
    (hal : ∀ name D, aliases.definition? name = some D → D.EveryShape P)
    (hT : T.EveryShape P) : U.EveryShape P := by
  induction h with
  | name hd _ ih => exact ih (hal _ _ hd)
  | node _ _ hs _ ih =>
    refine ⟨hs ▸ hT.here, fun B hB => ?_⟩
    have hparts := List.forall₂_iff_zip.2 ⟨length_children_eq hs, fun {A B} hAB => ih A B hAB⟩
    obtain ⟨A, hA, hAB⟩ := exists_of_forall₂_right hparts hB
    exact hAB (hT.child hA)

/-! ## ground types -/

/-- The type can be written down, and there is no name that has a definition in it and no
operator. -/
def Ground (aliases : Aliases) (T : Ty) : Prop :=
  T.EveryShape (Shape.Ground aliases)

namespace Ground

theorem wellFormed (h : T.Ground aliases) : T.WellFormed :=
  h.mono fun _ hU => hU.1

/-- There is no application of an operator if there is no operator. -/
theorem betaNormal (h : T.Ground aliases) : T.BetaNormal := by
  induction h with
  | @intro T _ hc ih =>
    refine ⟨?_, ih⟩
    rintro ⟨kind, body, A, rfl⟩
    have hfn : Ty.binder (.op kind) body ∈ (Ty.app (.binder (.op kind) body) A).children := by
      simp [children]
    exact (hc _ hfn).here.2.2 kind rfl

/-- A ground type is settled, if there are levels for it. -/
theorem settled (h : T.Ground aliases) (hf : T.Fits n) : T.Settled aliases n :=
  ⟨h.wellFormed, ⟨h.mono fun _ hU => hU.2.1, h.betaNormal⟩, hf⟩

end Ground

/-- Lifting changes variables only, and they are ground. -/
theorem ground_lift : (T.lift k c).Ground aliases ↔ T.Ground aliases :=
  everyShape_lift (P := Shape.Ground aliases) Shape.ground_var

/-- Ground types have ground instances. -/
theorem Ground.inst (hb : body.Ground aliases) (hA : A.Ground aliases) :
    (body.inst A).Ground aliases :=
  EveryShape.inst (P := Shape.Ground aliases) Shape.ground_var hb hA

/-! ## resolving over tame tables -/

/-- Without operators there is nothing to normalise, so a type resolves to its expansion. -/
theorem exists_resolve (hal : aliases.Tame) (hT : T.WellFormed) (ho : T.OperatorFree) :
    ∃ U, U.Ground aliases ∧ ∃ n, ∀ m, n ≤ m → T.resolve aliases m = .ok U := by
  obtain ⟨n, U, hU⟩ := exists_expand hal.wellFormed hT fun name _ => hal.acyclic.acc name
  have hexp := expands_of_ok hU
  have hground : U.Ground aliases := by
    have hfree : U.EveryShape fun s => ∀ kind, s ≠ .binder (.op kind) :=
      hexp.everyShape hal.operatorFree ho
    exact (hexp.wellFormed.and (hexp.unknown.and hfree)).mono fun _ h => h
  obtain ⟨k, hk⟩ := exists_fits U
  refine ⟨U, hground, max n k, fun m hm => ?_⟩
  have hexpand : T.expand aliases m = .ok U := kept_expand (le_of_max_le_left hm) U hU
  rw [resolve, hexpand]
  exact reduce_of_betaNormal hground.wellFormed hground.betaNormal
    (hk.mono (le_of_max_le_right hm))

end Ty

end PolyLambda
