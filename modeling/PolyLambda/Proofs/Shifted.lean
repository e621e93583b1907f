import PolyLambda.Proofs.Blocks
import PolyLambda.Proofs.Laws
import PolyLambda.Proofs.Occurrences
import PolyLambda.Proofs.Scope

/-!
# PolyLambda.Proofs.Shifted

Types that are resolved under further type scopes. A type that has been resolved once is moved by
shifting it, and is not resolved again. This gives what would have been found by resolving the type
where it is moved to: expansion and normalisation do the same steps on a type and on its lifting,
with the same levels left at each, so they end together and the results differ by the same lifting.

Two things make this so. A definition has no free variables, so that it is its own lifting. And the
application of an operator commutes with lifting, as far as its levels go.

* `Ty.mapParts_lift`: rebuilding a node commutes with lifting, if this holds of its parts.
* `Ty.expand_lift`, `Ty.reduce_lift`, `Ty.resolve_lift`: the two traversals, and both together.
* `Context.resolve_shift`: resolving a shifted type.
-/

namespace PolyLambda

open Ty

/-- No variable in a definition points beyond it. -/
def Aliases.Sealed (aliases : Aliases) : Prop :=
  ∀ name T, aliases.definition? name = some T → T.EveryVar (fun c i => i < c) 0

theorem Aliases.Closed.sealed {aliases : Aliases} (h : aliases.Closed) : aliases.Sealed :=
  fun name T hT => EveryVar.mono (h name T hT) fun _ _ hi => hi.2

namespace Ty

variable {aliases : Aliases} {total n k c : Nat} {T : Ty}

/-- Lifting does not change a type in which no variable points beyond it. -/
theorem lift_eq_of_bound (h : T.EveryVar (fun c i => i < c) 0) : T.lift k c = T := by
  have hid : T.lift k c = T.replace (fun _ i => .var i) c :=
    replace_congr (h.mono fun n i hi => if_pos (by omega))
  rw [hid, replace_id fun _ _ => rfl]

/-! ## nodes -/

/-- A lifting has no new shapes but variables. -/
theorem shape_lift_ne {s : Shape} (hs : ∀ i, s ≠ .var i) (h : T.shape ≠ s) :
    (T.lift k c).shape ≠ s := by
  cases T with
  | var i =>
    obtain ⟨j, hj⟩ := exists_lift_var (k := k) (c := c) i
    rw [hj]
    exact (hs j).symm
  | _ => rwa [lift, shape_replace (by simp [shape])]

/-- Rebuilding the lifting of a node gives the lifting of what is rebuilt, or the same failure, if
this is so for each part. -/
theorem mapParts_lift {f : Nat → Ty → Except Fault Ty} (hd : T.shape.Distinct)
    (hf : ∀ A ∈ T.children, f T.shape.binds (A.lift k (c + T.shape.binds)) =
      (f T.shape.binds A).map (·.lift k (c + T.shape.binds))) :
    (T.lift k c).mapParts f = (T.mapParts f).map (·.lift k c) := by
  by_cases hv : ∃ i, T.shape = .var i
  · obtain ⟨i, hi⟩ := hv
    obtain rfl := eq_of_shape_var hi
    obtain ⟨j, hj⟩ := exists_lift_var (k := k) (c := c) i
    simp only [mapParts, Except.map, hj]
  have hs : (T.lift k c).shape = T.shape := shape_replace (not_exists.1 hv)
  have hc : (T.lift k c).children = T.children.map (·.lift k (c + T.shape.binds)) :=
    children_replace (not_exists.1 hv)
  cases hT : T.mapParts f with
  | ok U =>
    obtain ⟨-, hsU, hcU⟩ := mapParts_eq_ok.1 hT
    have hvU : ∀ i, U.shape ≠ .var i := hsU ▸ not_exists.1 hv
    have hcU' : (U.lift k c).children = U.children.map (·.lift k (c + T.shape.binds)) :=
      hsU ▸ children_replace hvU
    refine mapParts_eq_ok.2 ⟨hs ▸ hd, ?_, ?_⟩
    · rw [hs, ← hsU]
      exact shape_replace hvU
    · rw [hc, hcU', hs, List.forall₂_map_left_iff, List.forall₂_map_right_iff]
      refine forall₂_children hsU.symm fun A B hAB => ?_
      have hB : f T.shape.binds A = .ok B := List.forall₂_zip hcU hAB
      rw [hf A (List.of_mem_zip hAB).1, hB]
      rfl
  | error e =>
    have hsame : ∀ A ∈ T.children, failure? (f T.shape.binds (A.lift k (c + T.shape.binds))) =
        failure? (f T.shape.binds A) := by
      intro A hA
      rw [hf A hA]
      cases f T.shape.binds A <;> rfl
    -- the first part that fails is at the same place
    rw [← failure?_eq_some, failure?_mapParts hd] at hT
    refine failure?_eq_some.1 ?_
    rw [failure?_mapParts (hs ▸ hd), hc, hs, List.findSome?_map, ← hT]
    exact findSome?_congr hsame

/-! ## traversals -/

/-- A type and its lifting are expanded in the same steps. -/
theorem expand_lift (hal : aliases.WellFormed) (hse : aliases.Sealed) (hT : T.WellFormed) :
    (T.lift k c).expand aliases n = (T.expand aliases n).map (·.lift k c) := by
  induction n generalizing T c with
  | zero => rfl
  | succ n ih =>
    by_cases hname : ∃ name, T.shape = .named name
    · obtain ⟨name, hname⟩ := hname
      obtain rfl := eq_of_shape_named hname
      change (Ty.named name).expand aliases (n + 1) = _
      rw [expand]
      cases hD : aliases.definition? name with
      | none => rfl
      | some D =>
        -- the definition is its own lifting, and so is its expansion
        have hexp := ih (c := c) (hal name D hD)
        rwa [lift_eq_of_bound (hse name D hD)] at hexp
    · have hnames := not_exists.1 hname
      rw [expand_node hT.here.1 hnames, expand_node (shape_lift_ne (by simp) hT.here.1)
        fun name => shape_lift_ne (by simp) (hnames name)]
      exact mapParts_lift hT.here.2 fun A hA => ih (hT.child hA)

/-- A type and its lifting are normalised in the same steps. -/
theorem reduce_lift (hT : T.WellFormed) :
    (T.lift k c).reduce total n = (T.reduce total n).map (·.lift k c) := by
  induction n generalizing T c with
  | zero => rfl
  | succ n ih =>
    by_cases ha : T.shape = .app
    · cases T with
      | app fn arg =>
        have hfn := ih (c := c) (hT.child (U := fn) (by simp [children]))
        have harg := ih (c := c) (hT.child (U := arg) (by simp [children]))
        change (Ty.app (fn.lift k c) (arg.lift k c)).reduce total (n + 1) = _
        cases hF : fn.reduce total n with
        | error e =>
          rw [reduce, reduce, hfn, hF]
          rfl
        | ok F =>
          cases hA : arg.reduce total n with
          | error e =>
            rw [reduce, reduce, hfn, harg, hF, hA]
            rfl
          | ok A =>
            have hAl : (arg.lift k c).reduce total n = .ok (A.lift k c) := by
              rw [harg, hA]
              rfl
            by_cases hr : (Ty.app F A).IsRedex
            · obtain ⟨kind, body, _, hFA⟩ := hr
              obtain ⟨rfl, rfl⟩ := Ty.app.inj hFA
              have hbody : body.WellFormed :=
                (reduces_of_ok hF).wellFormed_result.child (by simp [children])
              have hAwf := (reduces_of_ok hA).wellFormed_result
              have hFl : (fn.lift k c).reduce total n =
                  .ok (.binder (.op kind) (body.lift k (c + 1))) := by
                rw [hfn, hF]
                rfl
              rw [reduce_app_of_operator hFl hAl, reduce_app_of_operator hF hA,
                instantiate_lift hbody hAwf]
              cases hV : body.instantiate total A with
              | error e => rfl
              | ok V =>
                obtain ⟨-, -, rfl⟩ := instantiate_ok hV
                exact ih (hbody.inst hAwf)
            · have hFl : (fn.lift k c).reduce total n = .ok (F.lift k c) := by
                rw [hfn, hF]
                rfl
              have hrl : ¬ ((Ty.app F A).lift k c).IsRedex := mt isRedex_lift.1 hr
              rw [reduce_app_of_not_redex hFl hAl hrl, reduce_app_of_not_redex hF hA hr]
              rfl
      | _ => simp [shape] at ha
    · rw [reduce_node hT.here.1 ha, reduce_node (shape_lift_ne (by simp) hT.here.1)
        (shape_lift_ne (by simp) ha)]
      exact mapParts_lift hT.here.2 fun A hA => ih (hT.child hA)

theorem resolve_lift (hal : aliases.WellFormed) (hse : aliases.Sealed) (hT : T.WellFormed) :
    (T.lift k c).resolve aliases n = (T.resolve aliases n).map (·.lift k c) := by
  rw [resolve, resolve, expand_lift hal hse hT]
  cases hV : T.expand aliases n with
  | error e => rfl
  | ok V => exact reduce_lift (expands_of_ok hV).wellFormed

end Ty

/-! ## resolving in a context -/

/-- A type that fits the levels of a context is shifted, and then resolved. If the type itself
resolves, this gives the shift of what it resolves to, and otherwise levels run out as they did for
the type itself. -/
theorem Context.resolve_shift {Γ : Context} {T : Ty} (d : Nat) (hal : Γ.aliases.WellFormed)
    (hse : Γ.aliases.Sealed) (hT : T.WellFormed) (hf : T.height ≤ Γ.limit.levels) :
    ∃ L, (Γ.limit.run fun n => T.shift n d) = .ok L ∧
      ((∃ U V, Γ.resolve T = .ok U ∧ (Γ.limit.run fun n => U.shift n d) = .ok V ∧
          Γ.resolve L = .ok V) ∨
        Γ.resolve T = .error (Γ.limit.overrun none) ∧
          Γ.resolve L = .error (Γ.limit.overrun none)) := by
  refine ⟨T.lift d 0, run_shift_of_fits hT (fits_iff.2 hf), ?_⟩
  rw [resolve, resolve, Limit.run, Limit.run, resolve_lift hal hse hT]
  cases hU : T.resolve Γ.aliases Γ.limit.levels with
  | ok U =>
    have hsettled := (Ty.resolve_ok hU).2
    exact .inl ⟨U, U.lift d 0, rfl, run_shift_of_fits hsettled.wellFormed hsettled.fits, rfl⟩
  | error e =>
    obtain rfl := Ty.resolve_error hal hT hU
    exact .inr ⟨rfl, rfl⟩

theorem abbreviations_wellFormed : abbreviations.WellFormed := by
  have hpair : (Ty.binder (.op .star) (.product [.var 0, .var 0])).WellFormed :=
    (shift_ok (n := 3) (k := 0) rfl).1
  have htwice : (Ty.binder (.op (.arrow .star .star))
      (.binder (.op .star) (.app (.var 1) (.app (.var 1) (.var 0))))).WellFormed :=
    (shift_ok (n := 5) (k := 0) rfl).1
  have hloop : (Ty.product [.named "Loop"]).WellFormed := (shift_ok (n := 2) (k := 0) rfl).1
  exact ((Aliases.wellFormed_empty.insert hpair).insert htwice).insert hloop

theorem abbreviations_closed : abbreviations.Closed := by
  have hpair : (Ty.binder (.op .star) (.product [.var 0, .var 0])).Scoped 0 :=
    scoped_of_inScope (m := 3) rfl
  have htwice : (Ty.binder (.op (.arrow .star .star))
      (.binder (.op .star) (.app (.var 1) (.app (.var 1) (.var 0))))).Scoped 0 :=
    scoped_of_inScope (m := 5) rfl
  have hloop : (Ty.product [.named "Loop"]).Scoped 0 := scoped_of_inScope (m := 2) rfl
  exact ((Aliases.closed_empty.insert hpair).insert htwice).insert hloop

/-- Pairs of pairs of a free variable. -/
def Ty.fourfold : Ty :=
  .app (.app (.named "Twice") (.named "Pair")) (.var 0)

/-- Under three more scopes the free variable is the one that it was, and eight levels are needed
there as well. -/
theorem Context.resolve_shift_fourfold :
    abbreviations.WellFormed ∧ abbreviations.Sealed ∧ fourfold.WellFormed ∧ fourfold.height ≤ 7 ∧
      (abbreviating 7).resolve (.app (.app (.named "Twice") (.named "Pair")) (.var 3)) =
        .error (.type ⟨.tooDeep 7, none⟩) ∧
      (abbreviating 8).resolve (.app (.app (.named "Twice") (.named "Pair")) (.var 3)) =
        .ok (.product [.product [.var 3, .var 3], .product [.var 3, .var 3]]) := by
  have hsealed := abbreviations_closed.sealed
  have hwf : fourfold.WellFormed := (shift_ok (n := 3) (k := 0) rfl).1
  refine ⟨abbreviations_wellFormed, hsealed, hwf, by decide, ?_, ?_⟩
  · obtain ⟨L, hL, hends⟩ := resolve_shift (Γ := abbreviating 7) (T := fourfold) 3
      abbreviations_wellFormed hsealed hwf (by decide)
    obtain rfl := Except.ok.inj hL
    obtain ⟨U, -, hU, -⟩ | ⟨-, h⟩ := hends
    · exact absurd hU nofun
    · exact h
  · obtain ⟨L, hL, hends⟩ := resolve_shift (Γ := abbreviating 8) (T := fourfold) 3
      abbreviations_wellFormed hsealed hwf (by decide)
    obtain rfl := Except.ok.inj hL
    obtain ⟨U, V, hU, hV, h⟩ | ⟨h, -⟩ := hends
    · obtain rfl := Except.ok.inj hU
      obtain rfl := Except.ok.inj hV
      exact h
    · exact absurd h nofun

end PolyLambda
