import PolyLambda.Proofs.Scope

/-!
# PolyLambda.Proofs.Within

The type of a closed term does not depend on where it is checked. A context in which a check
begins may have variables on its stack and scopes open already, and then all depths that the check
sees are greater. But a look-up uses only the distance between two depths, and a scope is closed
after a look at the top of the stack, where what was there before lies outside of the scope.

* `Context.within` puts a context on top of another one, and commutes with what the rules do to
  contexts.
* `Context.lookUp_within`: variables that are bound in the upper context keep their types.
* `Coupling.within` puts a check beside the same check on top of another context.
* `Checker.typeOf_everywhere`: what is typed in a context of its own has that type in every context.
-/

namespace PolyLambda

open Ty

/-! ## a context on top of another -/

/-- An entry with more scopes open outside. -/
def Entry.raise (e : Entry) (k : Nat) : Entry :=
  ⟨e.ty, e.depth + k⟩

namespace Context

variable {Γ base : Context} {T : Ty} {i : Int}

/-- A context on top of another one: its variables come first, and its depths are counted on from
the depth below. -/
def within (Γ base : Context) : Context :=
  { Γ with
    stack := Γ.stack.map (·.raise base.depth) ++ base.stack
    depth := Γ.depth + base.depth }

/-- With nothing bound on top, there is only the context underneath. -/
theorem fresh_within (base : Context) : (fresh base.aliases base.limit).within base = base := by
  simp [within, fresh]

/-- A scope may be opened before or after a context is put underneath. -/
theorem openScope_within : (Γ.within base).openScope = Γ.openScope.within base := by
  simp only [openScope, within, Context.mk.injEq, true_and]
  exact ⟨Nat.add_right_comm _ _ _, trivial⟩

/-- The same for a variable. -/
theorem bindOne_within (U : Ty) : (Γ.within base).bindOne U = (Γ.bindOne U).within base :=
  rfl

/-- A context on top of another is as good as both of them. -/
theorem Good.within (h : Γ.Good) (hbase : base.Good) (hal : Γ.aliases = base.aliases)
    (hlim : Γ.limit = base.limit) : (Γ.within base).Good := by
  constructor
  · intro e he
    obtain he | he := List.mem_append.1 he
    · obtain ⟨e, hmem, rfl⟩ := List.mem_map.1 he
      exact Nat.add_le_add_right (h.balanced e hmem) _
    · exact Nat.le_add_left_of_le (hbase.balanced e he)
  · intro e he
    obtain he | he := List.mem_append.1 he
    · obtain ⟨e, hmem, rfl⟩ := List.mem_map.1 he
      exact h.settled e hmem
    · have hset := hbase.settled e he
      rwa [← hal, ← hlim] at hset

/-- What is bound on top is found first. -/
theorem entry_within {e : Entry} (h : entry? Γ i = some e) :
    entry? (Γ.within base) i = some (e.raise base.depth) := by
  cases i with
  | negSucc i => contradiction
  | ofNat i =>
    have hi : Γ.stack[i]? = some e := h
    have hmap : (Γ.stack.map (·.raise base.depth))[i]? = some (e.raise base.depth) := by
      rw [List.getElem?_map, hi]
      rfl
    obtain ⟨hlt, -⟩ := List.getElem?_eq_some_iff.1 hmap
    exact (List.getElem?_append_left hlt).trans hmap

/-- A variable that is bound in the upper context is shifted over the scopes opened since it was
bound, and these are all in the upper context. -/
theorem find_within {e : Entry} (h : entry? Γ i = some e) : (Γ.within base).find i = Γ.find i := by
  have hdist : ((Γ.within base).depth : Int) - (e.raise base.depth).depth = Γ.depth - e.depth := by
    simp only [within, Entry.raise]
    omega
  have hhere : (e.raise base.depth).depth = (Γ.within base).depth ↔ e.depth = Γ.depth :=
    Nat.add_right_cancel_iff
  simp only [find, h, entry_within h, hhere, hdist]
  rfl

/-- A variable that is bound on top is looked up without regard to what is underneath. -/
theorem lookUp_within {span : Option Span} (h : Γ.lookUp i span = .ok T) :
    (Γ.within base).lookUp i span = .ok T := by
  cases he : entry? Γ i with
  | some e => rwa [lookUp, find_within he]
  | none =>
    have hnone : Γ.find i = .ok none := by rw [find, he]
    rw [lookUp, hnone] at h
    contradiction

end Context

/-! ## the checks side by side -/

/-- A check beside the same check on top of another context. The first may fail in any way: a
variable that is not bound above may be bound below. -/
def Coupling.within (l : Limit) {base : Context} (hbase : base.Good) : Coupling l l where
  Contexts Γ Γ' := Γ' = Γ.within base ∧ Γ.Good ∧ Γ.aliases = base.aliases ∧ Γ.limit = base.limit
  Types _ T := T.Inferred base.aliases base.limit.levels
  Written _ := Eq
  Spans := Eq
  Fails _ _ := True
  good := by
    rintro Γ _ ⟨rfl, h, hal, hlim⟩
    exact ⟨h, h.within hbase hal hlim⟩
  openScope := by
    rintro Γ _ ⟨rfl, h, hal, hlim⟩
    exact ⟨Context.openScope_within, h.openScope, hal, hlim⟩
  push := by
    rintro Γ _ T ⟨rfl, h, hal, hlim⟩ _
    refine .same (fun U hU => ?_) fun _ _ => trivial
    exact ⟨Context.bindOne_within U, h.bindOne (Context.resolve_ok hU).2, hal, hlim⟩
  inferred := by
    rintro Γ _ T ⟨rfl, -, hal, hlim⟩ hT
    rw [← hal, ← hlim] at hT
    exact ⟨hT, hT⟩
  node hs hc := .plain hs hc
  child h hA := h.child hA
  lookUp := by
    rintro Γ _ i s _ ⟨rfl, h, hal, hlim⟩ rfl
    cases hT : Γ.lookUp i s with
    | error e => exact .stop rfl trivial
    | ok T => exact .ok rfl (Context.lookUp_within hT) (hal ▸ hlim ▸ h.lookUp_inferred hT)
  resolve := by
    rintro Γ _ T _ ⟨rfl, -, hal, hlim⟩ rfl
    refine .same (fun U hU => ?_) fun _ _ => trivial
    exact hal ▸ hlim ▸ (Context.resolve_ok hU).2.inferred
  instantiate := by
    rintro Γ _ body A ⟨rfl, -, hal, hlim⟩ _ _
    refine .same (fun U hU => ?_) fun _ _ => trivial
    exact hal ▸ hlim ▸ (Context.instantiate_settled hU).inferred
  lower := by
    rintro d B s _ hB rfl
    refine .same (fun U hU => ?_) fun _ _ => trivial
    rw [Limit.lower_ok hU] at hB
    exact inferred_lift.1 hB
  mistake _ _ := trivial
  orElse := @orElse_congr

namespace Checker

/-- A type that inference gives in some context, it gives also on top of another context. -/
theorem infer_within (c : Checker) (n : Nat) {Γ base : Context} (hΓ : Γ.Good) (hbase : base.Good)
    (hal : Γ.aliases = base.aliases) (hlim : Γ.limit = base.limit) {t : Term} (ht : t.WellFormed)
    {T : Ty} (h : ((c.infer n t).run Γ).result = .ok T) :
    ((c.infer n t).run (Γ.within base)).result = .ok T := by
  let K := Coupling.within c.limit hbase
  have hparts : K.Parts (c.infer n) (c.infer n) :=
    K.infer_inStep (Nat.le_refl n) fun _ => .inl trivial
  have hterm : K.Terms Γ.depth t t := ht.alike (fun _ _ _ => rfl) fun _ => rfl
  cases hparts ⟨rfl, hΓ, hal, hlim⟩ hterm with
  | ok hrun hrun' _ =>
    rw [hrun] at h
    rw [hrun', ← h]
  | stop hrun _ | error hrun _ _ =>
    rw [hrun] at h
    contradiction

/-- A term that has a type in a context of its own has the same type in every context over the same
aliases and with the same limit, whatever variables and scopes are open there. -/
theorem typeOf_everywhere (c : Checker) {Γ : Context} {Δ : Telescope}
    (h : Context.Reaches c.aliases Γ Δ) (hlim : Γ.limit = c.limit) {t : Term} (ht : t.WellFormed)
    {T : Ty} (hT : (c.typeOfClosed t).result = .ok T) :
    ((c.typeOf t).run Γ).result = .ok T := by
  have hfresh : c.freshContext.within Γ = Γ := by
    rw [freshContext, ← h.represents.1, ← hlim]
    exact Γ.fresh_within
  have hgood : c.freshContext.Good := Context.good_fresh c.aliases c.limit
  have hinfer := c.infer_within c.limit.levels hgood h.good h.represents.1.symm hlim.symm ht
    (typeOf_eq_ok.1 hT)
  rw [hfresh] at hinfer
  exact typeOf_eq_ok.2 hinfer

/-- A polymorphic function that takes something of its type and of a type from outside, and gives it
back for any other type. -/
def constant : Term :=
  .tyAbs (.abs (.arrow (.var 0) (.var 3)) (.tyAbs (.var 0 none) none) none) none

/-- In a context of its own, and with two variables and two scopes open, the function has the same
type, and the argument is looked up over one scope of the function in both. -/
theorem typeOf_everywhere_constant :
    (typeOfClosed ⟨numbers, ⟨40, none⟩, false⟩ constant).result =
        .ok (.binder .all (.arrow (.arrow (.var 0) (.var 3))
          (.binder .all (.arrow (.var 1) (.var 4))))) ∧
      ((typeOf ⟨numbers, ⟨40, none⟩, false⟩ constant).run nested).result =
        .ok (.binder .all (.arrow (.arrow (.var 0) (.var 3))
          (.binder .all (.arrow (.var 1) (.var 4))))) := by
  have hwf : constant.WellFormed := Term.wellFormed_of_formed (n := 5) rfl
  have hrun : (typeOfClosed ⟨numbers, ⟨40, none⟩, false⟩ constant).result =
      .ok (.binder .all (.arrow (.arrow (.var 0) (.var 3))
        (.binder .all (.arrow (.var 1) (.var 4))))) := rfl
  exact ⟨hrun, typeOf_everywhere ⟨numbers, ⟨40, none⟩, false⟩ nested_reaches rfl hwf hrun⟩

end Checker

end PolyLambda
