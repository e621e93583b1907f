import PolyLambda.Proofs.Coupling
import PolyLambda.Proofs.Sound

/-!
# PolyLambda.Proofs.Scope

Types that the checker gives make sense where it gives them. Nothing in them is left to be
computed, and they mention only the type variables of the open scopes: a variable that is hidden
by a package does not leak out of its scope, where its index would denote another one.

The checker does not look at scopes anywhere but where a package is opened. That they are kept
is a property of the operations on types, of which each one is right at its depth.

* `Ty.Scoped.lift`, `Ty.Scoped.inst`, `Ty.Scoped.of_lift` and `Ty.Steps.scoped`: what the operations
  do to the scope of a type.
* `Coupling.scoped` puts a check beside itself, with all types in scope.
* `Checker.typeOf_resolved` and `Checker.typeOf_scoped` are the statements for the checker.
-/

namespace PolyLambda

open Ty

/-! ## scopes of types -/

namespace Ty

variable {aliases : Aliases} {n : Nat} {T U A : Ty}

/-- The variables of a type in a scope, counted from the outside of the type. -/
theorem Scoped.everyVar (h : T.Scoped n) : T.EveryVar (fun c i => 0 ≤ i ∧ i < c + n) 0 :=
  EveryVar.mono h fun m i hi => ⟨hi.1, by omega⟩

theorem scoped_var {i : Int} (h0 : 0 ≤ i) (hn : i < n) : (Ty.var i).Scoped n :=
  .var ⟨h0, hn⟩

/-- A test for types in a scope that nest at most as deep as there are levels. -/
def inScope : (levels n : Nat) → Ty → Bool
  | 0, _, _ => false
  | _ + 1, n, .var i => decide (0 ≤ i ∧ i < n)
  | m + 1, n, T => T.children.all (inScope m (n + T.shape.binds))

/-- The test for types is sound, whatever the number of levels. -/
theorem scoped_of_inScope {m : Nat} (h : T.inScope m n = true) : T.Scoped n := by
  induction m generalizing n T with
  | zero => simp [inScope] at h
  | succ m ih =>
    by_cases hvar : ∃ i, T = .var i
    · obtain ⟨i, rfl⟩ := hvar
      exact .var (of_decide_eq_true h)
    · have hne : ∀ i, T ≠ .var i := fun i hi => hvar ⟨i, hi⟩
      rw [inScope, List.all_eq_true] at h
      · refine .node (fun i hi => ?_) fun U hU => ih (h U hU)
        cases T <;> simp_all [shape]
      · exact hne

/-- More scopes are opened around a type. -/
theorem Scoped.lift (h : T.Scoped n) (k : Nat) : (T.lift k 0).Scoped (n + k) := by
  refine EveryVar.replace h.everyVar fun m i hi => ?_
  rw [Nat.zero_add] at hi ⊢
  obtain ⟨h0, hlt⟩ := hi
  unfold liftVar
  split
  · exact scoped_var h0 (by omega)
  · exact scoped_var (by omega) (by omega)

/-- The variable of the innermost scope is replaced. -/
theorem Scoped.inst (h : T.Scoped (n + 1)) (hA : A.Scoped n) : (T.inst A).Scoped n := by
  refine EveryVar.replace h.everyVar fun m i hi => ?_
  rw [Nat.zero_add] at hi ⊢
  obtain ⟨h0, hlt⟩ := hi
  unfold instVar
  split
  · exact scoped_var h0 (by omega)
  · split
    · exact hA.lift m
    · exact scoped_var (by omega) (by omega)

/-- The innermost scope is closed around a type that does not mention its variable. -/
theorem Scoped.of_lift (h : (T.lift 1 0).Scoped (n + 1)) : T.Scoped n := by
  have hunit : Ty.unit.Scoped n := .node nofun (by simp [children])
  rw [← inst_lift (T := T) (A := .unit)]
  exact h.inst hunit

/-- Computing does not free variables, as aliases are closed. -/
theorem Contract.scoped (hcl : aliases.Closed) (h : Contract aliases T U) (hT : T.Scoped n) :
    U.Scoped n := by
  cases h with
  | beta kind body A =>
    have hfn : (Ty.binder (.op kind) body).Scoped n := hT.child (by simp [children])
    have hbody : body.Scoped (n + 1) := hfn.child (by simp [children])
    exact hbody.inst (hT.child (by simp [children]))
  | unfold h => exact (hcl _ _ h).mono (Nat.zero_le n)

/-- A step below a node is a step in the scopes that the node opens. -/
theorem Step.scoped (hcl : aliases.Closed) (h : Step aliases T U) (hT : T.Scoped n) :
    U.Scoped n := by
  induction h generalizing n with
  | here h => exact h.scoped hcl hT
  | @inside T U A B before after hs hchildren hchildren' _ ih =>
    have hvar : ∀ i, U.shape ≠ .var i := by
      intro i hi
      have hlen := length_children U
      rw [hi, hchildren'] at hlen
      simp [Shape.arity] at hlen
    refine .node hvar fun V hV => ?_
    have hkept : ∀ W ∈ T.children, W.Scoped (n + U.shape.binds) := by
      rw [← hs]
      exact fun W hW => hT.child hW
    rw [hchildren] at hkept
    rw [hchildren'] at hV
    obtain hV | rfl | hV := by simpa using hV
    · exact hkept V (by simp [hV])
    · exact ih (hkept A (by simp))
    · exact hkept V (by simp [hV])

/-- Nor do any number of steps. -/
theorem Steps.scoped (hcl : aliases.Closed) (h : Steps aliases T U) (hT : T.Scoped n) :
    U.Scoped n := by
  induction h with
  | refl => exact hT
  | tail _ hstep ih => exact Step.scoped hcl hstep ih

end Ty

/-! ## scopes of terms and contexts -/

/-- Every type that is written in a term mentions only type variables in scope at its place, if
`n` scopes are open around the term. -/
def Term.Scoped (n : Nat) (t : Term) : Prop :=
  t.EveryType (fun d T => T.Scoped d) n

/-- A test for terms in a scope. -/
def Term.inScope : (levels n : Nat) → Term → Bool
  | 0, _, _ => false
  | m + 1, n, t =>
    t.types.all (Ty.inScope m n) && t.parts.all fun p => inScope m (n + p.1) p.2

/-- The test for terms is sound as well. -/
theorem Term.scoped_of_inScope {m n : Nat} {t : Term} (h : t.inScope m n = true) :
    t.Scoped n := by
  induction m generalizing n t with
  | zero => simp [inScope] at h
  | succ m ih =>
    rw [inScope, Bool.and_eq_true, List.all_eq_true, List.all_eq_true] at h
    exact ⟨fun T hT => Ty.scoped_of_inScope (h.1 T hT), fun p hp => ih (h.2 p hp)⟩

namespace Context

variable {Γ : Context} {T U : Ty}

/-- The type of every variable mentions only type variables of the scopes that were open when the
variable was bound. -/
def Scoped (Γ : Context) : Prop :=
  ∀ e ∈ Γ.stack, e.ty.Scoped e.depth

theorem scoped_fresh (aliases : Aliases) (limit : Limit) : (fresh aliases limit).Scoped := by
  simp [Scoped, fresh]

/-- A variable of a type in scope is bound. -/
theorem Scoped.bindOne (h : Γ.Scoped) (hU : U.Scoped Γ.depth) : (Γ.bindOne U).Scoped :=
  List.forall_mem_cons.2 ⟨hU, h⟩

/-- A look-up lifts a type over the scopes opened since. -/
theorem Scoped.lookUp (h : Γ.Scoped) (hΓ : Γ.Good) {i : Int} {span : Option Span}
    (hT : Γ.lookUp i span = .ok T) : T.Scoped Γ.depth := by
  obtain ⟨r, hr, hT⟩ := bind_eq_ok.1 hT
  cases he : Γ.entry? i with
  | none =>
    obtain rfl : none = r := by simpa [find, he] using hr
    contradiction
  | some e =>
    have hmem := mem_of_entry he
    have hdepth := hΓ.balanced e hmem
    obtain rfl := find_ok he hdepth hr
    obtain rfl := Except.ok.inj hT
    have hlift := (h e hmem).lift (Γ.depth - e.depth)
    rwa [Nat.add_sub_cancel' hdepth] at hlift

/-- Resolving a type leaves it in scope. -/
theorem resolve_scoped (hcl : Γ.aliases.Closed) (h : Γ.resolve T = .ok U) {n : Nat}
    (hT : T.Scoped n) : U.Scoped n :=
  Steps.scoped hcl (resolve_ok h).1 hT

/-- An instance needs one variable less than the body. -/
theorem instantiate_scoped (hcl : Γ.aliases.Closed) {limit : Limit} {body A : Ty}
    (h : Γ.instantiate limit body A = .ok U) {n : Nat} (hb : body.Scoped (n + 1))
    (hA : A.Scoped n) : U.Scoped n := by
  obtain ⟨V, hV, hU⟩ := bind_eq_ok.1 h
  obtain ⟨-, -, rfl⟩ := instantiate_ok (mapError_eq_ok.1 hV)
  exact resolve_scoped hcl hU (hb.inst hA)

end Context

/-! ## the checker -/

/-- A check beside itself, over closed definitions and with every type in scope. -/
def Coupling.scoped (l : Limit) {aliases : Aliases} (hcl : aliases.Closed) (limit : Limit) :
    Coupling l l where
  Contexts Γ Γ' := Γ = Γ' ∧ Γ.Good ∧ Γ.Scoped ∧ Γ.aliases = aliases ∧ Γ.limit = limit
  Types d T := T.Inferred aliases limit.levels ∧ T.Scoped d
  Written d T T' := T = T' ∧ T.Scoped d
  Spans := Eq
  Fails e r := r = some e
  good := by
    rintro Γ _ ⟨rfl, h, -⟩
    exact ⟨h, h⟩
  openScope := by
    rintro Γ _ ⟨rfl, h, hscoped, hal, hlim⟩
    exact ⟨rfl, h.openScope, hscoped, hal, hlim⟩
  push := by
    rintro Γ _ T ⟨rfl, h, hscoped, rfl, rfl⟩ ⟨-, hT⟩
    refine .same (fun U hU => ?_) fun _ _ => rfl
    exact ⟨rfl, h.bindOne (Context.resolve_ok hU).2,
      hscoped.bindOne (Context.resolve_scoped hcl hU hT), rfl, rfl⟩
  inferred := by
    rintro Γ _ T ⟨rfl, -, -, rfl, rfl⟩ ⟨hT, -⟩
    exact ⟨hT, hT⟩
  node := by
    intro d T hs hc
    refine ⟨.plain hs fun A hA => (hc A hA).1, .node ?_ fun A hA => (hc A hA).2⟩
    intro i hi
    rw [hi] at hs
    exact hs
  child := fun h hA => ⟨h.1.child hA, h.2.child hA⟩
  lookUp := by
    rintro Γ _ i s _ ⟨rfl, h, hscoped, rfl, rfl⟩ rfl
    exact .same (fun T hT => ⟨h.lookUp_inferred hT, hscoped.lookUp h hT⟩) fun _ _ => rfl
  resolve := by
    rintro Γ _ T _ ⟨rfl, -, -, rfl, rfl⟩ ⟨rfl, hT⟩
    refine .same (fun U hU => ?_) fun _ _ => rfl
    exact ⟨(Context.resolve_ok hU).2.inferred, Context.resolve_scoped hcl hU hT⟩
  instantiate := by
    rintro Γ _ body A ⟨rfl, -, -, rfl, rfl⟩ ⟨-, hb⟩ ⟨-, hA⟩
    refine .same (fun U hU => ?_) fun _ _ => rfl
    exact ⟨(Context.instantiate_settled hU).inferred, Context.instantiate_scoped hcl hU hb hA⟩
  lower := by
    rintro d B s _ ⟨hB, hscoped⟩ rfl
    refine .same (fun U hU => ?_) fun _ _ => rfl
    rw [Limit.lower_ok hU] at hB hscoped
    exact ⟨inferred_lift.1 hB, hscoped.of_lift⟩
  mistake := by
    rintro m m' s _ hm rfl
    rw [hm.eq]
  orElse := @orElse_congr

namespace Checker

open Check

/-- Nothing is left to be computed in a type that is given: no name that has a definition, and no
application of an operator. A name entered without a type has none. -/
theorem typeOf_resolved (c : Checker) {aliases : Aliases} {Γ : Context} {Δ : Telescope}
    (h : Context.Reaches aliases Γ Δ) {t : Term} {T : Ty}
    (hT : ((c.typeOf t).run Γ).result = .ok T) : T.Resolved aliases := by
  have hready : Ready False Fault.Expected Γ t := ⟨h.good, False.elim, False.elim⟩
  have hinferred : T.Inferred Γ.aliases Γ.limit.levels :=
    (c.infer_inferred c.limit.levels t Γ hready).of_ok (typeOf_eq_ok.1 hT)
  rw [← h.represents.1]
  exact hinferred.resolved

/-- A number and, in a type scope, a variable of the type of the scope; inside there is another
scope. -/
def nested : Context :=
  ⟨[⟨.var 0, 1⟩, ⟨.nat, 0⟩], 2, numbers, ⟨40, none⟩⟩

theorem nested_reaches :
    Context.Reaches numbers nested [.scope, .term (.var 0), .scope, .term (.named "N")] := by
  have hnumber : (Context.fresh numbers ⟨40, none⟩).push (.named "N") =
      .ok ⟨[⟨.nat, 0⟩], 0, numbers, ⟨40, none⟩⟩ := rfl
  have hvar : (Context.openScope ⟨[⟨.nat, 0⟩], 0, numbers, ⟨40, none⟩⟩).push (.var 0) =
      .ok ⟨[⟨.var 0, 1⟩, ⟨.nat, 0⟩], 1, numbers, ⟨40, none⟩⟩ := rfl
  exact .openScope (.push (.openScope (.push (.fresh _) hnumber)) hvar)

/-- A package is opened, and inside it a function is made whose argument has a type that is given
by an operator, at the type variable of the outer scope. -/
def opening : Term :=
  .unpack (.pack .nat (.lit (.nat 0) none) (.binder .ex (.var 0)) none)
    (.abs (.app (.binder (.op .star) (.arrow (.var 0) (.named "N"))) (.var 2)) (.var 2 none) none)
    none

/-- The operator is applied and the name replaced. -/
theorem typeOf_resolved_opening :
    ((typeOf ⟨∅, ⟨40, none⟩, false⟩ opening).run nested).result =
        .ok (.arrow (.arrow (.var 1) .nat) (.var 1)) ∧
      (Ty.arrow (.arrow (.var 1) .nat) (.var 1)).Resolved numbers := by
  have hrun : ((typeOf ⟨∅, ⟨40, none⟩, false⟩ opening).run nested).result =
      .ok (.arrow (.arrow (.var 1) .nat) (.var 1)) := rfl
  exact ⟨hrun, typeOf_resolved _ nested_reaches hrun⟩

/-! ## types in scope -/

/-- Inference of a term in scope gives a type in scope. -/
theorem infer_scoped (c : Checker) (n : Nat) {Γ : Context} (hcl : Γ.aliases.Closed) (hΓ : Γ.Good)
    (hscoped : Γ.Scoped) {t : Term} (hwf : t.WellFormed) (ht : t.Scoped Γ.depth) {T : Ty}
    (h : ((c.infer n t).run Γ).result = .ok T) : T.Scoped Γ.depth := by
  let K := Coupling.scoped c.limit hcl Γ.limit
  have hparts : K.Parts (c.infer n) (c.infer n) :=
    K.infer_inStep (Nat.le_refl n) fun ht => .inr ⟨rfl, congrArg some (ht.overrun_congr c.limit)⟩
  have hterm : K.Terms Γ.depth t t := ht.alike (fun _ _ hT => ⟨rfl, hT⟩) (fun _ _ => rfl) hwf
  cases hparts ⟨rfl, hΓ, hscoped, rfl, rfl⟩ hterm with
  | ok hrun _ hU =>
    rw [hrun] at h
    obtain rfl := Except.ok.inj h
    exact hU.2
  | stop hrun _ | error hrun _ _ =>
    rw [hrun] at h
    contradiction

/-- In a context whose variables have types in scope, a term in scope is given a type in scope. So
a closed term is given a closed type. -/
theorem typeOf_scoped (c : Checker) :
    (∀ {aliases : Aliases} {Γ : Context} {Δ : Telescope}, aliases.Closed →
      Context.Reaches aliases Γ Δ → Γ.Scoped → ∀ {t : Term} {T : Ty}, t.WellFormed →
      t.Scoped Γ.depth → ((c.typeOf t).run Γ).result = .ok T → T.Scoped Γ.depth) ∧
    (c.aliases.Closed → ∀ {t : Term} {T : Ty}, t.WellFormed → t.Scoped 0 →
      (c.typeOfClosed t).result = .ok T → T.Scoped 0) := by
  constructor
  · intro aliases Γ Δ hcl hΓ hscoped t T hwf ht hT
    have hcl' : Γ.aliases.Closed := hΓ.represents.1 ▸ hcl
    exact c.infer_scoped c.limit.levels hcl' hΓ.good hscoped hwf ht (typeOf_eq_ok.1 hT)
  · intro hcl t T hwf ht hT
    have hgood : c.freshContext.Good := Context.good_fresh c.aliases c.limit
    have hscoped : c.freshContext.Scoped := Context.scoped_fresh c.aliases c.limit
    exact c.infer_scoped c.limit.levels hcl hgood hscoped hwf ht (typeOf_eq_ok.1 hT)

/-- The variable of the outer scope is variable `2` inside the package and `1` outside it. -/
theorem typeOf_scoped_opening :
    opening.Scoped nested.depth ∧
      ((typeOf ⟨∅, ⟨40, none⟩, false⟩ opening).run nested).result =
        .ok (.arrow (.arrow (.var 1) .nat) (.var 1)) ∧
      (Ty.arrow (.arrow (.var 1) .nat) (.var 1)).Scoped 2 := by
  have hstack : nested.Scoped := by
    have hvar : (Ty.var 0).Scoped 1 := scoped_of_inScope (m := 1) rfl
    have hnat : Ty.nat.Scoped 0 := scoped_of_inScope (m := 1) rfl
    simpa [Context.Scoped, nested] using ⟨hvar, hnat⟩
  have hwf : opening.WellFormed := Term.wellFormed_of_formed (n := 6) rfl
  have hterm : opening.Scoped nested.depth := Term.scoped_of_inScope (m := 6) rfl
  have hrun : ((typeOf ⟨∅, ⟨40, none⟩, false⟩ opening).run nested).result =
      .ok (.arrow (.arrow (.var 1) .nat) (.var 1)) := rfl
  exact ⟨hterm, hrun, (typeOf_scoped _).1 numbers_closed nested_reaches hstack hwf hterm hrun⟩

end Checker

end PolyLambda
