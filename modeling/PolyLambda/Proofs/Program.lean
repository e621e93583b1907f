import PolyLambda.Proofs.Safe

/-!
# PolyLambda.Proofs.Program

Programs. A program is checked in one context that grows with each declaration, so types that were
inferred early are looked at again later. By then there may be more aliases. A name that was
unknown when a type was inferred is left in the type; if it is defined afterwards, the type
is no longer resolved. Programs go well if this does not happen: a name is defined before a
type that mentions it is bound.

* `Checker.declare` is one step of a program, and `Checker.Timely` says that names are
  defined in time.
* `Checker.declarations_follows`: the check of a program is the sequence of its steps; afterwards
  all variables are unbound again, and the aliases stay.
* `Checker.program_timely`: names being defined in time, a program ends with types or with a
  type error. `Checker.program_late` is a program that ends in an underflow of its context
  otherwise.
* `Checker.program_transparent`: names being defined in time, no name that has a definition is
  left in a type. `Checker.program_stale` is a program that leaves one otherwise.
-/

namespace PolyLambda

open Ty

/-! ## steps of a program -/

/-- How far the check of a program has come: the context for what follows, and the types of
the terms so far. -/
structure Stage where
  context : Context
  types : Table Ty

namespace Context

/-- The context with other aliases. -/
def withAliases (Γ : Context) (aliases : Aliases) : Context :=
  { Γ with aliases := aliases }

/-- A declaration comes in time: if it defines a name that had no definition, no variable has a
type that mentions the name. -/
def Admits (Γ : Context) : Declaration → Prop
  | .type name _ => Γ.aliases.definition? name = none →
      ∀ e ∈ Γ.stack, e.ty.EveryShape (· ≠ .named name)
  | _ => True

end Context

/-- A declaration that can be written down. -/
def Declaration.WellFormed : Declaration → Prop
  | .hole => False
  | .type _ ty => ty.WellFormed
  | .term _ body => body.WellFormed

namespace Checker

/-- The check of one declaration. -/
def declare (c : Checker) (p : Stage) : Declaration → Except Fault Stage
  | .hole => .ok p
  | .type name ty => .ok ⟨p.context.define name ty, p.types⟩
  | .term name body => do
    let T ← ((c.typeOf body).run p.context).result
    return ⟨← p.context.push T, p.types.insert name T⟩

/-- Every declaration comes in time, as far as the check gets. -/
def Timely (c : Checker) : Stage → List Declaration → Prop
  | _, [] => True
  | p, d :: ds => p.context.Admits d ∧ ∀ q, c.declare p d = .ok q → Timely c q ds

end Checker

/-! ## what a step preserves -/

/-- A type stays resolved when a name is defined that had a definition before, or that the type
does not mention. -/
theorem Ty.unknown_insert {aliases : Aliases} {name : String} {T U : Ty}
    (hT : T.EveryShape (Unknown aliases))
    (hname : aliases.definition? name = none → T.EveryShape (· ≠ .named name)) :
    T.EveryShape (Unknown (aliases.insert name U)) := by
  have hne : T.EveryShape (· ≠ .named name) := by
    cases hdef : aliases.definition? name with
    | none => exact hname hdef
    | some V =>
      -- a name that has a definition is in no resolved type
      refine hT.mono fun W hW heq => ?_
      have hnone := hW name heq
      rw [hdef] at hnone
      contradiction
  refine (hT.and hne).mono fun W hW key hkey => ?_
  have hkn : key ≠ name := fun h => hW.2 (h ▸ hkey)
  rw [Aliases.definition?_insert_of_ne hkn]
  exact hW.1 key hkey

namespace Context

variable {w : Prop} {Γ : Context} {U : Ty}

/-- A definition that is admitted keeps a context good. -/
theorem Good.define {name : String} {ty : Ty} (hΓ : Γ.Good) (h : Γ.Admits (.type name ty)) :
    (Γ.define name ty).Good := by
  refine ⟨hΓ.balanced, fun e he => ?_⟩
  have hs := hΓ.settled e he
  exact ⟨hs.wellFormed, ⟨unknown_insert hs.resolved.1 fun hnone => h hnone e he, hs.resolved.2⟩,
    hs.fits⟩

/-- A context in which declarations are checked. Where failures are watched, its aliases are
well formed, and the machine has room for its limit. -/
structure Steady (w : Prop) (Γ : Context) : Prop where
  good : Γ.Good
  wellFormed : w → Γ.aliases.WellFormed
  room : w → Γ.limit.machineBound = false

/-- Declaring a term binds one more variable, of a settled type. -/
theorem Steady.bindOne (h : Γ.Steady w) (hU : U.Settled Γ.aliases Γ.limit.levels) :
    (Γ.bindOne U).Steady w :=
  ⟨h.good.bindOne hU, h.wellFormed, h.room⟩

/-- Declaring a type adds an alias, and the variables stay as they are. -/
theorem Steady.define {name : String} {ty : Ty} (h : Γ.Steady w) (hty : w → ty.WellFormed)
    (ha : Γ.Admits (.type name ty)) : (Γ.define name ty).Steady w :=
  ⟨h.good.define ha, fun hw => (h.wellFormed hw).insert (hty hw), h.room⟩

end Context

/-- The fault is a type error. -/
def Fault.IsType (e : Fault) : Prop :=
  ∃ m, e = .type m

/-- Where the machine is not what bounds the depth, running out of levels is an error of types. -/
theorem Limit.overrun_isType {limit : Limit} (h : limit.machineBound = false)
    (span : Option Span) : (limit.overrun span).IsType := by
  rw [overrun, h]
  exact ⟨_, rfl⟩

namespace Checker

open Check

variable {c : Checker} {w : Prop} {Γ Δ : Context} {p q : Stage} {d : Declaration}
  {ds : List Declaration} {t : Term} {T U : Ty} {types : Table Ty} {name : String}

/-- A check gives an inferred type or a type error, in every good context. -/
theorem typeOf_meets (hΓ : Γ.Good) (hw : w → Γ.aliases.WellFormed ∧ t.WellFormed) :
    (c.typeOf t).Meets w Γ (·.Inferred Γ.aliases Γ.limit.levels) Fault.IsType := by
  have hready : Ready w Fault.Expected Γ t := ⟨hΓ, hw, fun _ => Limit.overrun_expected⟩
  cases c.infer_inferred c.limit.levels t Γ hready with
  | ok h hT => exact .ok (run_typeOf_of_ok h) hT
  | @error e _ _ h he =>
    obtain ⟨_, hrun⟩ := run_typeOf_of_error h
    refine .error hrun fun hw => ⟨(he hw).1, ?_⟩
    have hexpected := (he hw).2
    cases e with
    | type m => exact ⟨m, rfl⟩
    | outOfStack => exact ⟨_, rfl⟩
    | _ => exact hexpected.elim

/-- A term without a type ends the program with the error of that term. -/
theorem declare_term_of_error {e : Fault} (h : ((c.typeOf t).run p.context).result = .error e) :
    c.declare p (.term name t) = .error e := by
  rw [declare, h]
  rfl

/-- A term with a type is bound at that type, resolved, and the type is listed under the name. -/
theorem declare_term (name : String) (h : ((c.typeOf t).run p.context).result = .ok T) :
    c.declare p (.term name t) = (p.context.resolve T).map
      fun U => ⟨p.context.bindOne U, p.types.insert name T⟩ := by
  rw [declare, h]
  change (p.context.push T >>= _) = _
  cases hU : p.context.resolve T with
  | ok U =>
    rw [Context.push_eq_ok.2 ⟨U, hU, rfl⟩]
    rfl
  | error e =>
    rw [push_of_error hU]
    rfl

/-- This is the only way in which the declaration of a term is accepted. -/
theorem declare_term_ok (h : c.declare p (.term name t) = .ok q) :
    ∃ T U, ((c.typeOf t).run p.context).result = .ok T ∧ p.context.resolve T = .ok U ∧
      q = ⟨p.context.bindOne U, p.types.insert name T⟩ := by
  obtain ⟨T, hT, h⟩ := bind_eq_ok.1 h
  obtain ⟨Δ, hΔ, h⟩ := bind_eq_ok.1 h
  obtain ⟨U, hU, rfl⟩ := Context.push_eq_ok.1 hΔ
  exact ⟨T, U, hT, hU, (Except.ok.inj h).symm⟩

/-- What one step preserves. -/
theorem declare_steady (hp : p.context.Steady w) (hd : w → d.WellFormed)
    (ha : p.context.Admits d) (h : c.declare p d = .ok q) : q.context.Steady w := by
  cases d with
  | hole =>
    obtain rfl := Except.ok.inj h
    exact hp
  | type name ty =>
    obtain rfl := Except.ok.inj h
    exact hp.define hd ha
  | term name t =>
    obtain ⟨T, U, -, hU, rfl⟩ := declare_term_ok h
    exact hp.bindOne (Context.resolve_ok hU).2

/-! ## what a run preserves -/

/-- What the steps of declarations preserve that come in time. -/
theorem foldlM_declare_steady (hp : p.context.Steady w) (hds : w → ∀ d ∈ ds, d.WellFormed)
    (ht : c.Timely p ds) (h : ds.foldlM c.declare p = .ok q) : q.context.Steady w := by
  induction ds generalizing p with
  | nil =>
    obtain rfl := Except.ok.inj h
    exact hp
  | cons d ds ih =>
    rw [List.foldlM_cons] at h
    obtain ⟨r, hr, h⟩ := bind_eq_ok.1 h
    have hsteady := declare_steady hp (fun hw => hds hw d List.mem_cons_self) ht.1 hr
    exact ih hsteady (fun hw d hd => hds hw d (List.mem_cons_of_mem _ hd)) (ht.2 r hr) h

/-- The check of declarations went as their steps went. All variables are unbound again, and the
aliases are kept. If a step failed, this is said only where failures are watched. -/
inductive Follows (w : Prop) (Γ : Context) (o : Outcome (Table Ty)) (r : Except Fault Stage) :
    Prop where
  | ok {q : Stage} {log : List Event} (hr : r = .ok q)
      (ho : o = ⟨.ok q.types, Γ.withAliases q.context.aliases, log⟩)
  | error {e e' : Fault} {Δ : Context} {log : List Event} (hr : r = .error e)
      (ho : o = ⟨.error e', Δ, log⟩)
      (he : w → (∃ aliases, Δ = Γ.withAliases aliases) ∧ e' = e ∧ e.IsType)

theorem run_binding_withAliases {α : Type} {x : Check α} {r : Except Fault α} {aliases : Aliases}
    {log : List Event} (hU : Γ.resolve T = .ok U)
    (hx : x.run (Γ.bindOne U) = ⟨r, (Γ.bindOne U).withAliases aliases, log⟩) :
    (binding [T] x).run Γ = ⟨r, Γ.withAliases aliases, log⟩ := by
  have hUs : List.Forall₂ (fun T U => Γ.resolve T = .ok U) [T] [U] := .cons hU .nil
  have hbind : Γ.bind [U] = Γ.bindOne U := rfl
  rw [run_binding_of_resolved hUs (by rw [hbind, hx]; rfl), hbind, hx]
  rfl

/-- Whatever a failing computation leaves behind, it fails with a variable bound around it. -/
theorem run_binding_failing {α : Type} {x : Check α} {e : Fault} {log : List Event}
    (hU : Γ.resolve T = .ok U) (hx : x.run (Γ.bindOne U) = ⟨.error e, Δ, log⟩) :
    ∃ e' Δ' log', (binding [T] x).run Γ = ⟨.error e', Δ', log'⟩ := by
  have hpush : (pushAll [T]).run Γ = ⟨.ok (), Γ.bindOne U, []⟩ := run_pushAll (.cons hU .nil)
  rw [binding, run_bind_of_ok hpush]
  simp only [ensuring, hx]
  cases ((popAll [T]).run Δ).result <;> exact ⟨_, _, _, rfl⟩

/-- The rest of a program runs with the variable bound, after the line for the term. -/
theorem run_declarations_term {o : Outcome (Table Ty)} {log : List Event}
    (hT : (c.typeOf t).run Γ = ⟨.ok T, Γ, log⟩)
    (ho : (binding [T] (c.declarations (types.insert name T) ds)).run Γ = o) :
    (c.declarations types (.term name t :: ds)).run Γ =
      ⟨o.result, o.context, log ++ (.declared name T :: o.log)⟩ := by
  have hemit : (emit (.declared name T)).run Γ = ⟨.ok (), Γ, [.declared name T]⟩ := rfl
  rw [declarations_term, run_bind_of_ok hT, run_bind_of_ok hemit, ho]
  rfl

namespace Follows

variable {r : Except Fault Stage} {log : List Event}

/-- A type is declared, and the rest follows in the larger context. -/
theorem type {ty : Ty}
    (h : Follows w (Γ.define name ty) ((c.declarations types ds).run (Γ.define name ty)) r) :
    Follows w Γ ((c.declarations types (.type name ty :: ds)).run Γ) r := by
  have hdefine : (Check.define name ty).run Γ = ⟨.ok (), Γ.define name ty, [.named name ty]⟩ := rfl
  rw [declarations_type, run_bind_of_ok hdefine]
  cases h with
  | ok hr ho => exact .ok hr (by rw [ho]; rfl)
  | error hr ho he => exact .error hr (by rw [ho]) he

/-- A term is declared, and the rest follows with one more variable. -/
theorem term (hT : (c.typeOf t).run Γ = ⟨.ok T, Γ, log⟩) (hU : Γ.resolve T = .ok U)
    (h : Follows w (Γ.bindOne U)
      ((c.declarations (types.insert name T) ds).run (Γ.bindOne U)) r) :
    Follows w Γ ((c.declarations types (.term name t :: ds)).run Γ) r := by
  cases h with
  | ok hr ho => exact .ok hr (run_declarations_term hT (run_binding_withAliases hU ho))
  | error hr ho he =>
    by_cases hw : w
    · obtain ⟨⟨aliases, rfl⟩, htype⟩ := he hw
      exact .error hr (run_declarations_term hT (run_binding_withAliases hU ho))
        fun _ => ⟨⟨aliases, rfl⟩, htype⟩
    · -- what the rest left behind is not known, and unbinding the variable may fail as well
      obtain ⟨e, Δ, log', hrun⟩ := run_binding_failing hU ho
      exact .error hr (run_declarations_term hT hrun) fun h => absurd h hw

end Follows

/-- The check of declarations goes as their steps go, if they come in time. -/
theorem declarations_follows (hp : p.context.Steady w) (hds : w → ∀ d ∈ ds, d.WellFormed)
    (ht : c.Timely p ds) :
    Follows w p.context ((c.declarations p.types ds).run p.context) (ds.foldlM c.declare p) := by
  induction ds generalizing p with
  | nil => exact .ok rfl rfl
  | cons d ds ih =>
    have hd : w → d.WellFormed := fun hw => hds hw d List.mem_cons_self
    have hnext : ∀ q, c.declare p d = .ok q →
        Follows w q.context ((c.declarations q.types ds).run q.context)
          (ds.foldlM c.declare q) := by
      intro q hq
      exact ih (declare_steady hp hd ht.1 hq)
        (fun hw d hd => hds hw d (List.mem_cons_of_mem _ hd)) (ht.2 q hq)
    rw [List.foldlM_cons]
    cases d with
    | hole => exact hnext p rfl
    | type name ty => exact .type (hnext _ rfl)
    | term name t =>
      cases typeOf_meets hp.good fun hw => ⟨hp.wellFormed hw, hd hw⟩ with
      | error h he =>
        rw [declare_term_of_error (congrArg Outcome.result h)]
        refine .error rfl (run_bind_of_error h _) fun hw => ?_
        exact ⟨⟨p.context.aliases, (he hw).1⟩, rfl, (he hw).2⟩
      | @ok T _ h hT =>
        have hstep := declare_term name (congrArg Outcome.result h)
        cases hU : p.context.resolve T with
        | ok U =>
          rw [hU] at hstep
          rw [hstep]
          exact .term h hU (hnext _ hstep)
        | error e =>
          rw [hU] at hstep
          rw [hstep]
          refine .error rfl (run_declarations_term h (run_binding_of_error hU _)) fun hw => ?_
          refine ⟨⟨p.context.aliases, rfl⟩, rfl, ?_⟩
          rw [Context.resolve_error (hp.wellFormed hw) hT.wellFormed hU]
          exact Limit.overrun_isType (hp.room hw) none

/-! ## programs -/

/-- Over well-formed aliases, and with room for the limit, a program whose declarations are well
formed and come in time ends with types or with a type error. -/
theorem program_timely (c : Checker) (hal : c.aliases.WellFormed)
    (hroom : c.limit.machineBound = false) (ds : List Declaration)
    (hds : ∀ d ∈ ds, d.WellFormed) (ht : c.Timely ⟨c.freshContext, ∅⟩ ds) :
    (∃ types, (c.program ds).result = .ok types) ∨
      ∃ e, (c.program ds).result = .error (.type e) := by
  have hstart : c.freshContext.Steady True :=
    ⟨Context.good_fresh _ _, fun _ => hal, fun _ => hroom⟩
  have hfollows := declarations_follows (p := ⟨c.freshContext, ∅⟩) hstart (fun _ => hds) ht
  rw [program_eq]
  cases hfollows with
  | ok hr ho => exact .inl ⟨_, by rw [ho]⟩
  | error hr ho he =>
    obtain ⟨-, rfl, e, rfl⟩ := he trivial
    exact .inr ⟨e, by rw [ho]⟩

/-- A declaration that is admitted, before those that are timely after it. -/
theorem Timely.cons (ha : p.context.Admits d) (hq : c.declare p d = .ok q)
    (h : c.Timely q ds) : c.Timely p (d :: ds) := by
  refine ⟨ha, fun r hr => ?_⟩
  obtain rfl := Except.ok.inj (hq.symm.trans hr)
  exact h

/-- A name is given to the numbers, used, and given to the truth values; then the function on
numbers is used again. -/
def renamed : List Declaration :=
  [.type "A" .nat, .term "f" (.abs (.named "A") (.var 0 none) none), .type "A" .bool,
    .term "g" (.app (.var 0 none) (.lit (.nat 3) none) none)]

theorem renamed_timely : Timely ⟨∅, ⟨20, none⟩, false⟩ ⟨.fresh ∅ ⟨20, none⟩, ∅⟩ renamed := by
  refine .cons (fun _ => nofun) rfl ?_
  refine .cons trivial rfl ?_
  -- the name had a definition, so it is not in the type of the function
  refine .cons nofun rfl ?_
  exact .cons trivial rfl trivial

theorem renamed_wellFormed : ∀ d ∈ renamed, d.WellFormed := by
  simp only [renamed, List.forall_mem_cons]
  exact ⟨wellFormed_leaf ⟨nofun, trivial⟩ rfl, Term.wellFormed_of_formed (n := 2) rfl,
    wellFormed_leaf ⟨nofun, trivial⟩ rfl, Term.wellFormed_of_formed (n := 2) rfl, nofun⟩

/-- The function keeps the type that it got under the first definition of the name. -/
theorem program_timely_renamed :
    (∀ d ∈ renamed, d.WellFormed) ∧
      Timely ⟨∅, ⟨20, none⟩, false⟩ ⟨.fresh ∅ ⟨20, none⟩, ∅⟩ renamed ∧
      ∃ types, (program ⟨∅, ⟨20, none⟩, false⟩ renamed).result = .ok types ∧
        types.get? "f" = some (.arrow .nat .nat) ∧ types.get? "g" = some .nat := by
  have hresult : (program ⟨∅, ⟨20, none⟩, false⟩ renamed).result =
      .ok ⟨[("f", .arrow .nat .nat), ("g", .nat)]⟩ := rfl
  refine ⟨renamed_wellFormed, renamed_timely, ?_⟩
  obtain ⟨types, htypes⟩ | ⟨e, he⟩ :=
    program_timely _ Aliases.wellFormed_empty rfl renamed renamed_wellFormed renamed_timely
  · obtain rfl := Except.ok.inj (hresult.symm.trans htypes)
    exact ⟨_, htypes, rfl, rfl⟩
  · exact absurd (hresult.symm.trans he) nofun

/-- A variant with an unknown name in it, then the name, defined by itself, and then a case that
binds the parts of the variant. -/
def late : List Declaration :=
  [.term "v" (.fix (.abs (.variant [⟨"l", .product [.nat, .named "A"]⟩]) (.var 0 none) none) none),
    .type "A" (.named "A"),
    .term "w" (.tyAbs (.caseOf (.var 0 none)
      [⟨.con "l" (.product [.bind, .bind]), .lit .unit none, none⟩] none) none)]

/-- A name that is defined too late: the second variable of the arm cannot be bound, the first is
left behind, and the scope around cannot be closed. -/
theorem program_late :
    (∀ d ∈ late, d.WellFormed) ∧
      (program ⟨∅, ⟨20, none⟩, false⟩ late).result = .error (.underflow .termsInside) := by
  refine ⟨?_, rfl⟩
  simp only [late, List.forall_mem_cons]
  exact ⟨Term.wellFormed_of_formed (n := 5) rfl, wellFormed_leaf ⟨nofun, trivial⟩ rfl,
    Term.wellFormed_of_formed (n := 3) rfl, nofun⟩

/-! ## types in programs -/

/-- A declaration of another name keeps the type of a name. -/
theorem get?_declare (hd : ∀ u, d ≠ .term name u) (h : c.declare p d = .ok q) :
    q.types.get? name = p.types.get? name := by
  cases d with
  | hole => rw [Except.ok.inj h]
  | type _ ty => rw [← Except.ok.inj h]
  | term other t =>
    obtain ⟨T, U, -, -, rfl⟩ := declare_term_ok h
    have hne : name ≠ other := fun heq => hd t (by rw [heq])
    rw [Table.get?_insert, if_neg hne]

/-- What is listed under a name is changed by declarations of terms of this name only. -/
theorem get?_foldlM_declare (hds : ∀ u, .term name u ∉ ds) (h : ds.foldlM c.declare p = .ok q) :
    q.types.get? name = p.types.get? name := by
  induction ds generalizing p with
  | nil => rw [Except.ok.inj h]
  | cons d ds ih =>
    rw [List.foldlM_cons] at h
    obtain ⟨r, hr, h⟩ := bind_eq_ok.1 h
    have hd : ∀ u, d ≠ .term name u := fun u hu => hds u (by rw [hu]; exact List.mem_cons_self)
    rw [ih (fun u hu => hds u (List.mem_cons_of_mem d hu)) h, get?_declare hd hr]

/-- The first declarations of a timely program are timely. -/
theorem Timely.append_left {es : List Declaration} (h : c.Timely p (ds ++ es)) :
    c.Timely p ds := by
  induction ds generalizing p with
  | nil => trivial
  | cons d ds ih => exact ⟨h.1, fun q hq => ih (h.2 q hq)⟩

theorem freshContext_steady (c : Checker) : c.freshContext.Steady False :=
  ⟨Context.good_fresh _ _, False.elim, False.elim⟩

/-- A program does what its declarations do one by one. -/
theorem program_follows (ht : c.Timely ⟨c.freshContext, ∅⟩ ds) :
    Follows False c.freshContext (c.program ds) (ds.foldlM c.declare ⟨c.freshContext, ∅⟩) :=
  c.program_eq ds ▸ declarations_follows (p := ⟨c.freshContext, ∅⟩) c.freshContext_steady
    False.elim ht

/-- If all steps can be taken, the program gives the types they lead to. -/
theorem program_of_steps (ht : c.Timely ⟨c.freshContext, ∅⟩ ds)
    (h : ds.foldlM c.declare ⟨c.freshContext, ∅⟩ = .ok q) :
    (c.program ds).result = .ok q.types ∧ (c.program ds).context.aliases = q.context.aliases := by
  cases program_follows ht with
  | ok hr ho =>
    obtain rfl := Except.ok.inj (h.symm.trans hr)
    rw [ho]
    exact ⟨rfl, rfl⟩
  | error hr _ _ => exact absurd (h.symm.trans hr) nofun

/-- The types that an accepted program lists come from declarations that were all accepted. -/
theorem steps_of_program (ht : c.Timely ⟨c.freshContext, ∅⟩ ds)
    (h : (c.program ds).result = .ok types) :
    ∃ q, ds.foldlM c.declare ⟨c.freshContext, ∅⟩ = .ok q ∧ q.types = types := by
  cases program_follows ht with
  | @ok q _ hr ho =>
    rw [ho] at h
    exact ⟨q, hr, Except.ok.inj h⟩
  | error _ ho _ =>
    rw [ho] at h
    contradiction

/-- In a program whose declarations come in time, the type that is found for a term mentions no
name that has a definition when the term is checked. It is the type that the program up to there
gives, and the type that the whole program gives if the name is not used for another term. -/
theorem program_transparent (c : Checker) (before after : List Declaration) (name : String)
    (t : Term) {types : Table Ty}
    (ht : c.Timely ⟨c.freshContext, ∅⟩ (before ++ .term name t :: after))
    (h : (c.program (before ++ .term name t :: after)).result = .ok types) :
    ∃ types' T, (c.program (before ++ [.term name t])).result = .ok types' ∧
      types'.get? name = some T ∧ ((∀ u, .term name u ∉ after) → types.get? name = some T) ∧
      T.EveryShape (Unknown (c.program before).context.aliases) := by
  obtain ⟨r, hr, rfl⟩ := steps_of_program ht h
  rw [List.foldlM_append] at hr
  obtain ⟨p, hp, hr⟩ := bind_eq_ok.1 hr
  rw [List.foldlM_cons] at hr
  obtain ⟨q, hq, hr⟩ := bind_eq_ok.1 hr
  obtain ⟨T, U, hT, -, rfl⟩ := declare_term_ok hq
  have hget : (p.types.insert name T).get? name = some T := by
    rw [Table.get?_insert, if_pos rfl]
  have hupto : (before ++ [Declaration.term name t]).foldlM c.declare ⟨c.freshContext, ∅⟩ =
      .ok ⟨p.context.bindOne U, p.types.insert name T⟩ := by
    rw [List.foldlM_append]
    exact bind_eq_ok.2 ⟨p, hp, bind_eq_ok.2 ⟨_, hq, rfl⟩⟩
  have htimely : c.Timely ⟨c.freshContext, ∅⟩ (before ++ [.term name t]) := by
    rw [List.append_cons] at ht
    exact ht.append_left
  refine ⟨_, T, (program_of_steps htimely hupto).1, hget, fun hafter => ?_, ?_⟩
  · rw [get?_foldlM_declare hafter hr, hget]
  · rw [(program_of_steps ht.append_left hp).2]
    have hsteady := foldlM_declare_steady c.freshContext_steady False.elim ht.append_left hp
    cases typeOf_meets (c := c) (t := t) hsteady.good False.elim with
    | ok hrun hinferred =>
      rw [hrun] at hT
      exact Except.ok.inj hT ▸ hinferred.resolved.1
    | error hrun _ =>
      rw [hrun] at hT
      contradiction

/-- The type of the function has no name in it, although one was written and is redefined
afterwards. -/
theorem program_transparent_renamed :
    ∃ types T, (program ⟨∅, ⟨20, none⟩, false⟩ renamed).result = .ok types ∧
      types.get? "f" = some T ∧
      T.EveryShape (Unknown (program ⟨∅, ⟨20, none⟩, false⟩ (renamed.take 1)).context.aliases) := by
  obtain ⟨-, T, -, -, hT, hnames⟩ := program_transparent ⟨∅, ⟨20, none⟩, false⟩
    (renamed.take 1) (renamed.drop 2) "f" (.abs (.named "A") (.var 0 none) none) renamed_timely rfl
  exact ⟨_, T, rfl, hT (by simp [renamed]), hnames⟩

/-- Something of an unknown type, then a name for the type, and then the same thing again. -/
def stale : List Declaration :=
  [.term "x" (.fix (.abs (.named "A") (.var 0 none) none) none), .type "A" .nat,
    .term "y" (.var 0 none)]

/-- A name that is defined too late is left in a type that is found afterwards. -/
theorem program_stale :
    (∀ d ∈ stale, d.WellFormed) ∧
      (∃ types, (program ⟨∅, ⟨20, none⟩, false⟩ stale).result = .ok types ∧
        types.get? "y" = some (.named "A")) ∧
      (program ⟨∅, ⟨20, none⟩, false⟩ (stale.take 2)).context.aliases.definition? "A" =
        some .nat := by
  refine ⟨?_, ⟨_, rfl, rfl⟩, rfl⟩
  simp only [stale, List.forall_mem_cons]
  exact ⟨Term.wellFormed_of_formed (n := 3) rfl, wellFormed_leaf ⟨nofun, trivial⟩ rfl,
    Term.wellFormed_of_formed (n := 1) rfl, nofun⟩

end Checker

end PolyLambda
