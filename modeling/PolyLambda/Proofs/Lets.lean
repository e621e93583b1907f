import PolyLambda.Proofs.Deeper
import PolyLambda.Proofs.Program

/-!
# PolyLambda.Proofs.Lets

A program that declares terms only is a chain of lets: every term is checked with the terms before
it bound, and the name that was declared last stands for the last of them.

The two checks differ in the levels they have. A program checks each of its terms with all levels,
whereas in a chain every let takes one level away from what comes after it. So the chain may run out
of levels where the program does not, and otherwise they end alike.

* `Term.lets` is the chain.
* `Checker.Chained` is the judgement on the two checks. It has a rule for what they have in common,
  and `Chained.letIn` is the step from one term to the next.
* `Checker.program_lets` compares the whole program with the whole chain.
-/

namespace PolyLambda

open Ty

/-- A chain of lets, with the variable that was bound last at its end. -/
def Term.lets : List Term → Term
  | [] => .var 0 none
  | t :: ts => .letIn t (lets ts) none

theorem Term.wellFormed_lets {ts : List Term} (h : ∀ t ∈ ts, t.WellFormed) :
    (lets ts).WellFormed := by
  induction ts with
  | nil => exact wellFormed_of_formed (n := 1) rfl
  | cons t ts ih =>
    obtain ⟨ht, hts⟩ := List.forall_mem_cons.1 h
    exact ⟨nofun, by simp [lets], by simpa [lets] using ⟨ht, ih hts⟩⟩

namespace Checker

open Check

variable {c : Checker} {Γ : Context} {name : String} {x : Check Ty} {y : Check (Table Ty)}
  {t body : Term} {T U : Ty} {types : Table Ty} {ds : List Declaration} {m : Nat}

/-- The first check runs out of levels, or it gives the type that the second check gives to a name,
or both fail in the same way. Contexts are left as they were. -/
inductive Chained (name : String) (x : Check Ty) (y : Check (Table Ty)) (Γ : Context) : Prop where
  | stop {e : Fault} {log : List Event} (h : x.run Γ = ⟨.error e, Γ, log⟩) (he : e.Exhausted)
  | ok {T : Ty} {types : Table Ty} {log log' : List Event} (h : x.run Γ = ⟨.ok T, Γ, log⟩)
      (h' : y.run Γ = ⟨.ok types, Γ, log'⟩) (hT : types.get? name = some T)
  | error {e : Fault} {log log' : List Event} (h : x.run Γ = ⟨.error e, Γ, log⟩)
      (h' : y.run Γ = ⟨.error e, Γ, log'⟩)

/-! ## what both checks do -/

/-- A term that is checked as part of a chain, with some levels taken away already, beside the same
term checked on its own. -/
theorem infer_typeOf (hΓ : Γ.Good) (hal : Γ.aliases.WellFormed) (hl : Γ.limit = c.limit)
    (hm : m ≤ c.limit.levels) (ht : t.WellFormed) :
    InStep Fault.Stops (c.infer m t) (c.typeOf t) Γ Γ (·.Inferred Γ.aliases c.limit.levels) := by
  have hlimit : Γ = Γ.withLimit c.limit := by
    rw [← hl]
    rfl
  have hterm : (Coupling.deeper (Nat.le_refl c.limit.levels) hal).Terms Γ.depth t t :=
    ht.alike (fun _ _ hT => ⟨rfl, hT⟩) fun _ => rfl
  cases infer_deeper (Nat.le_refl _) hal hm ⟨hlimit, hΓ, rfl, hl⟩ hterm with
  | ok h h' hT => exact .ok h (run_typeOf_of_ok h') hT
  | stop h he => exact .stop h he
  | @error e e' _ _ h h' he =>
    obtain rfl : e' = e := he
    by_cases hex : e'.Exhausted
    · exact .stop h hex
    · obtain ⟨log', hrun⟩ := run_typeOf_of_error h'
      rw [settle_eq hex] at hrun
      exact .error h hrun rfl

namespace Chained

/-- The judgement goes from two computations to two others that end as they do. -/
theorem of_runs {Δ : Context} {x' : Check Ty} {y' : Check (Table Ty)} (h : Chained name x y Γ)
    (hx : ∀ {r log}, x.run Γ = ⟨r, Γ, log⟩ → ∃ log', x'.run Δ = ⟨r, Δ, log'⟩)
    (hy : ∀ {r log}, y.run Γ = ⟨r, Γ, log⟩ → ∃ log', y'.run Δ = ⟨r, Δ, log'⟩) :
    Chained name x' y' Δ := by
  cases h with
  | stop h he =>
    obtain ⟨_, hrun⟩ := hx h
    exact .stop hrun he
  | ok h h' hT =>
    obtain ⟨_, hrun⟩ := hx h
    obtain ⟨_, hrun'⟩ := hy h'
    exact .ok hrun hrun' hT
  | error h h' =>
    obtain ⟨_, hrun⟩ := hx h
    obtain ⟨_, hrun'⟩ := hy h'
    exact .error hrun hrun'

/-- The same variable is bound around both. -/
theorem binding (hU : Γ.resolve T = .ok U) (h : Chained name x y (Γ.bindOne U)) :
    Chained name (binding [T] x) (binding [T] y) Γ := by
  have hpush : (pushAll [T]).run Γ = ⟨.ok (), Γ.bindOne U, []⟩ := run_pushAll (.cons hU .nil)
  have hpop : (popAll [T]).run (Γ.bindOne U) = ⟨.ok (), Γ, []⟩ := rfl
  exact h.of_runs (fun hx => ⟨_, run_between hpush hx hpop⟩)
    fun hy => ⟨_, run_between hpush hy hpop⟩

/-- Something comes before each of them. -/
theorem bind {α β : Type} {u : Check α} {v : Check β} {f : α → Check Ty}
    {g : β → Check (Table Ty)} {a : α} {b : β} {log log' : List Event}
    (hu : u.run Γ = ⟨.ok a, Γ, log⟩) (hv : v.run Γ = ⟨.ok b, Γ, log'⟩)
    (h : Chained name (f a) (g b) Γ) : Chained name (u >>= f) (v >>= g) Γ :=
  h.of_runs (fun hx => ⟨_, by rw [run_bind_of_ok hu, hx]⟩)
    fun hy => ⟨_, by rw [run_bind_of_ok hv, hy]⟩

/-- A declaration is also written to the log. -/
theorem declared (key : String) (T : Ty) (h : Chained name x y Γ) :
    Chained name x (emit (.declared key T) >>= fun _ => y) Γ := by
  have hemit : (emit (.declared key T)).run Γ = ⟨.ok (), Γ, [.declared key T]⟩ := rfl
  exact h.of_runs (fun hx => ⟨_, hx⟩) fun hy => ⟨_, by rw [run_bind_of_ok hemit, hy]⟩

theorem infer (h : Chained name (rule c.limit (c.infer m) t) y Γ) :
    Chained name (c.infer (m + 1) t) y Γ :=
  h.of_runs run_infer_of_rule fun hy => ⟨_, hy⟩

/-! ## from one term to the next -/

/-- One let beside one declaration. A type that was inferred is resolved, so it is bound as it
is. -/
theorem letIn {key : String} (hΓ : Γ.Good) (hal : Γ.aliases.WellFormed) (hl : Γ.limit = c.limit)
    (hm : m ≤ c.limit.levels) (ht : t.WellFormed)
    (hrest : ∀ T, Γ.resolve T = .ok T →
      Chained name (c.infer m body) (c.declarations (types.insert key T) ds) (Γ.bindOne T)) :
    Chained name (c.infer (m + 1) (.letIn t body none))
      (c.declarations types (.term key t :: ds)) Γ := by
  refine .infer ?_
  rw [declarations_term]
  cases infer_typeOf hΓ hal hl hm ht with
  | stop h he => exact .stop (run_bind_of_error h _) he
  | error h h' he =>
    obtain rfl := he
    exact .error (run_bind_of_error h _) (run_bind_of_error h' _)
  | @ok T _ _ h h' hT =>
    refine .bind h h' ?_
    cases hU : Γ.resolve T with
    | error e =>
      have he : e.Exhausted := by
        rw [Context.resolve_error hal hT.wellFormed hU]
        exact Γ.limit.overrun_exhausted none
      exact .stop (run_binding_of_error hU _) he
    | ok U =>
      obtain rfl : U = T := Steps.eq_of_resolved hT.resolved (Context.resolve_ok hU).1
      exact .declared key U (.binding hU (hrest U hU))

/-- The variable at the end of a chain has the type of the last declaration. -/
theorem last (hT : types.get? name = some T) :
    Chained name (c.infer m (.var 0 none)) (c.declarations types []) (Γ.bindOne T) := by
  cases m with
  | zero => exact .stop rfl (c.limit.overrun_exhausted none)
  | succ m =>
    refine .infer ?_
    have hfind : (Γ.bindOne T).find 0 = .ok (some T) := by
      simp [Context.find, Context.entry?, Context.bindOne]
    have hask : (ask (·.lookUp 0 none)).run (Γ.bindOne T) =
        ⟨(Γ.bindOne T).lookUp 0 none, Γ.bindOne T, []⟩ := rfl
    rw [Context.lookUp, hfind] at hask
    rw [rule_var_eq]
    exact .ok hask rfl hT

/-- A chain of lets beside declarations of the same terms, with no more levels left than there are
at the beginning. -/
theorem lets (types : Table Ty) (hΓ : Γ.Good) (hal : Γ.aliases.WellFormed)
    (hl : Γ.limit = c.limit) (hm : m ≤ c.limit.levels) {init : List (String × Term)}
    (hwf : ∀ p ∈ init ++ [(name, t)], p.2.WellFormed) :
    Chained name (c.infer m (.lets ((init ++ [(name, t)]).map Prod.snd)))
      (c.declarations types ((init ++ [(name, t)]).map fun p => .term p.1 p.2)) Γ := by
  -- each let takes a level and a declaration takes none, so the chain may stop earlier
  induction init generalizing Γ types m with
  | nil =>
    cases m with
    | zero => exact .stop rfl (c.limit.overrun_exhausted none)
    | succ m =>
      refine .letIn hΓ hal hl (Nat.le_of_succ_le hm) (hwf (name, t) (by simp)) fun T _ => ?_
      exact .last (by rw [Table.get?_insert, if_pos rfl])
  | cons p init ih =>
    cases m with
    | zero => exact .stop rfl (c.limit.overrun_exhausted none)
    | succ m =>
      refine .letIn hΓ hal hl (Nat.le_of_succ_le hm) (hwf p (by simp)) fun T hT => ?_
      have hgood := hΓ.bindOne (Context.resolve_ok hT).2
      exact ih _ hgood hal hl (Nat.le_of_succ_le hm) fun q hq => hwf q (List.mem_cons_of_mem p hq)

end Chained

/-! ## programs of terms -/

/-- Over well-formed aliases, the program that declares well-formed terms one after another is
checked like the chain of lets of these terms. Unless the chain is nested beyond the limit, the
type of the chain is the type of the last name, and type errors are the same. -/
theorem program_lets (c : Checker) (hal : c.aliases.WellFormed) (init : List (String × Term))
    (name : String) (t : Term) (hwf : ∀ p ∈ init ++ [(name, t)], p.2.WellFormed) :
    let chain := (c.typeOfClosed (.lets ((init ++ [(name, t)]).map Prod.snd))).result
    let program := (c.program ((init ++ [(name, t)]).map fun p => .term p.1 p.2)).result
    (∃ depth span, chain = .error (.type ⟨.tooDeep depth, span⟩)) ∨
      (∃ T types, chain = .ok T ∧ program = .ok types ∧ types.get? name = some T) ∨
      ∃ e, chain = .error (.type e) ∧ program = .error (.type e) := by
  intro chain program
  have hgood : c.freshContext.Good := Context.good_fresh _ _
  have hprogram : program = ((c.declarations ∅ _).run c.freshContext).result :=
    congrArg Outcome.result (c.program_eq _)
  cases Chained.lets (c := c) ∅ hgood hal rfl (Nat.le_refl _) hwf with
  | stop h he => exact .inl (typeOf_exhausted (congrArg Outcome.result h) he)
  | ok h h' hT =>
    refine .inr (.inl ⟨_, _, ?_, hprogram.trans (congrArg Outcome.result h'), hT⟩)
    exact congrArg Outcome.result (run_typeOf_of_ok h)
  | @error e _ _ h h' =>
    by_cases hex : e.Exhausted
    · exact .inl (typeOf_exhausted (congrArg Outcome.result h) hex)
    · have hchain : chain = .error e := by
        obtain ⟨_, hrun⟩ := run_typeOf_of_error h
        rw [settle_eq hex] at hrun
        exact congrArg Outcome.result hrun
      have hlets : (Term.lets ((init ++ [(name, t)]).map Prod.snd)).WellFormed :=
        Term.wellFormed_lets (List.forall_mem_map.2 hwf)
      obtain ⟨m, rfl⟩ := (typeOf_meets hgood fun _ => ⟨hal, hlets⟩).of_error hchain
      exact .inr (.inr ⟨m, hchain, hprogram.trans (congrArg Outcome.result h')⟩)

/-- The identity at every type, and the identity at the functions on the numbers. -/
def identities : List (String × Term) :=
  [("id", .tyAbs (.abs (.var 0) (.var 0 none) none) none)] ++
    [("on", .tyApp (.var 0 none) (.arrow (.named "N") (.named "N")) none)]

/-- In the program the second identity has the type that it has in the chain. -/
theorem program_lets_identities :
    (∀ p ∈ identities, p.2.WellFormed) ∧
      ∃ types, (program ⟨numbers, ⟨9, none⟩, false⟩
        (identities.map fun p => .term p.1 p.2)).result = .ok types ∧
        types.get? "on" = some (.arrow (.arrow .nat .nat) (.arrow .nat .nat)) := by
  have hwf : ∀ p ∈ identities, p.2.WellFormed := by
    simp only [identities, List.cons_append, List.nil_append, List.forall_mem_cons]
    exact ⟨Term.wellFormed_of_formed (n := 3) rfl, Term.wellFormed_of_formed (n := 3) rfl, nofun⟩
  have hchain : (typeOfClosed ⟨numbers, ⟨9, none⟩, false⟩
      (.lets (identities.map Prod.snd))).result =
        .ok (.arrow (.arrow .nat .nat) (.arrow .nat .nat)) := rfl
  refine ⟨hwf, ?_⟩
  obtain ⟨_, _, h⟩ | ⟨T, types, hT, htypes, hon⟩ | ⟨e, h, -⟩ :=
    program_lets ⟨numbers, ⟨9, none⟩, false⟩ numbers_wellFormed _ _ _ hwf
  · exact absurd (hchain.symm.trans h) nofun
  · obtain rfl := Except.ok.inj (hchain.symm.trans hT)
    exact ⟨types, htypes, hon⟩
  · exact absurd (hchain.symm.trans h) nofun

/-- With two levels a program of two terms can be checked, and the chain of two lets cannot. -/
example :
    (∃ types, (program ⟨∅, ⟨2, none⟩, false⟩
      [.term "x" (.lit (.nat 3) none), .term "y" (.var 0 none)]).result = .ok types) ∧
    (typeOfClosed ⟨∅, ⟨2, none⟩, false⟩ (.lets [.lit (.nat 3) none, .var 0 none])).result =
      .error (.type ⟨.tooDeep 2, none⟩) :=
  ⟨⟨_, rfl⟩, rfl⟩

end Checker

end PolyLambda
