import PolyLambda.Proofs.Meets

/-!
# PolyLambda.Proofs.Blocks

Term variables bound around a block. Before the block is run, the types of its variables are
resolved and pushed one after another; after it, as many variables are popped as there are types,
whether the block has given a value or failed. So a block that leaves the stack as it was is left
with the stack as it was before.

A type that does not resolve keeps the block from being run, and then nothing is popped. Variables
that were pushed before stay on the stack. This does not happen to a single variable, nor to types
that have been resolved in the same context, since these resolve again, and to themselves.

* `Check.binding_stack`: what is on the stack after a block.
* `Check.binding_leaks`: a variable that is left behind.
* `Context.resolve_resolve`: a resolved type resolves to itself, within the same levels.
-/

namespace PolyLambda

/-- Two operators, the second of which gives new applications to carry out, and a name that is
defined by itself. -/
def abbreviations : Aliases :=
  (((∅ : Aliases).insert "Pair" (.binder (.op .star) (.product [.var 0, .var 0]))).insert "Twice"
    (.binder (.op (.arrow .star .star))
      (.binder (.op .star) (.app (.var 1) (.app (.var 1) (.var 0)))))).insert
    "Loop" (.product [.named "Loop"])

/-- The context over these names without variables, within a number of levels. -/
def abbreviating (levels : Int) : Context :=
  Context.fresh abbreviations ⟨levels, none⟩

namespace Check

variable {α : Type} {Γ : Context} {Ts Us : List Ty} {e : Fault}

/-! ## a block -/

/-- Nothing was bound exactly if the first type did not resolve. -/
theorem stack_bind_eq_iff (h : Stuck Γ.resolve Ts Us e) :
    (Γ.bind Us).stack = Γ.stack ↔ ∃ T e, Ts.head? = some T ∧ Γ.resolve T = .error e := by
  cases h with
  | here hT => exact iff_of_true rfl ⟨_, e, rfl, hT⟩
  | @next T U Ts Us _ hT _ =>
    have hlonger : (Γ.bind (U :: Us)).stack ≠ Γ.stack := fun heq => by
      have hlen := congrArg List.length heq
      simp only [bind_eq, List.length_append, List.length_reverse, List.length_map,
        List.length_cons] at hlen
      omega
    simp [hT, hlonger]

/-- Let a block leave the stack as it found it, whether it gives a value or fails. If the types of
its variables resolve, the stack is as it was before, and nothing else of what the block did is
changed. If one does not, the block is not run, and the stack has the types before that one on top.
So the stack is as before exactly if all types resolve, or not even the first. -/
theorem binding_stack (Γ : Context) (Ts : List Ty) (body : Check α)
    (hbody : ∀ Us, List.Forall₂ (fun T U => Γ.resolve T = .ok U) Ts Us →
      (body.run (Γ.bind Us)).context.stack = (Γ.bind Us).stack) :
    (∀ Us, List.Forall₂ (fun T U => Γ.resolve T = .ok U) Ts Us →
      (binding Ts body).run Γ =
        { body.run (Γ.bind Us) with
          context := { (body.run (Γ.bind Us)).context with stack := Γ.stack } }) ∧
      (∀ Us e, Stuck Γ.resolve Ts Us e → (binding Ts body).run Γ = ⟨.error e, Γ.bind Us, []⟩) ∧
      (((binding Ts body).run Γ).context.stack = Γ.stack ↔
        (∀ T ∈ Ts, ∃ U, Γ.resolve T = .ok U) ∨
          ∃ T e, Ts.head? = some T ∧ Γ.resolve T = .error e) := by
  refine ⟨fun Us hUs => run_binding_of_resolved hUs (hbody Us hUs),
    fun Us e h => run_binding_of_stuck h body, ?_⟩
  obtain ⟨Us, hUs⟩ | ⟨Us, e, hstuck⟩ := forall₂_or_stuck Γ.resolve Ts
  · have hall : ∀ T ∈ Ts, ∃ U, Γ.resolve T = .ok U := fun T hT => by
      obtain ⟨U, -, hU⟩ := exists_of_forall₂_left hUs hT
      exact ⟨U, hU⟩
    rw [run_binding_of_resolved hUs (hbody Us hUs)]
    exact iff_of_true rfl (.inl hall)
  · have hnot : ¬ ∀ T ∈ Ts, ∃ U, Γ.resolve T = .ok U := fun hall => by
      obtain ⟨T, hT, he⟩ := hstuck.exists_error
      obtain ⟨U, hU⟩ := hall T hT
      rw [hU] at he
      contradiction
    rw [run_binding_of_stuck hstuck body, or_iff_right hnot]
    exact stack_bind_eq_iff hstuck

/-- A block that binds a variable and fails. -/
def bindAndFail : Check Unit :=
  binding [.nat] (fail .outOfStack)

/-- Two variables around a block that fails with a third one bound. -/
theorem binding_stack_bindAndFail :
    (∀ Us, List.Forall₂ (fun T U => (abbreviating 20).resolve T = .ok U)
        [.app (.named "Pair") .nat, .bool] Us →
      (bindAndFail.run ((abbreviating 20).bind Us)).context.stack =
        ((abbreviating 20).bind Us).stack) ∧
      (binding [.app (.named "Pair") .nat, .bool] bindAndFail).run (abbreviating 20) =
        ⟨.error .outOfStack, abbreviating 20, []⟩ := by
  have hbody : ∀ Us, List.Forall₂ (fun T U => (abbreviating 20).resolve T = .ok U)
      [.app (.named "Pair") .nat, .bool] Us →
      (bindAndFail.run ((abbreviating 20).bind Us)).context.stack =
        ((abbreviating 20).bind Us).stack := by
    intro Us hUs
    cases hUs with
    | cons _ hUs =>
      cases hUs with
      | cons _ hUs =>
        cases hUs
        rfl
  have hUs : List.Forall₂ (fun T U => (abbreviating 20).resolve T = .ok U)
      [.app (.named "Pair") .nat, .bool] [.product [.nat, .nat], .bool] :=
    .cons rfl (.cons rfl .nil)
  exact ⟨hbody, (binding_stack _ _ _ hbody).1 _ hUs⟩

/-- The second of two types does not resolve. The block, which would do nothing, is not run, and
the first variable is left on a stack that was empty. -/
theorem binding_leaks :
    (∀ Γ : Context, ((pure () : Check Unit).run Γ).context.stack = Γ.stack) ∧
      (abbreviating 20).stack = [] ∧
      (binding [.nat, .named "Loop"] (pure ())).run (abbreviating 20) =
        ⟨.error (.type ⟨.tooDeep 20, none⟩), { abbreviating 20 with stack := [⟨.nat, 0⟩] },
          []⟩ := by
  exact ⟨fun _ => rfl, rfl, run_binding_of_stuck (.next rfl (.here rfl)) _⟩

end Check

/-! ## types that have been resolved -/

/-- What a type resolves to has no name that is defined and no application that can be carried out,
and fits into the levels of the context. So it resolves again in the same context, and to itself,
and to bind a variable of it is to bind one of the type it came from. -/
theorem Context.resolve_resolve {Γ : Context} {T U : Ty} (h : Γ.resolve T = .ok U) :
    U.Settled Γ.aliases Γ.limit.levels ∧ Γ.resolve U = .ok U ∧ Γ.push U = Γ.push T := by
  have hU := (Context.resolve_ok h).2
  have hagain := Context.resolve_settled hU
  refine ⟨hU, hagain, ?_⟩
  rw [push, push, h, hagain]

/-- An operator that gives new applications, within as many levels as it takes. -/
theorem Context.resolve_resolve_twice :
    (abbreviating 7).resolve
        (.app (.app (.named "Twice") (.named "Pair")) (.named "X")) =
      .error (.type ⟨.tooDeep 7, none⟩) ∧
    (abbreviating 8).resolve
        (.app (.app (.named "Twice") (.named "Pair")) (.named "X")) =
      .ok (.product [.product [.named "X", .named "X"], .product [.named "X", .named "X"]]) ∧
    (abbreviating 8).resolve
        (.product [.product [.named "X", .named "X"], .product [.named "X", .named "X"]]) =
      .ok (.product [.product [.named "X", .named "X"], .product [.named "X", .named "X"]]) := by
  have hresolve : (abbreviating 8).resolve
      (.app (.app (.named "Twice") (.named "Pair")) (.named "X")) =
        .ok (.product [.product [.named "X", .named "X"], .product [.named "X", .named "X"]]) :=
    rfl
  exact ⟨rfl, hresolve, (Context.resolve_resolve hresolve).2.1⟩

end PolyLambda
