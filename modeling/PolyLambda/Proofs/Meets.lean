import PolyLambda.Check.Checker
import PolyLambda.Proofs.Telescope

/-!
# PolyLambda.Proofs.Meets

A judgement on computations of the checker. `x.Meets w Γ P E` says that `x`, started in `Γ`,
leaves the context as it was and gives a value with `P`; and that, where failures are watched,
it leaves the context as it was also if it fails, and the fault has `E`. With `w` false nothing
is said of failures.

There is one rule for each way of putting computations together, so that a rule of the checker
is treated by following its text.

* `run_binding_of_resolved` and `run_binding_of_stuck` say how a computation with variables bound
  around it runs, if their types resolve and if one of them does not.
* `Meets.bind` is the rule for sequences.
* `Meets.binding`, `Meets.binding_one` and `Meets.inScope` are the rules for binders. Several
  variables may be bound only where each of their types resolves, since a failure in the middle
  would leave the first ones bound.
* `meets_resolve`, `meets_instantiate` and `meets_lower` say what types are given.
* `meets_mapM` and `meets_armsType` are about the parts of a tuple and the arms of a case.
-/

namespace PolyLambda

open Ty

/-- On the members of a list up to some one `f` gives the results `ys`, and on that one it fails
with `e`. -/
inductive Stuck {ε α β : Type} (f : α → Except ε β) : List α → List β → ε → Prop where
  | here {x : α} {xs : List α} {e : ε} (h : f x = .error e) : Stuck f (x :: xs) [] e
  | next {x : α} {y : β} {xs : List α} {ys : List β} {e : ε} (hx : f x = .ok y)
      (h : Stuck f xs ys e) : Stuck f (x :: xs) (y :: ys) e

/-- Along a list a function either succeeds everywhere or is stuck at a first place. -/
theorem forall₂_or_stuck {ε α β : Type} (f : α → Except ε β) (xs : List α) :
    (∃ ys, List.Forall₂ (fun x y => f x = .ok y) xs ys) ∨ ∃ ys e, Stuck f xs ys e := by
  induction xs with
  | nil => exact .inl ⟨[], .nil⟩
  | cons x xs ih =>
    cases hx : f x with
    | error e => exact .inr ⟨[], e, .here hx⟩
    | ok y =>
      obtain ⟨ys, hys⟩ | ⟨ys, e, hstuck⟩ := ih
      · exact .inl ⟨y :: ys, .cons hx hys⟩
      · exact .inr ⟨y :: ys, e, .next hx hstuck⟩

/-- The fault is the one of that place. -/
theorem Stuck.exists_error {ε α β : Type} {f : α → Except ε β} {xs : List α} {ys : List β} {e : ε}
    (h : Stuck f xs ys e) : ∃ x ∈ xs, f x = .error e := by
  induction h with
  | @here x xs _ h => exact ⟨x, List.mem_cons_self, h⟩
  | @next x _ _ _ _ _ _ ih =>
    obtain ⟨y, hy, he⟩ := ih
    exact ⟨y, List.mem_cons_of_mem x hy, he⟩

/-- No entry is meant deeper than the context is. -/
def Context.Balanced (Γ : Context) : Prop :=
  ∀ e ∈ Γ.stack, e.depth ≤ Γ.depth

namespace Check

variable {α β : Type} {w : Prop} {x : Check α} {f : α → Check β} {Γ Δ : Context}
  {P P' : α → Prop} {Q : β → Prop} {E E' : Fault → Prop}

/-- `x` started in `Γ` gives a value with `P` and leaves the context as it was, or it fails; if
failures are watched, it then leaves the context as it was, with a fault that has `E`. -/
inductive Meets (x : Check α) (w : Prop) (Γ : Context) (P : α → Prop) (E : Fault → Prop) :
    Prop where
  | ok {a : α} {log : List Event} (h : x.run Γ = ⟨.ok a, Γ, log⟩) (ha : P a)
  | error {e : Fault} {Δ : Context} {log : List Event} (h : x.run Γ = ⟨.error e, Δ, log⟩)
      (he : w → Δ = Γ ∧ E e)

/-! ## pushing and popping -/

theorem run_modify_of_ok {g : Context → Except Fault Context} (h : g Γ = .ok Δ) :
    (modify g).run Γ = ⟨.ok (), Δ, []⟩ := by
  simp only [modify, h]

theorem run_modify_of_error {g : Context → Except Fault Context} {e : Fault}
    (h : g Γ = .error e) : (modify g).run Γ = ⟨.error e, Γ, []⟩ := by
  simp only [modify, h]

theorem pushAll_cons (T : Ty) (Ts : List Ty) :
    pushAll (T :: Ts) = modify (·.push T) >>= fun _ => pushAll Ts :=
  rfl

theorem popAll_cons (T : Ty) (Ts : List Ty) :
    popAll (T :: Ts) = modify (·.pop) >>= fun _ => popAll Ts :=
  rfl

theorem push_of_error {T : Ty} {e : Fault} (h : Γ.resolve T = .error e) :
    Γ.push T = .error e := by
  rw [Context.push, h]
  rfl

/-- Types that all resolve are pushed one after another. -/
theorem run_pushAll {Ts Us : List Ty}
    (h : List.Forall₂ (fun T U => Γ.resolve T = .ok U) Ts Us) :
    (pushAll Ts).run Γ = ⟨.ok (), Γ.bind Us, []⟩ := by
  induction Ts generalizing Γ Us with
  | nil =>
    cases h
    rfl
  | cons T Ts ih =>
    obtain ⟨U, Us, hU, hrest, rfl⟩ := List.forall₂_cons_left_iff.1 h
    have hpush : Γ.push T = .ok (Γ.bindOne U) := Context.push_eq_ok.2 ⟨U, hU, rfl⟩
    have hrun : (pushAll Ts).run (Γ.bindOne U) = ⟨.ok (), (Γ.bindOne U).bind Us, []⟩ := ih hrest
    rw [pushAll_cons, run_bind_of_ok (run_modify_of_ok hpush), hrun]
    rfl

/-- If some type does not resolve, those before it stay pushed. -/
theorem run_pushAll_of_stuck {Ts Us : List Ty} {e : Fault} (h : Stuck Γ.resolve Ts Us e) :
    (pushAll Ts).run Γ = ⟨.error e, Γ.bind Us, []⟩ := by
  induction Ts generalizing Γ Us with
  | nil => cases h
  | cons T Ts ih =>
    rw [pushAll_cons]
    cases h with
    | here hT => exact run_bind_of_error (run_modify_of_error (push_of_error hT)) _
    | @next _ U _ Us _ hT hrest =>
      have hpush : Γ.push T = .ok (Γ.bindOne U) := Context.push_eq_ok.2 ⟨U, hT, rfl⟩
      have hrun : (pushAll Ts).run (Γ.bindOne U) = ⟨.error e, (Γ.bindOne U).bind Us, []⟩ :=
        ih hrest
      rw [run_bind_of_ok (run_modify_of_ok hpush), hrun]
      rfl

/-- Variables are bound one above the other, so the last one is innermost. -/
theorem bind_eq (Γ : Context) (Us : List Ty) :
    Γ.bind Us = { Γ with stack := (Us.map fun U => ⟨U, Γ.depth⟩).reverse ++ Γ.stack } := by
  induction Us generalizing Γ with
  | nil => rfl
  | cons U Us ih =>
    rw [Context.bind, List.foldl_cons, ← Context.bind, ih]
    simp [Context.bindOne]

/-- As many variables are unbound as there are types. -/
theorem run_popAll {Ts : List Ty} {es : List Entry} (h : es.length = Ts.length) :
    (popAll Ts).run { Γ with stack := es ++ Γ.stack } = ⟨.ok (), Γ, []⟩ := by
  induction es generalizing Ts with
  | nil =>
    obtain rfl := List.eq_nil_of_length_eq_zero h.symm
    rfl
  | cons e es ih =>
    obtain ⟨T, Ts, rfl⟩ := List.exists_cons_of_length_eq_add_one h.symm
    have hpop : Context.pop { Γ with stack := e :: es ++ Γ.stack } =
        .ok { Γ with stack := es ++ Γ.stack } := rfl
    rw [popAll_cons, run_bind_of_ok (run_modify_of_ok hpop), ih (by simpa using h)]
    rfl

/-- What has been bound is unbound again. -/
theorem run_popAll_bind {Ts Us : List Ty} (h : Ts.length = Us.length) :
    (popAll Ts).run (Γ.bind Us) = ⟨.ok (), Γ, []⟩ := by
  rw [bind_eq]
  exact run_popAll (by simp [h])

/-- Popping needs only that the entries above are as many as the types. -/
theorem run_popAll_of_stack {Δ : Context} {Ts Us : List Ty} (hlen : Ts.length = Us.length)
    (hΔ : Δ.stack = (Γ.bind Us).stack) :
    (popAll Ts).run Δ = ⟨.ok (), { Δ with stack := Γ.stack }, []⟩ := by
  obtain ⟨stack, depth, aliases, limit⟩ := Δ
  rw [bind_eq] at hΔ
  obtain rfl : stack = _ := hΔ
  exact run_popAll (Γ := ⟨Γ.stack, depth, aliases, limit⟩) (by simp [hlen])

/-- A scope that has just been opened can be closed, if all variables are from outside. -/
theorem closeScope_openScope (hΓ : Γ.Balanced) : Γ.openScope.closeScope = .ok Γ :=
  Context.closeScope_eq_ok.2 ⟨Γ.depth, rfl, fun e he => hΓ e (List.mem_of_mem_head? he), rfl⟩

/-- If all types resolve and the computation leaves the stack as it finds it, the result, the events
and the rest of the context are its own, and the stack is as it was before. -/
theorem run_binding_of_resolved {Ts Us : List Ty}
    (hUs : List.Forall₂ (fun T U => Γ.resolve T = .ok U) Ts Us)
    (hx : (x.run (Γ.bind Us)).context.stack = (Γ.bind Us).stack) :
    (binding Ts x).run Γ =
      { x.run (Γ.bind Us) with
        context := { (x.run (Γ.bind Us)).context with stack := Γ.stack } } := by
  have hpop := run_popAll_of_stack hUs.length_eq hx
  rw [binding, run_bind_of_ok (run_pushAll hUs)]
  simp [ensuring, hpop]

/-- If some type does not resolve, the computation is not run, and the variables of the types before
that one stay bound. -/
theorem run_binding_of_stuck {Ts Us : List Ty} {e : Fault} (h : Stuck Γ.resolve Ts Us e)
    (x : Check α) : (binding Ts x).run Γ = ⟨.error e, Γ.bind Us, []⟩ :=
  run_bind_of_error (run_pushAll_of_stuck h) _

/-- If the type of a single variable does not resolve, nothing is bound. -/
theorem run_binding_of_error {T : Ty} {e : Fault} (h : Γ.resolve T = .error e) (x : Check α) :
    (binding [T] x).run Γ = ⟨.error e, Γ, []⟩ :=
  run_binding_of_stuck (.here h) x

namespace Meets

/-! ## sequences -/

theorem pure {a : α} (ha : P a) : (pure a : Check α).Meets w Γ P E :=
  .ok rfl ha

/-- What the first computation establishes, the second may use. -/
theorem bind (hx : x.Meets w Γ P E) (hf : ∀ a, P a → (f a).Meets w Γ Q E) :
    (x >>= f).Meets w Γ Q E := by
  cases hx with
  | error h he => exact .error (run_bind_of_error h f) he
  | ok h ha =>
    cases hf _ ha with
    | error h' he => exact .error (by rw [run_bind_of_ok h, h']) he
    | ok h' hb => exact .ok (by rw [run_bind_of_ok h, h']) hb

/-- What is established may be weakened. -/
theorem mono (hx : x.Meets w Γ P E) (hP : ∀ a, P a → P' a) : x.Meets w Γ P' E := by
  cases hx with
  | ok h ha => exact .ok h (hP _ ha)
  | error h he => exact .error h he

/-- A value that is given has what is known of it. -/
theorem of_ok (hx : x.Meets w Γ P E) {a : α} (ha : (x.run Γ).result = .ok a) : P a := by
  cases hx with
  | ok h hP =>
    rw [h] at ha
    exact Except.ok.inj ha ▸ hP
  | error h _ =>
    rw [h] at ha
    contradiction

/-- A fault that is watched has what is known of it. -/
theorem of_error (hx : x.Meets True Γ P E) {e : Fault} (he : (x.run Γ).result = .error e) :
    E e := by
  cases hx with
  | ok h _ =>
    rw [h] at he
    contradiction
  | error h hE =>
    rw [h] at he
    exact Except.error.inj he ▸ (hE trivial).2

/-- What is known of a computation may be collected. -/
theorem and (hx : x.Meets w Γ P E) (hx' : x.Meets w Γ P' E') :
    x.Meets w Γ (fun a => P a ∧ P' a) E := by
  cases hx with
  | error h he => exact .error h he
  | ok h ha =>
    cases hx' with
    | error h' _ => simp [h] at h'
    | ok h' ha' =>
      have heq : _ = _ := Except.ok.inj (congrArg Outcome.result (h.symm.trans h'))
      exact .ok h ⟨ha, heq ▸ ha'⟩

theorem fail {e : Fault} (he : w → E e) : (fail e : Check α).Meets w Γ P E :=
  .error rfl fun hw => ⟨rfl, he hw⟩

/-- A question: what the answer or its failure says about the context. -/
theorem ask {g : Context → Except Fault α} (hok : ∀ a, g Γ = .ok a → P a)
    (herr : ∀ e, g Γ = .error e → w → E e) : (ask g).Meets w Γ P E := by
  have hrun : (Check.ask g).run Γ = ⟨g Γ, Γ, []⟩ := rfl
  cases h : g Γ with
  | ok a => exact .ok (hrun.trans (by rw [h])) (hok a h)
  | error e => exact .error (hrun.trans (by rw [h])) fun hw => ⟨rfl, herr e h hw⟩

theorem ofExcept {r : Except Fault α} (hok : ∀ a, r = .ok a → P a)
    (herr : ∀ e, r = .error e → w → E e) : (ofExcept r).Meets w Γ P E :=
  ask (g := fun _ => r) hok herr

/-! ## binders -/

/-- A computation between a change of the context and a change back. -/
theorem between {x : Check α} {first last : Check Unit} {log₁ log₂ : List Event}
    (hfirst : first.run Γ = ⟨.ok (), Δ, log₁⟩) (hlast : last.run Δ = ⟨.ok (), Γ, log₂⟩)
    (hx : x.Meets w Δ P E) : (first >>= fun _ => ensuring x last).Meets w Γ P E := by
  have hrun := run_bind_of_ok hfirst fun _ => ensuring x last
  cases hx with
  | @ok a log h ha =>
    have hend : (ensuring x last).run Δ = ⟨.ok a, Γ, log ++ log₂⟩ := by
      simp only [ensuring, h, hlast]
    exact .ok (by rw [hrun, hend]) ha
  | @error e Δ' log h he =>
    -- nothing is known of the context here unless failures are watched
    cases hl : last.run Δ' with
    | mk result Γ' log' =>
    have hend : ∃ e', (ensuring x last).run Δ = ⟨.error e', Γ', log ++ log'⟩ ∧
        (result = .ok () → e' = e) := by
      cases result with
      | ok _ => exact ⟨e, by simp only [ensuring, h, hl], fun _ => rfl⟩
      | error e' => exact ⟨e', by simp only [ensuring, h, hl], nofun⟩
    obtain ⟨e', hend, heq⟩ := hend
    refine .error (by rw [hrun, hend]) fun hw => ?_
    obtain ⟨rfl, hE⟩ := he hw
    obtain ⟨rfl, rfl, -⟩ := Outcome.mk.inj (hl.symm.trans hlast)
    exact ⟨rfl, heq rfl ▸ hE⟩

/-- Variables may be bound around a computation if, where failures are watched, each of the
types resolves. -/
theorem binding {Ts : List Ty}
    (hx : ∀ Us, List.Forall₂ (fun T U => Γ.resolve T = .ok U) Ts Us → x.Meets w (Γ.bind Us) P E)
    (hTs : w → ∃ Us, List.Forall₂ (fun T U => Γ.resolve T = .ok U) Ts Us) :
    (binding Ts x).Meets w Γ P E := by
  by_cases h : ∃ Us, List.Forall₂ (fun T U => Γ.resolve T = .ok U) Ts Us
  · obtain ⟨Us, hUs⟩ := h
    exact between (run_pushAll hUs) (run_popAll_bind hUs.length_eq) (hx Us hUs)
  · obtain ⟨Us, e, hstuck⟩ := (forall₂_or_stuck Γ.resolve Ts).resolve_left h
    exact .error (run_binding_of_stuck hstuck x) fun hw => absurd (hTs hw) h

/-- A single variable may always be bound: if its type does not resolve, nothing is left bound. -/
theorem binding_one {T : Ty} (hx : ∀ U, Γ.resolve T = .ok U → x.Meets w (Γ.bindOne U) P E)
    (hT : ∀ e, Γ.resolve T = .error e → w → E e) : (Check.binding [T] x).Meets w Γ P E := by
  cases h : Γ.resolve T with
  | ok U =>
    have hTs : List.Forall₂ (fun T U => Γ.resolve T = .ok U) [T] [U] := .cons h .nil
    exact binding (fun Us hUs => by
      obtain ⟨V, _, hV, hnil, rfl⟩ := List.forall₂_cons_left_iff.1 hUs
      cases hnil
      exact hx V hV) fun _ => ⟨[U], hTs⟩
  | error e => exact .error (run_binding_of_error h x) fun hw => ⟨rfl, hT e h hw⟩

/-- A computation inside a type scope. -/
theorem inScope (hΓ : Γ.Balanced) (hx : x.Meets w Γ.openScope P E) :
    (inScope x).Meets w Γ P E :=
  between (run_modify_of_ok rfl) (run_modify_of_ok (closeScope_openScope hΓ)) hx

end Meets

/-! ## types -/

/-- Resolving gives a settled type that the type computes to. It fails only for want of levels,
if definitions and the type are well formed. -/
theorem meets_resolve {T : Ty}
    (hw : w → Γ.aliases.WellFormed ∧ T.WellFormed ∧ E (Γ.limit.overrun none)) :
    (resolve T).Meets w Γ (fun U => Steps Γ.aliases T U ∧ U.Settled Γ.aliases Γ.limit.levels) E :=
  .ask (fun _ => Context.resolve_ok) fun e h hwatch => by
    obtain ⟨hal, hT, hE⟩ := hw hwatch
    rwa [Context.resolve_error hal hT h]

/-- Instantiating gives a settled type that the instance computes to. -/
theorem meets_instantiate {limit : Limit} {body A : Ty}
    (hw : w → Γ.aliases.WellFormed ∧ body.WellFormed ∧ A.WellFormed ∧
      ∀ limit : Limit, E (limit.overrun none)) :
    (instantiate limit body A).Meets w Γ
      (fun U => Steps Γ.aliases (body.inst A) U ∧ U.Settled Γ.aliases Γ.limit.levels) E := by
  refine .bind (P := fun V => (w → V.WellFormed) ∧ V = body.inst A) (.ofExcept ?_ ?_) ?_
  · intro V hV
    obtain ⟨hb, hA, rfl⟩ := instantiate_ok (mapError_eq_ok.1 hV)
    exact ⟨fun _ => WellFormed.inst hb hA, rfl⟩
  · intro e he hwatch
    obtain ⟨-, hb, hA, hE⟩ := hw hwatch
    obtain ⟨d, hd, rfl⟩ := mapError_eq_error.1 he
    rw [instantiate_error hb hA hd]
    exact hE limit
  · rintro V ⟨hV, heq⟩
    rw [← heq]
    exact meets_resolve fun hwatch =>
      ⟨(hw hwatch).1, hV hwatch, (hw hwatch).2.2.2 Γ.limit⟩

/-- A type variable is taken out of a type that does not mention it. -/
theorem meets_lower {limit : Limit} {B : Ty} {span : Option Span}
    (hw : w → B.WellFormed ∧ E (limit.overrun none) ∧
      (¬ B.Avoids → E (.type ⟨.escape B, span⟩))) :
    (lower limit B span).Meets w Γ (fun U => B = U.lift 1 0) E := by
  refine .bind (P := fun b => b = false ↔ B.Avoids) (.ofExcept ?_ ?_) ?_
  · intro b hb
    simpa using occurs_ok (mapError_eq_ok.1 hb)
  · intro e he hwatch
    obtain ⟨d, hd, rfl⟩ := mapError_eq_error.1 he
    rw [occurs_error (hw hwatch).1 hd]
    exact (hw hwatch).2.1
  · intro b hb
    split
    · next ht => exact .fail fun hwatch => (hw hwatch).2.2 (by simp [← hb, ht])
    · next hf =>
      have havoids : B.Avoids := hb.1 (by simpa using hf)
      refine .ofExcept (fun U hU => (lower_ok havoids (mapError_eq_ok.1 hU)).2.2) ?_
      intro e he hwatch
      obtain ⟨d, hd, rfl⟩ := mapError_eq_error.1 he
      rw [lower_error (hw hwatch).1 havoids hd]
      exact (hw hwatch).2.1

/-- If a comparison passes, the types are equal. -/
theorem meets_expect {expected actual : Ty} {part whole : Term}
    (hne : w → actual ≠ expected → E (.type ⟨.mismatch expected actual part.span, whole.span⟩)) :
    (expect expected actual part whole).Meets w Γ (fun _ => actual = expected) E := by
  unfold expect
  split
  · next heq => exact .pure heq
  · next hdiff => exact .fail fun hwatch => hne hwatch hdiff

/-! ## several parts -/

/-- The parts of a list, one after another, each with something that its value is to fit. -/
theorem meets_mapM {γ : Type} {g : α → Check β} {R : γ → β → Prop} {xs : List α} {cs : List γ}
    (h : List.Forall₂ (fun a c => (g a).Meets w Γ (R c) E) xs cs) :
    (xs.mapM g).Meets w Γ (fun ys => List.Forall₂ R cs ys) E := by
  induction h with
  | nil => exact .pure .nil
  | cons ha _ ih =>
    rw [List.mapM_cons]
    refine ha.bind fun b hb => ?_
    refine ih.bind fun ys hys => ?_
    exact .pure (.cons hb hys)

/-- Tests for each of a list establish what they test for all of it. -/
theorem meets_forM {g : α → Check Unit} {R : α → Prop} {xs : List α}
    (h : ∀ a ∈ xs, (g a).Meets w Γ (fun _ => R a) E) :
    (xs.forM g).Meets w Γ (fun _ => ∀ a ∈ xs, R a) E := by
  induction xs with
  | nil => exact .pure (by simp)
  | cons a xs ih =>
    have hrun : (a :: xs).forM g = g a >>= fun _ => xs.forM g := rfl
    rw [hrun]
    refine (h a List.mem_cons_self).bind fun _ ha => ?_
    refine (ih fun a' ha' => h a' (List.mem_cons_of_mem a ha')).mono fun _ hxs => ?_
    exact List.forall_mem_cons.2 ⟨ha, hxs⟩

/-- The type of the arms satisfies what is known of each arm, since all arms have that type. -/
theorem meets_armsType {infer : Term → Check Ty} {span : Option Span}
    {arms : List (Arm Term × List Ty)} {R : Arm Term × List Ty → Ty → Prop} (hne : arms ≠ [])
    (harms : ∀ a ∈ arms, (Check.binding a.2 (infer a.1.body)).Meets w Γ (R a) E)
    (hdiff : w → ∀ a ∈ arms, ∀ b ∈ arms, ∀ T U, R a T → R b U → U ≠ T →
      ∀ span, E (.type ⟨.arms T U, span⟩)) :
    (armsType infer span arms).Meets w Γ (fun T => ∀ a ∈ arms, R a T) E := by
  cases arms with
  | nil => exact absurd rfl hne
  | cons first rest =>
    have hmem : ∀ b ∈ rest, b ∈ first :: rest := fun b hb => List.mem_cons_of_mem first hb
    rw [armsType]
    refine (harms first List.mem_cons_self).bind fun T hT => ?_
    refine .bind (meets_forM (R := fun b => R b T) fun b hb => ?_) fun _ hrest =>
      .pure (List.forall_mem_cons.2 ⟨hT, hrest⟩)
    refine (harms b (hmem b hb)).bind fun U hU => ?_
    split
    · next heq => exact .pure (heq ▸ hU)
    · next hne =>
      exact .fail fun hwatch =>
        hdiff hwatch first List.mem_cons_self b (hmem b hb) T U hT hU hne _

end Check

/-! ## the checker -/

/-- What holds of a rule holds of the checker one level up. -/
theorem Checker.meets_infer {c : Checker} {n : Nat} {t : Term} {w : Prop} {Γ : Context}
    {P : Ty → Prop} {E : Fault → Prop}
    (h : (Check.rule c.limit (c.infer n) t).Meets w Γ P E) :
    (c.infer (n + 1) t).Meets w Γ P E := by
  rw [infer]
  refine h.bind fun T hT => ?_
  split
  · exact .bind (P := fun _ => True) (.ok rfl trivial) fun _ _ => .pure hT
  · exact .pure hT

end PolyLambda
