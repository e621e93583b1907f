import PolyLambda.Proofs.Ground

/-!
# PolyLambda.Proofs.Decided

Computations that a high enough limit does not stand in the way of. The judgements of this module
are about families of results or of computations, one for each limit. `Decided` says that from some
number of levels on they all end in the same way, and not for want of levels. Where this holds of
all steps it holds of a sequence of them, since of two bounds the greater is a bound for both.

* `Limit.Decided` is the judgement on results. Resolving, instantiating, lowering and looking up
  are decided where types are ground.
* `Check.Decided` is the judgement on computations, which also leave the context as it was. There is
  one rule for each way of putting computations together.
-/

namespace PolyLambda

open Ty

/-! ## answers for every limit -/

namespace Limit

variable {α β : Type} {q : Limit → Except Fault α} {f : α → Limit → Except Fault β}
  {Q : β → Prop}

/-- From some number of levels on, the value is `a`. -/
def Eventually {α : Type} (q : Limit → α) (a : α) : Prop :=
  ∃ bound, ∀ l : Limit, bound ≤ l.levels → q l = a

/-- From some number of levels on, results are one value with `P`, or one fault that is no want of
levels. -/
inductive Decided (q : Limit → Except Fault α) (P : α → Prop) : Prop where
  | ok {a : α} (h : Eventually q (.ok a)) (ha : P a)
  | error {e : Fault} (h : Eventually q (.error e)) (he : ¬ e.Exhausted)

/-- An answer that does not change may be used for another. -/
theorem Eventually.bind {r : Except Fault β} {a : α} (h : Eventually q (.ok a))
    (hf : Eventually (f a) r) : Eventually (fun l => q l >>= fun a => f a l) r := by
  obtain ⟨m, hm⟩ := h
  obtain ⟨n, hn⟩ := hf
  refine ⟨max m n, fun l hl => ?_⟩
  have hq : q l = .ok a := hm l (le_of_max_le_left hl)
  simp only [hq]
  exact hn l (le_of_max_le_right hl)

/-- It may also be used for one that is decided. -/
theorem Eventually.decided {a : α} (h : Eventually q (.ok a))
    (hf : Decided (f a) Q) : Decided (fun l => q l >>= fun a => f a l) Q := by
  cases hf with
  | ok h' hb => exact .ok (h.bind h') hb
  | error h' he => exact .error (h.bind h') he

/-- A depth that the machine has room for. -/
theorem le_levels {bound : Nat} {m : Int} {frames : Option Nat} (hm : bound ≤ m)
    (hframes : ∀ k ∈ frames, bound ≤ k) : bound ≤ (⟨m, frames⟩ : Limit).levels := by
  cases frames with
  | none =>
    simp only [levels]
    omega
  | some k =>
    have hk : bound ≤ k := hframes k rfl
    simp only [levels]
    omega

end Limit

open Limit (Eventually)

/-! ## types -/

/-- The variables of a context over some aliases have ground types. -/
structure Context.Ground (aliases : Aliases) (Γ : Context) : Prop where
  balanced : Γ.Balanced
  types : ∀ e ∈ Γ.stack, e.ty.Ground aliases
  aliases_eq : Γ.aliases = aliases

section Types

variable {aliases : Aliases} {Γ : Context} {T A B body : Ty} {s : Option Span}

/-- What a traversal of types gives with enough levels. -/
theorem eventually_run {α : Type} {walk : Nat → Except Ty.Fault α} {a : α} {k : Nat}
    (h : ∀ n, k ≤ n → walk n = .ok a) : Eventually (fun l => l.run walk) (.ok a) :=
  ⟨k, fun l hl => mapError_eq_ok.2 (h l.levels hl)⟩

/-- A ground type is resolved to itself as soon as there are levels for it. -/
theorem eventually_resolve_ground (hT : T.Ground Γ.aliases) :
    Eventually (fun l => (Γ.withLimit l).resolve T) (.ok T) := by
  obtain ⟨k, hk⟩ := exists_fits T
  exact eventually_run fun n hn => (hT.settled (hk.mono hn)).resolve_eq

/-- A type without operators is resolved, over definitions without circles, if there are levels
enough. -/
theorem Context.decided_resolve (hal : Γ.aliases.Tame) (hT : T.WellFormed ∧ T.OperatorFree) :
    Limit.Decided (fun l => (Γ.withLimit l).resolve T) (·.Ground Γ.aliases) := by
  obtain ⟨U, hU, n, hn⟩ := exists_resolve hal hT.1 hT.2
  exact .ok (eventually_run hn) hU

/-- The instance of a ground type at a ground type is found, and is ground. -/
theorem Context.decided_instantiate (hb : body.Ground Γ.aliases) (hA : A.Ground Γ.aliases) :
    Limit.Decided (fun l => (Γ.withLimit l).instantiate l body A) (·.Ground Γ.aliases) := by
  have hinst : (body.inst A).Ground Γ.aliases := hb.inst hA
  obtain ⟨k, hk⟩ := exists_fits body
  obtain ⟨m, hm⟩ := exists_fits A
  obtain ⟨n, hn⟩ := exists_fits (body.inst A)
  have hrun : Eventually (fun l => l.run fun n => body.instantiate n A) (.ok (body.inst A)) := by
    refine eventually_run (k := max k (max m n)) fun levels hl => ?_
    have hkl : k ≤ levels := by omega
    have hml : m ≤ levels := by omega
    have hnl : n ≤ levels := by omega
    exact instantiate_of_fits hb.wellFormed hA.wellFormed (hk.mono hkl) (hm.mono hml) (hn.mono hnl)
  exact hrun.decided (f := fun V l => (Γ.withLimit l).resolve V)
    (.ok (eventually_resolve_ground hinst) hinst)

/-- A mistake other than the depth of nesting does not go away with more levels. -/
theorem Fault.not_exhausted {m : Mistake} {s : Option Span} (hm : ∀ depth, m ≠ .tooDeep depth) :
    ¬ (Fault.type ⟨m, s⟩).Exhausted := by
  intro h
  obtain h | ⟨depth, span, h⟩ := h.cases
  · contradiction
  · exact hm depth (congrArg TypeError.mistake (Fault.type.inj h))

/-- Whether a ground type can leave a scope is decided. -/
theorem Limit.decided_lower (hB : B.Ground aliases) :
    Limit.Decided (fun l => l.lower B s) (·.Ground aliases) := by
  obtain ⟨k, hk⟩ := exists_fits B
  have hoccurs : ∀ n, k ≤ n → ∃ b, B.occurs n 0 = .ok b ∧ (b = false ↔ B.Avoids) := by
    intro n hn
    obtain ⟨b, hb⟩ := occurs_of_fits hB.wellFormed (hk.mono hn) 0
    exact ⟨b, hb, by simpa using occurs_ok hb⟩
  by_cases ha : B.Avoids
  · have hfalse : Eventually (fun l => l.run fun n => B.occurs n 0) (.ok false) :=
      eventually_run fun n hn => by
        obtain ⟨b, hb, hiff⟩ := hoccurs n hn
        rw [hb, hiff.2 ha]
    obtain ⟨U, hU⟩ := exists_lower hB.wellFormed hk ha
    obtain rfl : B = U.lift 1 0 := (Ty.lower_ok ha hU).2.2
    have hground : U.Ground aliases := ground_lift.1 hB
    have hshift : Eventually (fun l => l.run fun n => (U.lift 1 0).shift n (-1)) (.ok U) :=
      eventually_run fun n hn => lower_of_fits hground.wellFormed (fits_lift.1 (hk.mono hn))
    exact hfalse.decided (.ok hshift hground)
  · have htrue : Eventually (fun l => l.run fun n => B.occurs n 0) (.ok true) :=
      eventually_run fun n hn => by
        obtain ⟨b, hb, hiff⟩ := hoccurs n hn
        rw [hb, Bool.eq_true_of_not_eq_false fun h => ha (hiff.1 h)]
    exact htrue.decided (.error ⟨0, fun _ _ => rfl⟩ not_false)

/-- Variables of a ground context are found with ground types, or not at all. -/
theorem Context.Ground.decided_lookUp (hΓ : Γ.Ground aliases) (i : Int) :
    Limit.Decided (fun l => (Γ.withLimit l).lookUp i s) (·.Ground aliases) := by
  have hentry : ∀ l, Context.entry? (Γ.withLimit l) i = Γ.entry? i := fun _ => rfl
  cases he : Γ.entry? i with
  | none =>
    have hfind : Eventually (fun l => (Γ.withLimit l).find i) (.ok none) :=
      ⟨0, fun l _ => by simp only [Context.find, hentry, he]⟩
    exact hfind.decided (.error ⟨0, fun _ _ => rfl⟩ not_false)
  | some e =>
    have hT := hΓ.types e (Context.mem_of_entry he)
    have hd := hΓ.balanced e (Context.mem_of_entry he)
    obtain ⟨k, hk⟩ := exists_fits e.ty
    have hfind : Eventually (fun l => (Γ.withLimit l).find i)
        (.ok (some (e.ty.lift (Γ.depth - e.depth) 0))) :=
      ⟨k, fun l hl => Context.find_of_fits ((hentry l).trans he) hd hT.wellFormed (hk.mono hl)⟩
    exact hfind.decided (.ok ⟨0, fun _ _ => rfl⟩ (ground_lift.2 hT))

end Types

/-! ## computations for every limit -/

namespace Context.Ground

variable {aliases : Aliases} {Γ : Context}

theorem openScope (h : Γ.Ground aliases) : Γ.openScope.Ground aliases :=
  ⟨fun e he => Nat.le_succ_of_le (h.balanced e he), h.types, h.aliases_eq⟩

/-- Ground types may be bound. -/
theorem bind {Ts : List Ty} (h : Γ.Ground aliases) (hTs : ∀ T ∈ Ts, T.Ground aliases) :
    (Γ.bind Ts).Ground aliases := by
  rw [Check.bind_eq]
  refine ⟨fun e he => ?_, fun e he => ?_, h.aliases_eq⟩
  · obtain he | he := List.mem_append.1 he
    · obtain ⟨T, -, rfl⟩ := List.mem_map.1 (List.mem_reverse.1 he)
      exact Nat.le_refl _
    · exact h.balanced e he
  · obtain he | he := List.mem_append.1 he
    · obtain ⟨T, hT, rfl⟩ := List.mem_map.1 (List.mem_reverse.1 he)
      exact hTs T hT
    · exact h.types e he

end Context.Ground

namespace Check

variable {α β : Type} {aliases : Aliases} {x : Limit → Nat → Check α}
  {f : α → Limit → Nat → Check β} {Γ Δ : Context} {P : α → Prop} {Q : β → Prop}

/-- From some number of levels on, of the limit and of the terms, the computation ends with `r` and
leaves the context as it was. -/
def Ends (x : Limit → Nat → Check α) (Γ : Context) (r : Except Fault α) : Prop :=
  ∃ bound, ∀ l n, bound ≤ l.levels → bound ≤ n →
    ∃ log, (x l n).run (Γ.withLimit l) = ⟨r, Γ.withLimit l, log⟩

/-- From some number of levels on, the computation gives one value with `P`, or it fails with one
fault that is no want of levels. -/
inductive Decided (x : Limit → Nat → Check α) (Γ : Context) (P : α → Prop) : Prop where
  | ok {a : α} (h : Ends x Γ (.ok a)) (ha : P a)
  | error {e : Fault} (h : Ends x Γ (.error e)) (he : ¬ e.Exhausted)

namespace Ends

/-- One computation after another, each ending in one way from some depth on. -/
theorem bind {a : α} {r : Except Fault β} (hx : Ends x Γ (.ok a)) (hf : Ends (f a) Γ r) :
    Ends (fun l n => x l n >>= fun a => f a l n) Γ r := by
  obtain ⟨k, hk⟩ := hx
  obtain ⟨m, hm⟩ := hf
  refine ⟨max k m, fun l n hl hn => ?_⟩
  obtain ⟨log, hrun⟩ := hk l n (le_of_max_le_left hl) (le_of_max_le_left hn)
  obtain ⟨log', hrun'⟩ := hm l n (le_of_max_le_right hl) (le_of_max_le_right hn)
  exact ⟨log ++ log', by rw [run_bind_of_ok hrun, hrun']⟩

/-- A failure that does not go away is the end. -/
theorem bind_error {e : Fault} (hx : Ends x Γ (.error e)) :
    Ends (fun l n => x l n >>= fun a => f a l n) Γ (.error e) := by
  obtain ⟨k, hk⟩ := hx
  refine ⟨k, fun l n hl hn => ?_⟩
  obtain ⟨log, hrun⟩ := hk l n hl hn
  exact ⟨log, run_bind_of_error hrun _⟩

/-- A question to the context, whose answer is the same from some depth on. -/
theorem ask {q : Limit → Context → Except Fault α} {r : Except Fault α}
    (h : Eventually (fun l => q l (Γ.withLimit l)) r) : Ends (fun l _ => ask (q l)) Γ r := by
  obtain ⟨k, hk⟩ := h
  refine ⟨k, fun l _ hl _ => ⟨[], ?_⟩⟩
  rw [← hk l hl]
  rfl

/-- A computation between a change of the context and a change back. -/
theorem between {first last : Check Unit} {r : Except Fault α} {k : Nat} (hx : Ends x Δ r)
    (hfirst : ∀ l : Limit, k ≤ l.levels →
      first.run (Γ.withLimit l) = ⟨.ok (), Δ.withLimit l, []⟩)
    (hlast : ∀ l, last.run (Δ.withLimit l) = ⟨.ok (), Γ.withLimit l, []⟩) :
    Ends (fun l n => first >>= fun _ => ensuring (x l n) last) Γ r := by
  obtain ⟨m, hm⟩ := hx
  refine ⟨max k m, fun l n hl hn => ?_⟩
  obtain ⟨log, hrun⟩ := hm l n (le_of_max_le_right hl) (le_of_max_le_right hn)
  exact ⟨_, run_between (hfirst l (le_of_max_le_left hl)) hrun (hlast l)⟩

/-- The levels of a limit are those of its depth, if the machine has room for them. -/
theorem of_depth {r : Except Fault α} (h : Ends x Γ r) :
    ∃ bound : Nat, ∀ (m : Int) (frames : Option Nat), bound ≤ m → (∀ k ∈ frames, bound ≤ k) →
      ∃ log, (x ⟨m, frames⟩ (⟨m, frames⟩ : Limit).levels).run (Γ.withLimit ⟨m, frames⟩) =
        ⟨r, Γ.withLimit ⟨m, frames⟩, log⟩ := by
  obtain ⟨bound, hbound⟩ := h
  refine ⟨bound, fun m frames hm hframes => ?_⟩
  have hlevels : bound ≤ (⟨m, frames⟩ : Limit).levels := Limit.le_levels hm hframes
  exact hbound _ _ hlevels hlevels

end Ends

namespace Decided

/-- A value needs no levels. -/
theorem pure {a : α} (ha : P a) : Decided (fun _ _ => pure a) Γ P :=
  .ok ⟨0, fun _ _ _ _ => ⟨[], rfl⟩⟩ ha

/-- A mistake of another sort than depth is final. -/
theorem reject {m : Mistake} {s : Option Span} (he : ¬ (Fault.type ⟨m, s⟩).Exhausted) :
    Decided (fun _ _ => reject m s : Limit → Nat → Check α) Γ P :=
  .error ⟨0, fun _ _ _ _ => ⟨[], rfl⟩⟩ he

/-- One computation after another, each decided. -/
theorem bind (hx : Decided x Γ P) (hf : ∀ a, P a → Decided (f a) Γ Q) :
    Decided (fun l n => x l n >>= fun a => f a l n) Γ Q := by
  cases hx with
  | error h he => exact .error h.bind_error he
  | ok h ha =>
    cases hf _ ha with
    | ok h' hb => exact .ok (h.bind h') hb
    | error h' he => exact .error (h.bind h') he

/-- A question to the context that is decided. -/
theorem ask {q : Limit → Context → Except Fault α}
    (h : Limit.Decided (fun l => q l (Γ.withLimit l)) P) : Decided (fun l _ => ask (q l)) Γ P := by
  cases h with
  | ok h ha => exact .ok (.ask h) ha
  | error h he => exact .error (.ask h) he

/-- A computation between a change of the context and a change back, for which there are levels. -/
theorem between {first last : Check Unit} {k : Nat} (hx : Decided x Δ P)
    (hfirst : ∀ l : Limit, k ≤ l.levels →
      first.run (Γ.withLimit l) = ⟨.ok (), Δ.withLimit l, []⟩)
    (hlast : ∀ l, last.run (Δ.withLimit l) = ⟨.ok (), Γ.withLimit l, []⟩) :
    Decided (fun l n => first >>= fun _ => ensuring (x l n) last) Γ P := by
  cases hx with
  | ok h ha => exact .ok (h.between hfirst hlast) ha
  | error h he => exact .error (h.between hfirst hlast) he

/-- Variables of ground types are bound as they are. -/
theorem binding {Ts : List Ty} (hΓ : Γ.Ground aliases) (hTs : ∀ T ∈ Ts, T.Ground aliases)
    (hx : (Γ.bind Ts).Ground aliases → Decided x (Γ.bind Ts) P) :
    Decided (fun l n => binding Ts (x l n)) Γ P := by
  have hbind : ∀ l, (Γ.withLimit l).bind Ts = (Γ.bind Ts).withLimit l := by
    intro l
    rw [bind_eq, bind_eq]
    rfl
  -- ground types are resolved already, but to see this takes levels for the largest of them
  obtain ⟨k, hk⟩ := exists_bound (P := Fits) (fun h hT => Fits.mono h hT)
    fun T (_ : T ∈ Ts) => exists_fits T
  refine between (k := k) (hx (hΓ.bind hTs)) (fun l hl => ?_) fun l => ?_
  · rw [← hbind l]
    refine run_pushAll (List.forall₂_same.2 fun T hT => Context.resolve_settled ?_)
    have hset : T.Settled aliases l.levels := (hTs T hT).settled ((hk T hT).mono hl)
    exact hΓ.aliases_eq.symm ▸ hset
  · rw [← hbind l]
    exact run_popAll_bind rfl

/-- A computation inside a type scope. -/
theorem inScope (hΓ : Γ.Balanced) (hx : Decided x Γ.openScope P) :
    Decided (fun l n => inScope (x l n)) Γ P := by
  have hclose : ∀ l, Context.closeScope (Γ.openScope.withLimit l) = .ok (Γ.withLimit l) :=
    fun l => closeScope_openScope (Γ := Γ.withLimit l) hΓ
  exact between (k := 0) hx (fun l _ => run_modify_of_ok rfl) fun l => run_modify_of_ok (hclose l)

/-! ## several parts -/

/-- A computation for each of a list. -/
theorem mapM {γ : Type} {g : Limit → Nat → γ → Check α} {xs : List γ}
    (h : ∀ c ∈ xs, Decided (fun l n => g l n c) Γ P) :
    Decided (fun l n => xs.mapM (g l n)) Γ fun as => ∀ a ∈ as, P a := by
  induction xs with
  | nil => exact .pure (by simp)
  | cons c xs ih =>
    obtain ⟨hc, hxs⟩ := List.forall_mem_cons.1 h
    simp only [List.mapM_cons]
    refine hc.bind fun a ha => ?_
    refine (ih hxs).bind fun as has => ?_
    exact .pure (List.forall_mem_cons.2 ⟨ha, has⟩)

theorem forM {γ : Type} {g : Limit → Nat → γ → Check Unit} {xs : List γ}
    (h : ∀ c ∈ xs, Decided (fun l n => g l n c) Γ fun _ => True) :
    Decided (fun l n => xs.forM (g l n)) Γ fun _ => True := by
  induction xs with
  | nil => exact .pure trivial
  | cons c xs ih =>
    obtain ⟨hc, hxs⟩ := List.forall_mem_cons.1 h
    exact hc.bind fun _ _ => ih hxs

end Decided

end Check

end PolyLambda
