import PolyLambda.Proofs.Levels
import PolyLambda.Proofs.Safe

/-!
# PolyLambda.Proofs.Eager

A context shifts the types of its variables only when it is asked for them. This module compares it
with the plain way of keeping variables, in which each type on the stack is always meant at the
present depth: whenever a scope is opened or closed, the whole stack is shifted.

The comparison goes through a function. `Context.eager` shifts the stack of a context to the present
depth, and a call made before or after that gives the same (`Context.call_eager`). For this the
recorded depths have to be ordered along the stack: a scope is closed after a look at the top of
the stack alone, and then every type on the stack has to be meant outside of the scope.

* `Eager` is the plain context, and `Eager.call` carries out a call on it.
* `Context.Layered` is the invariant, `Context.Layered.call` says that every call keeps it.
* `Context.replay_refines`: both kinds of context answer every sequence of calls in the same way,
  and look-ups give the same types afterwards.
-/

namespace PolyLambda

open Ty

/-! ## calls -/

/-- The calls that change a context. -/
inductive Context.Call where
  | push (ty : Ty)
  | pop
  | openScope
  | closeScope
  | define (name : String) (ty : Ty)

open Context (Call)

/-- Carries out a call on a context. -/
def Context.call (Γ : Context) : Call → Except Fault Context
  | .push T => Γ.push T
  | .pop => Γ.pop
  | .openScope => .ok Γ.openScope
  | .closeScope => Γ.closeScope
  | .define name ty => .ok (Γ.define name ty)

/-- Makes calls one after another. A call that is refused is passed over; the list has an entry for
each call, with the reason if it was refused. -/
def Context.Call.replay {σ : Type} (call : σ → Call → Except Fault σ) :
    σ → List Call → List (Option Fault) × σ
  | s, [] => ([], s)
  | s, c :: cs =>
    match call s c with
    | .ok s' => let rest := replay call s' cs; (none :: rest.1, rest.2)
    | .error e => let rest := replay call s cs; (some e :: rest.1, rest.2)

/-! ## contexts that shift at once -/

/-- A context whose types are all meant at the present depth. The depths at which the variables
were pushed are kept beside the types, to tell whether a scope may be closed. -/
structure Eager where
  types : List Ty
  pushedAt : List Nat
  depth : Nat
  aliases : Aliases
  limit : Limit

namespace Eager

/-- The context without binders. -/
def fresh (aliases : Aliases) (limit : Limit) : Eager :=
  ⟨[], [], 0, aliases, limit⟩

/-- Shifts every type on the stack. -/
def shiftAll (E : Eager) (amount : Int) : Except Fault (List Ty) :=
  E.types.mapM fun T => E.limit.run fun n => T.shift n amount

/-- Carries out a call. A scope is opened or closed with the whole stack being shifted. -/
def call (E : Eager) : Call → Except Fault Eager
  | .push T => do
    let U ← E.limit.run fun n => T.resolve E.aliases n
    return { E with types := U :: E.types, pushedAt := E.depth :: E.pushedAt }
  | .pop =>
    match E.types with
    | [] => .error (.underflow .noTerm)
    | _ :: rest => .ok { E with types := rest, pushedAt := E.pushedAt.tail }
  | .openScope => do
    let types ← E.shiftAll 1
    return { E with types := types, depth := E.depth + 1 }
  | .closeScope =>
    match E.depth with
    | 0 => .error (.underflow .noScope)
    | d + 1 =>
      if E.pushedAt.head?.any (d + 1 ≤ ·) then
        .error (.underflow .termsInside)
      else do
        let types ← E.shiftAll (-1)
        return { E with types := types, depth := d }
  | .define name ty => .ok { E with aliases := E.aliases.insert name ty }

/-- The type of a variable, as it stands on the stack. -/
def find (E : Eager) : Int → Option Ty
  | .ofNat i => E.types[i]?
  | .negSucc _ => none

end Eager

namespace Context

/-- An entry, meant at the present depth. -/
def present (Γ : Context) (e : Entry) : Ty :=
  e.ty.lift (Γ.depth - e.depth) 0

/-- The context with every type shifted to the present depth. -/
def eager (Γ : Context) : Eager :=
  ⟨Γ.stack.map Γ.present, Γ.stack.map (·.depth), Γ.depth, Γ.aliases, Γ.limit⟩

/-! ## the invariant -/

/-- The recorded depths do not grow from the top of the stack downwards and are at most the present
depth, and the types nest within the limit. -/
structure Layered (Γ : Context) : Prop where
  ordered : Γ.stack.Pairwise fun e e' => e'.depth ≤ e.depth
  balanced : Γ.Balanced
  fits : ∀ e ∈ Γ.stack, e.ty.WellFormed ∧ e.ty.Fits Γ.limit.levels

variable {Γ Γ' : Context}

theorem layered_fresh (aliases : Aliases) (limit : Limit) : (fresh aliases limit).Layered :=
  ⟨.nil, by simp [Balanced, fresh], by simp [fresh]⟩

/-- If the top of the stack lies outside of a scope, so does the whole stack. -/
theorem Layered.depth_le (h : Γ.Layered) {d : Nat}
    (hhead : ∀ e, Γ.stack.head? = some e → e.depth ≤ d) : ∀ e ∈ Γ.stack, e.depth ≤ d := by
  have hord := h.ordered
  cases hstack : Γ.stack with
  | nil => simp
  | cons top rest =>
    rw [hstack] at hhead hord
    have htop : top.depth ≤ d := hhead top rfl
    refine List.forall_mem_cons.2 ⟨htop, fun e he => ?_⟩
    exact Nat.le_trans (List.rel_of_pairwise_cons hord he) htop

/-- What is bound is bound at the present depth. -/
theorem Layered.push {T : Ty} (h : Γ.Layered) (hT : Γ.push T = .ok Γ') : Γ'.Layered := by
  obtain ⟨U, hU, rfl⟩ := push_eq_ok.1 hT
  have hset := (resolve_ok hU).2
  exact ⟨.cons h.balanced h.ordered, List.forall_mem_cons.2 ⟨Nat.le_refl _, h.balanced⟩,
    List.forall_mem_cons.2 ⟨⟨hset.wellFormed, hset.fits⟩, h.fits⟩⟩

/-- What is left was bound no deeper. -/
theorem Layered.pop (h : Γ.Layered) (hpop : Γ.pop = .ok Γ') : Γ'.Layered := by
  obtain ⟨e, es, hstack, rfl⟩ := pop_eq_ok.1 hpop
  obtain ⟨hord, hbal, hfits⟩ := h
  rw [Balanced, hstack] at hbal
  rw [hstack] at hord hfits
  exact ⟨hord.of_cons, (List.forall_mem_cons.1 hbal).2, (List.forall_mem_cons.1 hfits).2⟩

/-- A scope makes room for deeper variables. -/
theorem Layered.openScope (h : Γ.Layered) : Γ.openScope.Layered :=
  ⟨h.ordered, fun e he => Nat.le_succ_of_le (h.balanced e he), h.fits⟩

/-- A scope is closed only when nothing bound inside it is left. -/
theorem Layered.closeScope (h : Γ.Layered) (hclose : Γ.closeScope = .ok Γ') : Γ'.Layered := by
  obtain ⟨d, -, hhead, rfl⟩ := closeScope_eq_ok.1 hclose
  exact ⟨h.ordered, h.depth_le hhead, h.fits⟩

/-- What one call preserves. -/
theorem Layered.call (h : Γ.Layered) {c : Call} (hc : Γ.call c = .ok Γ') : Γ'.Layered := by
  cases c with
  | push T => exact h.push hc
  | pop => exact h.pop hc
  | openScope =>
    obtain rfl := Except.ok.inj hc
    exact h.openScope
  | closeScope => exact h.closeScope hc
  | define name ty =>
    obtain rfl := Except.ok.inj hc
    exact ⟨h.ordered, h.balanced, h.fits⟩

/-! ## one call -/

/-- Shifting the whole stack of types that are meant at the present depth gives the types that are
meant at another depth, if each single shift does. -/
theorem shiftAll_eager {Δ : Context} {amount : Int} (hstack : Δ.stack = Γ.stack)
    (h : ∀ e ∈ Γ.stack, (Γ.present e).shift Γ.limit.levels amount = .ok (Δ.present e)) :
    Γ.eager.shiftAll amount = .ok Δ.eager.types := by
  have htypes : List.Forall₂ (fun T U => (Γ.limit.run fun n => T.shift n amount) = .ok U)
      (Γ.stack.map Γ.present) (Γ.stack.map Δ.present) := by
    rw [List.forall₂_map_left_iff, List.forall₂_map_right_iff]
    exact List.forall₂_same.2 fun e he => mapError_eq_ok.2 (h e he)
  rw [Eager.shiftAll, eager, eager, hstack]
  exact mapM_eq_ok.2 htypes

/-- Where a scope is opened, the eager context lifts every type by one. -/
theorem Layered.shiftAll_openScope (h : Γ.Layered) :
    Γ.eager.shiftAll 1 = .ok Γ.openScope.eager.types := by
  refine shiftAll_eager rfl fun e he => ?_
  obtain ⟨hwf, hfits⟩ := h.fits e he
  have hdepth : e.depth ≤ Γ.depth := h.balanced e he
  have hone : (Γ.present e).lift 1 0 = Γ.openScope.present e := by
    have hsub : Γ.depth - e.depth + 1 = Γ.depth + 1 - e.depth := by omega
    rw [present, lift_lift (Nat.le_refl 0) (Nat.zero_le _), hsub]
    rfl
  rw [← hone]
  exact shift_of_fits (wellFormed_lift.2 hwf) (fits_lift.2 hfits) 1

/-- Where it is closed, every type is a lift and can be lowered. -/
theorem Layered.shiftAll_closeScope (h : Γ.Layered) {d : Nat} (hd : Γ.depth = d + 1)
    (hle : ∀ e ∈ Γ.stack, e.depth ≤ d) :
    Γ.eager.shiftAll (-1) = .ok (eager { Γ with depth := d }).types := by
  refine shiftAll_eager rfl fun e he => ?_
  obtain ⟨hwf, hfits⟩ := h.fits e he
  have hone : Γ.present e = (present { Γ with depth := d } e).lift 1 0 := by
    have hsub : Γ.depth - e.depth = d - e.depth + 1 := by
      have hdepth := hle e he
      omega
    rw [present, present, lift_lift (Nat.le_refl 0) (Nat.zero_le _), hsub]
  rw [hone]
  exact lower_of_fits (wellFormed_lift.2 hwf) (fits_lift.2 hfits)

theorem push_eager (T : Ty) : Γ.eager.call (.push T) = (Γ.push T).map eager := by
  have hresolve : (Γ.eager.limit.run fun n => T.resolve Γ.eager.aliases n) = Γ.resolve T := rfl
  rw [Eager.call, Context.push, hresolve]
  cases Γ.resolve T with
  | error e => rfl
  | ok U =>
    -- a type that was just pushed is meant at the present depth already
    have hpresent : Γ.present ⟨U, Γ.depth⟩ = U := by simp [present, lift_zero]
    exact congrArg (fun T => Except.ok { Γ.eager with
      types := T :: Γ.eager.types, pushedAt := Γ.depth :: Γ.eager.pushedAt }) hpresent.symm

theorem pop_eager : Γ.eager.call .pop = Γ.pop.map eager := by
  obtain ⟨stack, depth, aliases, limit⟩ := Γ
  cases stack <;> rfl

/-- Opening a scope does the same to both contexts. -/
theorem Layered.openScope_eager (h : Γ.Layered) :
    Γ.eager.call .openScope = .ok Γ.openScope.eager := by
  rw [Eager.call, h.shiftAll_openScope]
  rfl

/-- So does closing one, and it is refused by both for the same reason. -/
theorem Layered.closeScope_eager (h : Γ.Layered) :
    Γ.eager.call .closeScope = Γ.closeScope.map eager := by
  have hhead : Γ.eager.pushedAt.head? = Γ.stack.head?.map (·.depth) := by
    simp [eager, List.head?_map]
  have hdepth : Γ.eager.depth = Γ.depth := rfl
  rw [Eager.call, Context.closeScope, hhead, hdepth]
  cases hd : Γ.depth with
  | zero => rfl
  | succ d =>
    simp only [Option.any_map]
    by_cases hinside : Γ.stack.head?.any (d + 1 ≤ ·.depth) = true
    · rw [if_pos hinside, if_pos hinside]
      rfl
    · have hhead : ∀ e, Γ.stack.head? = some e → e.depth ≤ d := fun e he => by
        simpa [he, Nat.lt_succ_iff] using hinside
      rw [if_neg hinside, if_neg hinside, h.shiftAll_closeScope hd (h.depth_le hhead)]
      rfl

/-- A call on a context, and the same call on the context with its stack shifted, are refused for
the same reason or lead to the same types. -/
theorem call_eager (h : Γ.Layered) (c : Call) : Γ.eager.call c = (Γ.call c).map eager := by
  cases c with
  | push T => exact push_eager T
  | pop => exact pop_eager
  | openScope => exact h.openScope_eager
  | closeScope => exact h.closeScope_eager
  | define name ty => rfl

/-- The type that is lifted when it is looked up is the one that has been lifted all along. -/
theorem Layered.find_eager (h : Γ.Layered) (i : Int) : Γ.find i = .ok (Γ.eager.find i) := by
  have hentry : Γ.eager.find i = (Γ.entry? i).map Γ.present := by
    cases i with
    | ofNat i => simp [Eager.find, eager, entry?]
    | negSucc i => rfl
  rw [hentry]
  cases he : Γ.entry? i with
  | none => simp [find, he]
  | some e =>
    obtain ⟨hwf, hfits⟩ := h.fits e (mem_of_entry he)
    exact find_of_fits he (h.balanced e (mem_of_entry he)) hwf hfits

/-! ## every sequence of calls -/

/-- The answers to a sequence of calls are the same, and so are the types afterwards. -/
theorem Layered.replay_eager (h : Γ.Layered) (calls : List Call) :
    Call.replay Eager.call Γ.eager calls =
      ((Call.replay Context.call Γ calls).1, (Call.replay Context.call Γ calls).2.eager) := by
  induction calls generalizing Γ with
  | nil => rfl
  | cons c calls ih =>
    rw [Call.replay, Call.replay, call_eager h c]
    cases hc : Γ.call c with
    | error e => simp only [Except.map, ih h]
    | ok Γ' => simp only [Except.map, ih (h.call hc)]

/-- Every sequence of calls keeps the invariant. -/
theorem Layered.replay (h : Γ.Layered) (calls : List Call) :
    (Call.replay Context.call Γ calls).2.Layered := by
  induction calls generalizing Γ with
  | nil => exact h
  | cons c calls ih =>
    rw [Call.replay]
    cases hc : Γ.call c with
    | error e => exact ih h
    | ok Γ' => exact ih (h.call hc)

/-- Contexts that shift types when they are looked up, and contexts that shift the whole stack
whenever a scope is opened or closed, accept and refuse the same calls. Afterwards a look-up in the
first never fails, never shifts by a negative amount, and gives what stands on the stack of the
second. -/
theorem replay_refines (aliases : Aliases) (limit : Limit) (calls : List Call) :
    let lazy := Call.replay call (fresh aliases limit) calls
    let eager := Call.replay Eager.call (Eager.fresh aliases limit) calls
    lazy.1 = eager.1 ∧
      ∀ i, lazy.2.find i = .ok (eager.2.find i) ∧
        ∀ e, entry? lazy.2 i = some e → (0 : Int) ≤ lazy.2.depth - e.depth := by
  intro lazy eager
  have hfresh := layered_fresh aliases limit
  have hlazy : lazy.2.Layered := hfresh.replay calls
  have heager : eager = (lazy.1, lazy.2.eager) := hfresh.replay_eager calls
  rw [heager]
  refine ⟨rfl, fun i => ⟨hlazy.find_eager i, fun e he => ?_⟩⟩
  have hdepth : e.depth ≤ lazy.2.depth := hlazy.balanced e (mem_of_entry he)
  omega

end Context

end PolyLambda
