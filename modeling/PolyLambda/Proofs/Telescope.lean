import PolyLambda.Context
import PolyLambda.Proofs.Resolve

/-!
# PolyLambda.Proofs.Telescope

Contexts as the typing rules see them: the binders that are open, each term variable with the
type it was declared with. A context keeps such a type resolved, together with the depth it
was declared at, and lifts it only when it is asked for.

* `Telescope.lookup` lifts a declared type over the type scopes opened since.
* `Context.Represents` relates a context to the binders that are open.
* `Keeps.lookup`: a look-up in the context gives a type convertible with the declared one.
* `Context.Reaches` traces the operations by which a context came about, and
  `Reaches.represents` says that every such context represents the binders left open.
-/

namespace PolyLambda

open Ty

/-- A binder: a term variable of a declared type, or a scope of a type variable. -/
inductive Binding where
  | term (T : Ty)
  | scope

/-- The open binders, the innermost first. -/
abbrev Telescope := List Binding

namespace Telescope

/-- The type of a term variable: its declared type, lifted once for each type scope opened
since. -/
def lookup : Telescope → Nat → Option Ty
  | [], _ => none
  | .term T :: _, 0 => some T
  | .term _ :: Δ, i + 1 => lookup Δ i
  | .scope :: Δ, i => (lookup Δ i).map (·.lift 1 0)

/-- Binds term variables of these types one after another; the last becomes variable `0`. -/
def bind (Δ : Telescope) (Ts : List Ty) : Telescope :=
  Ts.foldl (fun Δ T => .term T :: Δ) Δ

/-- Takes away the innermost term variable, and leaves the scopes opened since. -/
def dropTerm : Telescope → Telescope
  | [] => []
  | .term _ :: Δ => Δ
  | .scope :: Δ => .scope :: dropTerm Δ

end Telescope

/-! ## what a context keeps -/

/-- A stack of entries at depth `d` keeps the types of the term variables of a telescope, up to
computation. -/
inductive Keeps (aliases : Aliases) : Nat → List Entry → Telescope → Prop where
  | nil : Keeps aliases 0 [] []
  | term {d : Nat} {es : List Entry} {Δ : Telescope} {T U : Ty} (hTU : Conv aliases T U)
      (h : Keeps aliases d es Δ) : Keeps aliases d (⟨U, d⟩ :: es) (.term T :: Δ)
  | scope {d : Nat} {es : List Entry} {Δ : Telescope} (h : Keeps aliases d es Δ) :
      Keeps aliases (d + 1) es (.scope :: Δ)

namespace Keeps

variable {aliases : Aliases} {d : Nat} {es : List Entry} {e : Entry} {Δ : Telescope}

/-- No entry is meant deeper than the present depth. -/
theorem depth_le (h : Keeps aliases d es Δ) : ∀ e ∈ es, e.depth ≤ d := by
  induction h with
  | nil => simp
  | term _ _ ih => simpa using ih
  | scope _ ih => exact fun e he => Nat.le_succ_of_le (ih e he)

/-- The stack has an entry for each term variable, and the entry, lifted to the present depth,
is convertible with the type the variable has. -/
theorem lookup (hcl : aliases.Closed) (h : Keeps aliases d es Δ) (i : Nat) :
    es[i]? = none ∧ Δ.lookup i = none ∨
      ∃ e T, es[i]? = some e ∧ Δ.lookup i = some T ∧ e.depth ≤ d ∧
        Conv aliases T (e.ty.lift (d - e.depth) 0) := by
  induction h generalizing i with
  | nil => exact .inl ⟨rfl, rfl⟩
  | @term d es Δ T U hTU _ ih =>
    cases i with
    | zero =>
      refine .inr ⟨⟨U, d⟩, T, rfl, rfl, Nat.le_refl d, ?_⟩
      rwa [Nat.sub_self, lift_zero]
    | succ i => exact ih i
  | @scope d es Δ _ ih =>
    obtain ⟨hes, hΔ⟩ | ⟨e, T, hes, hΔ, hd, hT⟩ := ih i
    · exact .inl ⟨hes, by simp [Telescope.lookup, hΔ]⟩
    · refine .inr ⟨e, T.lift 1 0, hes, by simp [Telescope.lookup, hΔ], Nat.le_succ_of_le hd, ?_⟩
      -- one more scope lifts the declared type, and widens the distance the entry is lifted by
      have hlift := hT.lift hcl 1 0
      rwa [lift_lift (Nat.le_refl 0) (Nat.zero_le _),
        show d - e.depth + 1 = d + 1 - e.depth by omega] at hlift

theorem drop (h : Keeps aliases d (e :: es) Δ) : Keeps aliases d es Δ.dropTerm := by
  generalize hs : e :: es = stack at h
  induction h with
  | nil => contradiction
  | term _ h _ =>
    obtain ⟨-, rfl⟩ := List.cons.inj hs
    exact h
  | scope _ ih => exact .scope (ih hs)

/-- A scope that holds no entry is the innermost binder. -/
theorem close (h : Keeps aliases (d + 1) es Δ) (hes : ∀ e, es.head? = some e → e.depth ≤ d) :
    Keeps aliases d es Δ.tail := by
  cases h with
  | term _ _ => exact absurd (hes _ rfl) (Nat.not_succ_le_self d)
  | scope h => exact h

end Keeps

namespace Context

variable {Γ Γ' : Context} {Δ : Telescope} {T U : Ty}

/-- The context after a term variable has been bound, its type being stored as it is. -/
def bindOne (Γ : Context) (U : Ty) : Context :=
  { Γ with stack := ⟨U, Γ.depth⟩ :: Γ.stack }

/-- The context after term variables have been bound one after another. -/
def bind (Γ : Context) (Us : List Ty) : Context :=
  Us.foldl bindOne Γ

/-- Resolving computes, and what it gives is settled. -/
theorem resolve_ok (h : Γ.resolve T = .ok U) :
    Steps Γ.aliases T U ∧ U.Settled Γ.aliases Γ.limit.levels :=
  Ty.resolve_ok (mapError_eq_ok.1 h)

/-- A settled type is resolved already. -/
theorem resolve_settled (h : T.Settled Γ.aliases Γ.limit.levels) : Γ.resolve T = .ok T := by
  rw [resolve, Limit.run, h.resolve_eq]
  rfl

/-- With well-formed definitions, resolving needs only levels. -/
theorem resolve_error {e : Fault} (hal : Γ.aliases.WellFormed) (hT : T.WellFormed)
    (h : Γ.resolve T = .error e) : e = Γ.limit.overrun none := by
  obtain ⟨d, hd, rfl⟩ := mapError_eq_error.1 h
  rw [Ty.resolve_error hal hT hd, Limit.fault]

/-- To bind a variable, its type is resolved first. -/
theorem push_eq_ok : Γ.push T = .ok Γ' ↔ ∃ U, Γ.resolve T = .ok U ∧ Γ.bindOne U = Γ' := by
  unfold push
  rw [bind_eq_ok]
  simp only [bindOne, pure, Except.pure, Except.ok.injEq]

/-- To unbind a variable, there has to be one. -/
theorem pop_eq_ok :
    Γ.pop = .ok Γ' ↔ ∃ e es, Γ.stack = e :: es ∧ { Γ with stack := es } = Γ' := by
  unfold pop
  split
  · next h => simp [h]
  · next e es h => simp [h]

/-- A scope is closed if there is one and the last variable bound is from outside it. -/
theorem closeScope_eq_ok :
    Γ.closeScope = .ok Γ' ↔
      ∃ d, Γ.depth = d + 1 ∧ (∀ e, Γ.stack.head? = some e → e.depth ≤ d) ∧
        { Γ with depth := d } = Γ' := by
  unfold closeScope
  split
  · next h => simp [h]
  next d h =>
  split
  · next hhead =>
    obtain ⟨e, he, hlt⟩ := (Option.any_eq_true _ _).1 hhead
    constructor
    · intro hok
      contradiction
    · rintro ⟨d', hd, hle, _⟩
      have hlt : d + 1 ≤ e.depth := of_decide_eq_true hlt
      have hle : e.depth ≤ d' := hle e he
      omega
  · next hhead =>
    constructor
    · intro hok
      refine ⟨d, h, fun e he => Nat.not_lt.1 fun hlt => hhead ?_, Except.ok.inj hok⟩
      exact (Option.any_eq_true _ _).2 ⟨e, he, decide_eq_true hlt⟩
    · rintro ⟨d', hd, _, hΓ'⟩
      obtain rfl : d = d' := Nat.succ.inj (h.symm.trans hd)
      rw [hΓ']

/-- A look-up lifts an entry to the present depth. -/
theorem find_ok {i : Int} {e : Entry} {r : Option Ty} (he : Γ.entry? i = some e)
    (hd : e.depth ≤ Γ.depth) (h : Γ.find i = .ok r) :
    r = some (e.ty.lift (Γ.depth - e.depth) 0) := by
  rw [find, he] at h
  by_cases heq : e.depth = Γ.depth
  · rw [heq, Nat.sub_self, lift_zero]
    simpa [heq, eq_comm] using h
  · simp only [heq, if_false] at h
    obtain ⟨U, hU, hr⟩ := bind_eq_ok.1 h
    rw [← Int.natCast_sub hd] at hU
    obtain ⟨-, -, rfl⟩ := shift_ok (mapError_eq_ok.1 hU)
    exact (Except.ok.inj hr).symm

/-- The look-up of a well-formed entry needs only levels. -/
theorem find_error {i : Int} {e : Entry} {f : Fault} (he : Γ.entry? i = some e)
    (hd : e.depth ≤ Γ.depth) (hwf : e.ty.WellFormed) (h : Γ.find i = .error f) :
    f = Γ.limit.overrun none := by
  rw [find, he] at h
  by_cases heq : e.depth = Γ.depth
  · simp [heq] at h
  · simp only [heq, if_false] at h
    obtain hU | ⟨U, -, hr⟩ := bind_eq_error.1 h
    · rw [← Int.natCast_sub hd] at hU
      obtain ⟨f', hf', rfl⟩ := mapError_eq_error.1 hU
      rw [shift_error hwf hf', Limit.fault]
    · contradiction

/-- A context that keeps the types of the term variables of a telescope. -/
def Represents (Γ : Context) (Δ : Telescope) : Prop :=
  Keeps Γ.aliases Γ.depth Γ.stack Δ

namespace Represents

/-- A bound variable is a term of the telescope, at any type convertible with the one stored. -/
theorem bindOne (h : Γ.Represents Δ) (hTU : Conv Γ.aliases T U) :
    (Γ.bindOne U).Represents (.term T :: Δ) :=
  .term hTU h

/-- An open scope is a scope of the telescope. -/
theorem openScope (h : Γ.Represents Δ) : Γ.openScope.Represents (.scope :: Δ) :=
  .scope h

end Represents

/-! ## contexts that can be reached -/

/-- The contexts over a table of aliases that operations lead to, and the binders they leave
open. -/
inductive Reaches (aliases : Aliases) : Context → Telescope → Prop where
  | fresh (limit : Limit) : Reaches aliases (fresh aliases limit) []
  | push {Γ Γ' : Context} {Δ : Telescope} {T : Ty} (h : Reaches aliases Γ Δ)
      (hpush : Γ.push T = .ok Γ') : Reaches aliases Γ' (.term T :: Δ)
  | pop {Γ Γ' : Context} {Δ : Telescope} (h : Reaches aliases Γ Δ) (hpop : Γ.pop = .ok Γ') :
      Reaches aliases Γ' Δ.dropTerm
  | openScope {Γ : Context} {Δ : Telescope} (h : Reaches aliases Γ Δ) :
      Reaches aliases Γ.openScope (.scope :: Δ)
  | closeScope {Γ Γ' : Context} {Δ : Telescope} (h : Reaches aliases Γ Δ)
      (hclose : Γ.closeScope = .ok Γ') : Reaches aliases Γ' Δ.tail

theorem Reaches.represents {aliases : Aliases} (h : Reaches aliases Γ Δ) :
    Γ.aliases = aliases ∧ Γ.Represents Δ := by
  induction h with
  | fresh limit => exact ⟨rfl, .nil⟩
  | push _ hpush ih =>
    obtain ⟨U, hU, rfl⟩ := push_eq_ok.1 hpush
    exact ⟨ih.1, ih.2.bindOne (.of_steps (resolve_ok hU).1)⟩
  | @pop Γ Γ' Δ _ hpop ih =>
    obtain ⟨hal, hΓ⟩ := ih
    obtain ⟨e, es, hstack, rfl⟩ := pop_eq_ok.1 hpop
    rw [Represents, hstack] at hΓ
    exact ⟨hal, hΓ.drop⟩
  | openScope _ ih => exact ⟨ih.1, ih.2.openScope⟩
  | @closeScope Γ Γ' Δ _ hclose ih =>
    obtain ⟨hal, hΓ⟩ := ih
    obtain ⟨d, hd, hhead, rfl⟩ := closeScope_eq_ok.1 hclose
    rw [Represents, hd] at hΓ
    exact ⟨hal, hΓ.close hhead⟩

end Context

end PolyLambda
