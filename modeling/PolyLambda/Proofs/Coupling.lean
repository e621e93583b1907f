import PolyLambda.Proofs.Safe

/-!
# PolyLambda.Proofs.Coupling

Two checks side by side. Many properties of the checker compare two runs: of one term under two
limits, of one term in two contexts, of two terms that differ in their spans only. All of them
go through the rules in the same way, and differ only in what is known of the operations that
the rules are made of. A `Coupling` says that, and the rules are gone through once.

* `Term.Alike` relates the terms that are checked: they differ only in their spans and in the
  types that are written in them.
* `Term.EveryType` says something of every type that is written in a term, and `Term.Place` lists
  its spans, so that the term is alike to itself.
* `Check.InStep` is the judgement on two computations: both give the same value, or the first
  fails in a way that is known. Contexts are left as they were, also by a failure. There is one
  rule for each way of putting computations together.
* `Coupling` lists what has to be known of look-ups, resolving, instantiating and lowering.
* `Coupling.rule_inStep` is the step from the parts of a term to the term.
-/

namespace PolyLambda

open Ty

/-! ## alike terms -/

/-- Terms of the same form, with the same labels, indices and patterns. Types that are written at
corresponding places are related by `A` at the type depth there, and spans by `S`. -/
inductive Term.Alike (A : Nat → Ty → Ty → Prop) (S : Option Span → Option Span → Prop) :
    Nat → Term → Term → Prop where
  | lit {d : Nat} {value : Literal} {s s' : Option Span} (hs : S s s') :
      Alike A S d (.lit value s) (.lit value s')
  | var {d : Nat} {i : Int} {s s' : Option Span} (hs : S s s') :
      Alike A S d (.var i s) (.var i s')
  | abs {d : Nat} {T T' : Ty} {body body' : Term} {s s' : Option Span} (hT : A d T T')
      (h : Alike A S d body body') (hs : S s s') :
      Alike A S d (.abs T body s) (.abs T' body' s')
  | app {d : Nat} {fn fn' arg arg' : Term} {s s' : Option Span} (hf : Alike A S d fn fn')
      (ha : Alike A S d arg arg') (hs : S s s') : Alike A S d (.app fn arg s) (.app fn' arg' s')
  | fix {d : Nat} {inner inner' : Term} {s s' : Option Span} (h : Alike A S d inner inner')
      (hs : S s s') : Alike A S d (.fix inner s) (.fix inner' s')
  | ite {d : Nat} {guard guard' yes yes' no no' : Term} {s s' : Option Span}
      (hg : Alike A S d guard guard') (hy : Alike A S d yes yes') (hn : Alike A S d no no')
      (hs : S s s') : Alike A S d (.ite guard yes no s) (.ite guard' yes' no' s')
  | inject {d : Nat} {label : String} {payload payload' : Term} {T T' : Ty} {s s' : Option Span}
      (h : Alike A S d payload payload') (hT : A d T T') (hs : S s s') :
      Alike A S d (.inject label payload T s) (.inject label payload' T' s')
  | proj {d : Nat} {inner inner' : Term} {i : Int} {s s' : Option Span}
      (h : Alike A S d inner inner') (hs : S s s') :
      Alike A S d (.proj inner i s) (.proj inner' i s')
  | tuple {d : Nat} {items items' : List Term} {s s' : Option Span}
      (hlen : items.length = items'.length)
      (h : ∀ t t', (t, t') ∈ items.zip items' → Alike A S d t t') (hs : S s s') :
      Alike A S d (.tuple items s) (.tuple items' s')
  | letIn {d : Nat} {bound bound' body body' : Term} {s s' : Option Span}
      (hb : Alike A S d bound bound') (h : Alike A S d body body') (hs : S s s') :
      Alike A S d (.letIn bound body s) (.letIn bound' body' s')
  | tyAbs {d : Nat} {body body' : Term} {s s' : Option Span} (h : Alike A S (d + 1) body body')
      (hs : S s s') : Alike A S d (.tyAbs body s) (.tyAbs body' s')
  | tyApp {d : Nat} {inner inner' : Term} {T T' : Ty} {s s' : Option Span}
      (h : Alike A S d inner inner') (hT : A d T T') (hs : S s s') :
      Alike A S d (.tyApp inner T s) (.tyApp inner' T' s')
  | roll {d : Nat} {T T' : Ty} {inner inner' : Term} {s s' : Option Span} (hT : A d T T')
      (h : Alike A S d inner inner') (hs : S s s') :
      Alike A S d (.roll T inner s) (.roll T' inner' s')
  | unroll {d : Nat} {T T' : Ty} {inner inner' : Term} {s s' : Option Span} (hT : A d T T')
      (h : Alike A S d inner inner') (hs : S s s') :
      Alike A S d (.unroll T inner s) (.unroll T' inner' s')
  | pack {d : Nat} {W W' T T' : Ty} {inner inner' : Term} {s s' : Option Span} (hW : A d W W')
      (h : Alike A S d inner inner') (hT : A d T T') (hs : S s s') :
      Alike A S d (.pack W inner T s) (.pack W' inner' T' s')
  | unpack {d : Nat} {package package' body body' : Term} {s s' : Option Span}
      (hp : Alike A S d package package') (h : Alike A S (d + 1) body body') (hs : S s s') :
      Alike A S d (.unpack package body s) (.unpack package' body' s')
  | caseOf {d : Nat} {scrutinee scrutinee' : Term} {arms arms' : List (Arm Term)}
      {s s' : Option Span} (h : Alike A S d scrutinee scrutinee')
      (ha : List.Forall₂ (fun a a' => a.pattern = a'.pattern ∧ S a.span a'.span) arms arms')
      (hb : ∀ a a', (a, a') ∈ arms.zip arms' → Alike A S d a.body a'.body) (hs : S s s') :
      Alike A S d (.caseOf scrutinee arms s) (.caseOf scrutinee' arms' s')

namespace Term

variable {A : Nat → Ty → Ty → Prop} {S : Option Span → Option Span → Prop} {d : Nat} {t t' : Term}

/-- Terms that are alike have related spans. -/
theorem Alike.span (h : t.Alike A S d t') : S t.span t'.span := by
  cases h <;> assumption

/-- A term that is alike to another is no hole. -/
theorem Alike.overrun_eq (h : t.Alike A S d t') {limit : Limit} :
    t.overrun limit = limit.overrun t.span := by
  cases h <;> rfl

/-- Terms with the same spans run out of levels at the same places. -/
theorem Alike.overrun_congr (h : t.Alike A Eq d t') (limit : Limit) :
    t'.overrun limit = t.overrun limit := by
  have hspan := h.span
  cases h <;> exact congrArg limit.overrun hspan.symm

theorem eq_of_mem_zip_self {α : Type} {xs : List α} {x y : α} (h : (x, y) ∈ xs.zip xs) :
    x = y ∧ x ∈ xs := by
  have hsame : List.Forall₂ (fun x y => x = y ∧ x ∈ xs) xs xs :=
    List.forall₂_same.2 fun x hx => ⟨rfl, hx⟩
  exact List.forall₂_zip hsame h

/-- Every type that is written in a term has `P` at the type depth of its place, which is one more
inside each type binder of the term. -/
inductive EveryType (P : Nat → Ty → Prop) : Nat → Term → Prop where
  | intro {d : Nat} {t : Term} (ht : ∀ T ∈ t.types, P d T)
      (hp : ∀ p ∈ t.parts, EveryType P (d + p.1) p.2) : EveryType P d t

/-- All types in a well-formed term are well formed, at every depth. -/
theorem WellFormed.everyType (h : t.WellFormed) : t.EveryType (fun _ T => T.WellFormed) d := by
  induction h generalizing d with
  | @intro t _ ht _ ih => exact ⟨ht, fun p hp => ih p.2 (List.mem_map_of_mem hp)⟩

/-- The spans at the top of a term: its own, and those of its arms if it is a case. -/
def marks : Term → List (Option Span)
  | .caseOf _ arms s => s :: arms.map (·.span)
  | t => [t.span]

theorem span_mem_marks (t : Term) : t.span ∈ t.marks := by
  cases t <;> simp [marks, span]

/-- The span of some node or arm of a term, which may be missing. -/
inductive Place (s : Option Span) : Term → Prop where
  | here {t : Term} (h : s ∈ t.marks) : Place s t
  | part {t u : Term} (hu : u ∈ t.subterms) (h : Place s u) : Place s t

/-- A term without holes is alike to itself, if the types in it and its spans are. -/
theorem EveryType.alike {P : Nat → Ty → Prop} (hA : ∀ d T, P d T → A d T T)
    (hS : ∀ s, t.Place s → S s s) (hwf : t.WellFormed) (h : t.EveryType P d) :
    t.Alike A S d t := by
  induction h with
  | @intro d t ht _ ih =>
    have hty : ∀ {T}, T ∈ t.types → A d T T := fun hT => hA d _ (ht _ hT)
    have hmark : ∀ {s}, s ∈ t.marks → S s s := fun hs => hS _ (.here hs)
    have hsub : ∀ {p}, p ∈ t.parts → p.2.Alike A S (d + p.1) p.2 := fun {p} hp => by
      have hmem : p.2 ∈ t.subterms := List.mem_map_of_mem hp
      exact ih p hp (fun s hs => hS s (.part hmem hs)) (hwf.part hmem)
    have hpart : ∀ {u}, (0, u) ∈ t.parts → u.Alike A S d u := fun hu => hsub hu
    have hscope : ∀ {u}, (1, u) ∈ t.parts → u.Alike A S (d + 1) u := fun hu => hsub hu
    have htop : S t.span t.span := hmark t.span_mem_marks
    cases t with
    | hole => exact absurd rfl hwf.ne_hole
    | lit value s => exact .lit htop
    | var i s => exact .var htop
    | abs T body s => exact .abs (hty (by simp)) (hpart (by simp)) htop
    | app fn arg s => exact .app (hpart (by simp)) (hpart (by simp)) htop
    | fix inner s => exact .fix (hpart (by simp)) htop
    | ite guard yes no s =>
      exact .ite (hpart (by simp)) (hpart (by simp)) (hpart (by simp)) htop
    | inject label payload T s => exact .inject (hpart (by simp)) (hty (by simp)) htop
    | proj inner i s => exact .proj (hpart (by simp)) htop
    | tuple items s =>
      refine .tuple rfl (fun u u' hu => ?_) htop
      obtain ⟨rfl, hmem⟩ := eq_of_mem_zip_self hu
      exact hpart (by simpa using hmem)
    | letIn bound body s => exact .letIn (hpart (by simp)) (hpart (by simp)) htop
    | tyAbs body s => exact .tyAbs (hscope (by simp)) htop
    | tyApp inner T s => exact .tyApp (hpart (by simp)) (hty (by simp)) htop
    | roll T inner s => exact .roll (hty (by simp)) (hpart (by simp)) htop
    | unroll T inner s => exact .unroll (hty (by simp)) (hpart (by simp)) htop
    | pack W inner T s => exact .pack (hty (by simp)) (hpart (by simp)) (hty (by simp)) htop
    | unpack package body s => exact .unpack (hpart (by simp)) (hscope (by simp)) htop
    | caseOf scrutinee arms s =>
      have hspans : List.Forall₂ (fun a a' : Arm Term => a.pattern = a'.pattern ∧ S a.span a'.span)
          arms arms := List.forall₂_same.2 fun a ha =>
        ⟨rfl, hmark (List.mem_cons_of_mem s (List.mem_map_of_mem ha))⟩
      refine .caseOf (hpart (by simp)) hspans (fun a a' ha => ?_) htop
      obtain ⟨rfl, hmem⟩ := eq_of_mem_zip_self ha
      exact hpart (by simpa using .inr ⟨a, hmem, rfl⟩)

/-- A well-formed term is alike to itself, if well-formed types and all spans are. -/
theorem WellFormed.alike (hA : ∀ d T, T.WellFormed → A d T T) (hS : ∀ s, S s s)
    (h : t.WellFormed) : t.Alike A S d t :=
  h.everyType.alike hA (fun s _ => hS s) h

end Term

/-- The same mistake, but for the place of an argument. -/
inductive Mistake.Alike (S : Option Span → Option Span → Prop) : Mistake → Mistake → Prop where
  | refl (m : Mistake) : Alike S m m
  | mismatch {T U : Ty} {s s' : Option Span} (h : S s s') :
      Alike S (.mismatch T U s) (.mismatch T U s')

theorem Mistake.Alike.eq {m m' : Mistake} (h : m.Alike Eq m') : m = m' := by
  cases h with
  | refl => rfl
  | mismatch h => rw [h]

/-! ## results side by side -/

/-- Two results are the same value with `P`, or the first is a failure, and `F` knows of it:
either alone, or together with the failure that the second one is. -/
inductive Matched (F : Fault → Option Fault → Prop) (r r' : Except Fault α) (P : α → Prop) :
    Prop where
  | ok {a : α} (h : r = .ok a) (h' : r' = .ok a) (ha : P a)
  | stop {e : Fault} (h : r = .error e) (he : F e none)
  | error {e e' : Fault} (h : r = .error e) (h' : r' = .error e') (he : F e (some e'))

/-- A result beside itself. -/
theorem Matched.same {F : Fault → Option Fault → Prop} {r : Except Fault α} {P : α → Prop}
    (hok : ∀ a, r = .ok a → P a) (herr : ∀ e, r = .error e → F e (some e)) :
    Matched F r r P := by
  cases h : r with
  | ok a => exact .ok rfl rfl (hok a h)
  | error e => exact .error rfl rfl (herr e h)

/-- What is said of the common value may be weakened. -/
theorem Matched.mono {F : Fault → Option Fault → Prop} {r r' : Except Fault α} {P Q : α → Prop}
    (h : Matched F r r' P) (hPQ : ∀ a, P a → Q a) : Matched F r r' Q := by
  cases h with
  | ok h h' ha => exact .ok h h' (hPQ _ ha)
  | stop h he => exact .stop h he
  | error h h' he => exact .error h h' he

/-- Questions that depend on the value of others. -/
theorem Matched.bind {F : Fault → Option Fault → Prop} {r r' : Except Fault α}
    {f g : α → Except Fault β} {P : α → Prop} {Q : β → Prop} (h : Matched F r r' P)
    (hf : ∀ a, P a → Matched F (f a) (g a) Q) : Matched F (r >>= f) (r' >>= g) Q := by
  cases h with
  | ok h h' ha =>
    rw [h, h']
    exact hf _ ha
  | stop h he =>
    rw [h]
    exact .stop rfl he
  | error h h' he =>
    rw [h, h']
    exact .error rfl rfl he

namespace Check

/-- Two computations give the same value with `P`, or the first fails, and `F` knows of it: either
alone, or together with a failure of the second. Contexts are left as they were. -/
inductive InStep (F : Fault → Option Fault → Prop) (x y : Check α) (Γ Γ' : Context)
    (P : α → Prop) : Prop where
  | ok {a : α} {log log' : List Event} (h : x.run Γ = ⟨.ok a, Γ, log⟩)
      (h' : y.run Γ' = ⟨.ok a, Γ', log'⟩) (ha : P a)
  | stop {e : Fault} {log : List Event} (h : x.run Γ = ⟨.error e, Γ, log⟩) (he : F e none)
  | error {e e' : Fault} {log log' : List Event} (h : x.run Γ = ⟨.error e, Γ, log⟩)
      (h' : y.run Γ' = ⟨.error e', Γ', log'⟩) (he : F e (some e'))

/-- A computation between a change of the context and a change back ends as it does itself. -/
theorem run_between {x : Check α} {first last : Check Unit} {Γ Δ : Context} {r : Except Fault α}
    {log log₁ log₂ : List Event} (hfirst : first.run Γ = ⟨.ok (), Δ, log₁⟩)
    (hx : x.run Δ = ⟨r, Δ, log⟩) (hlast : last.run Δ = ⟨.ok (), Γ, log₂⟩) :
    (first >>= fun _ => ensuring x last).run Γ = ⟨r, Γ, log₁ ++ (log ++ log₂)⟩ := by
  have hend : (ensuring x last).run Δ = ⟨r, Γ, log ++ log₂⟩ := by
    simp only [ensuring, hx, hlast]
  rw [run_bind_of_ok hfirst, hend]

namespace InStep

variable {α β : Type} {F : Fault → Option Fault → Prop} {x y : Check α} {f g : α → Check β}
  {Γ Γ' Δ Δ' : Context} {P P' : α → Prop} {Q : β → Prop}

/-! ## sequences -/

theorem pure {a : α} (ha : P a) : InStep F (pure a) (pure a) Γ Γ' P :=
  .ok rfl rfl ha

theorem fail {e e' : Fault} (he : F e (some e')) : InStep F (fail e) (fail e') Γ Γ' P :=
  .error rfl rfl he

theorem mono (hx : InStep F x y Γ Γ' P) (hP : ∀ a, P a → P' a) : InStep F x y Γ Γ' P' := by
  cases hx with
  | ok h h' ha => exact .ok h h' (hP _ ha)
  | stop h he => exact .stop h he
  | error h h' he => exact .error h h' he

/-- One computation after another, on both sides. -/
theorem bind (hx : InStep F x y Γ Γ' P) (hf : ∀ a, P a → InStep F (f a) (g a) Γ Γ' Q) :
    InStep F (x >>= f) (y >>= g) Γ Γ' Q := by
  cases hx with
  | stop h he => exact .stop (run_bind_of_error h f) he
  | error h h' he => exact .error (run_bind_of_error h f) (run_bind_of_error h' g) he
  | ok h h' ha =>
    cases hf _ ha with
    | stop k he => exact .stop (by rw [run_bind_of_ok h, k]) he
    | error k k' he =>
      exact .error (by rw [run_bind_of_ok h, k]) (by rw [run_bind_of_ok h', k']) he
    | ok k k' hb => exact .ok (by rw [run_bind_of_ok h, k]) (by rw [run_bind_of_ok h', k']) hb

/-- A question to the context on each side. -/
theorem ask {q q' : Context → Except Fault α} (h : Matched F (q Γ) (q' Γ') P) :
    InStep F (ask q) (ask q') Γ Γ' P := by
  have hrun : (Check.ask q).run Γ = ⟨q Γ, Γ, []⟩ := rfl
  have hrun' : (Check.ask q').run Γ' = ⟨q' Γ', Γ', []⟩ := rfl
  cases h with
  | ok h h' ha => exact .ok (hrun.trans (by rw [h])) (hrun'.trans (by rw [h'])) ha
  | stop h he => exact .stop (hrun.trans (by rw [h])) he
  | error h h' he => exact .error (hrun.trans (by rw [h])) (hrun'.trans (by rw [h'])) he

theorem ofExcept {r r' : Except Fault α} (h : Matched F r r' P) :
    InStep F (ofExcept r) (ofExcept r') Γ Γ' P := by
  have hask : InStep F (Check.ask fun _ => r) (Check.ask fun _ => r') Γ Γ' P := ask h
  exact hask

/-! ## binders -/

/-- A computation between a change of the context and a change back, on both sides. -/
theorem between {first first' last last' : Check Unit} {log₁ log₂ log₁' log₂' : List Event}
    (hfirst : first.run Γ = ⟨.ok (), Δ, log₁⟩) (hlast : last.run Δ = ⟨.ok (), Γ, log₂⟩)
    (hfirst' : first'.run Γ' = ⟨.ok (), Δ', log₁'⟩)
    (hlast' : last'.run Δ' = ⟨.ok (), Γ', log₂'⟩) (hx : InStep F x y Δ Δ' P) :
    InStep F (first >>= fun _ => ensuring x last) (first' >>= fun _ => ensuring y last')
      Γ Γ' P := by
  cases hx with
  | ok h h' ha =>
    exact .ok (run_between hfirst h hlast) (run_between hfirst' h' hlast') ha
  | stop h he => exact .stop (run_between hfirst h hlast) he
  | error h h' he =>
    exact .error (run_between hfirst h hlast) (run_between hfirst' h' hlast') he

/-- Variables are bound around both computations, if their types resolve on both sides. -/
theorem binding {Ts Us Us' : List Ty}
    (h : List.Forall₂ (fun T U => Γ.resolve T = .ok U) Ts Us)
    (h' : List.Forall₂ (fun T U => Γ'.resolve T = .ok U) Ts Us')
    (hx : InStep F x y (Γ.bind Us) (Γ'.bind Us') P) :
    InStep F (binding Ts x) (binding Ts y) Γ Γ' P :=
  between (run_pushAll h) (run_popAll_bind h.length_eq) (run_pushAll h')
    (run_popAll_bind h'.length_eq) hx

/-- A single variable is bound around both computations, as far as its type resolves. -/
theorem binding_one {T : Ty} {R : Ty → Prop} (hT : Matched F (Γ.resolve T) (Γ'.resolve T) R)
    (hx : ∀ U, R U → InStep F x y (Γ.bindOne U) (Γ'.bindOne U) P) :
    InStep F (Check.binding [T] x) (Check.binding [T] y) Γ Γ' P := by
  cases hT with
  | @ok U h h' hU => exact binding (.cons h .nil) (.cons h' .nil) (hx U hU)
  | stop h he => exact .stop (run_binding_of_error h x) he
  | error h h' he => exact .error (run_binding_of_error h x) (run_binding_of_error h' y) he

/-- A computation inside a type scope, on both sides. -/
theorem inScope (hΓ : Γ.Balanced) (hΓ' : Γ'.Balanced)
    (hx : InStep F x y Γ.openScope Γ'.openScope P) :
    InStep F (inScope x) (inScope y) Γ Γ' P :=
  between (run_modify_of_ok rfl) (run_modify_of_ok (closeScope_openScope hΓ))
    (run_modify_of_ok rfl) (run_modify_of_ok (closeScope_openScope hΓ')) hx

/-! ## several parts -/

/-- A computation for each of two lists that correspond. -/
theorem mapM {xs ys : List α} (h : List.Forall₂ (fun a b => InStep F (f a) (g b) Γ Γ' Q) xs ys) :
    InStep F (xs.mapM f) (ys.mapM g) Γ Γ' fun bs => ∀ b ∈ bs, Q b := by
  induction h with
  | nil => exact .pure (by simp)
  | cons hab _ ih =>
    rw [List.mapM_cons, List.mapM_cons]
    refine hab.bind fun b hb => ?_
    refine ih.bind fun bs hbs => ?_
    exact .pure (List.forall_mem_cons.2 ⟨hb, hbs⟩)

theorem forM {f g : α → Check Unit} {xs ys : List α}
    (h : List.Forall₂ (fun a b => InStep F (f a) (g b) Γ Γ' fun _ => True) xs ys) :
    InStep F (xs.forM f) (ys.forM g) Γ Γ' fun _ => True := by
  induction h with
  | nil => exact .pure trivial
  | @cons a b xs ys hab _ ih =>
    have hf : (a :: xs).forM f = f a >>= fun _ => xs.forM f := rfl
    have hg : (b :: ys).forM g = g b >>= fun _ => ys.forM g := rfl
    rw [hf, hg]
    exact hab.bind fun _ _ => ih

end InStep

end Check

/-! ## operations of the rules -/

/-- The type of a variable, which has to be bound. -/
def Context.lookUp (Γ : Context) (i : Int) (span : Option Span) : Except Fault Ty := do
  match ← Γ.find i with
  | some T => .ok T
  | none => .error (.type ⟨.unbound i, span⟩)

/-- The instance of a binder, resolved. -/
def Context.instantiate (Γ : Context) (limit : Limit) (body A : Ty) : Except Fault Ty := do
  Γ.resolve (← limit.run fun n => body.instantiate n A)

/-- The type outside a scope of a type that is meant inside it and may not mention the variable
of the scope. -/
def Limit.lower (limit : Limit) (B : Ty) (span : Option Span) : Except Fault Ty := do
  if ← limit.run fun n => B.occurs n 0 then
    .error (.type ⟨.escape B, span⟩)
  else
    limit.run fun n => B.shift n (-1)

/-- A look-up in a good context gives an inferred type. -/
theorem Context.Good.lookUp_inferred {Γ : Context} (h : Γ.Good) {i : Int} {span : Option Span}
    {T : Ty} (hT : Γ.lookUp i span = .ok T) : T.Inferred Γ.aliases Γ.limit.levels := by
  obtain ⟨r, hr, hT⟩ := bind_eq_ok.1 hT
  cases r with
  | none => contradiction
  | some U =>
    obtain rfl := Except.ok.inj hT
    exact h.find_inferred hr

/-- An instance is settled, since it is resolved last. -/
theorem Context.instantiate_settled {Γ : Context} {limit : Limit} {body A U : Ty}
    (h : Γ.instantiate limit body A = .ok U) : U.Settled Γ.aliases Γ.limit.levels := by
  obtain ⟨V, -, hU⟩ := bind_eq_ok.1 h
  exact (resolve_ok hU).2

/-- A type that can be lowered is the lift of what it is lowered to. -/
theorem Limit.lower_ok {limit : Limit} {B U : Ty} {span : Option Span}
    (h : limit.lower B span = .ok U) : B = U.lift 1 0 := by
  obtain ⟨b, hb, hU⟩ := bind_eq_ok.1 h
  have havoids := occurs_ok (mapError_eq_ok.1 hb)
  cases b with
  | true => contradiction
  | false =>
    have hB : B.Avoids := by simpa using havoids
    exact (Ty.lower_ok hB (mapError_eq_ok.1 hU)).2.2

namespace Check

/-- Two questions to a context, one after the other, are one question. -/
theorem ask_bind_ask {α β : Type} (q : Context → Except Fault α)
    (r : α → Context → Except Fault β) :
    (ask q >>= fun a => ask (r a)) = ask fun Γ => q Γ >>= fun a => r a Γ := by
  ext1
  funext Γ
  have hrun : (ask q).run Γ = ⟨q Γ, Γ, []⟩ := rfl
  cases h : q Γ with
  | error e =>
    rw [h] at hrun
    rw [run_bind_of_error hrun]
    simp [ask, h, bind, Except.bind]
  | ok a =>
    rw [h] at hrun
    rw [run_bind_of_ok hrun]
    simp [ask, h, bind, Except.bind]

/-- The rule for variables is one question to the context. -/
theorem rule_var_eq (limit : Limit) (infer : Term → Check Ty) (i : Int) (span : Option Span) :
    rule limit infer (.var i span) = ask (·.lookUp i span) := by
  ext1
  funext Γ
  have hrun : (ask (·.find i)).run Γ = ⟨Γ.find i, Γ, []⟩ := rfl
  have hask : (ask (·.lookUp i span)).run Γ = ⟨Γ.lookUp i span, Γ, []⟩ := rfl
  rw [hask, Context.lookUp]
  cases h : Γ.find i with
  | error e =>
    rw [h] at hrun
    exact run_bind_of_error hrun _
  | ok r =>
    rw [h] at hrun
    refine (run_bind_of_ok hrun _).trans ?_
    cases r <;> rfl

/-- So is an instantiation, with the resolution that follows it. -/
theorem instantiate_eq (limit : Limit) (body A : Ty) :
    instantiate limit body A = ask (·.instantiate limit body A) :=
  ask_bind_ask _ _

/-- Lowering does not even look at the context. -/
theorem lower_eq (limit : Limit) (B : Ty) (span : Option Span) :
    lower limit B span = ofExcept (limit.lower B span) := by
  have hanswer : ∀ b : Bool, (if b = true then reject (.escape B) span
      else ofExcept (limit.run fun n => B.shift n (-1))) =
      ask fun _ => if b = true then .error (.type ⟨.escape B, span⟩)
        else limit.run fun n => B.shift n (-1) := by
    intro b
    cases b <;> rfl
  exact (congrArg (ofExcept _ >>= ·) (funext hanswer)).trans (ask_bind_ask _ _)

end Check

/-- A shape that a rule may put on top of types: a base type, a product, an arrow or a binder. -/
def Shape.Plain : Shape → Prop
  | .base _ | .product _ | .arrow | .binder _ => True
  | _ => False

/-- Such a node on top of inferred types gives an inferred type. -/
theorem Ty.Inferred.plain {aliases : Aliases} {n : Nat} {T : Ty} (hs : T.shape.Plain)
    (hc : ∀ A ∈ T.children, A.Inferred aliases n) : T.Inferred aliases n := by
  have hshape : ∀ s : Shape, s.Plain → s.Proper ∧ (∀ name, s ≠ .named name) ∧ s ≠ .app ∧
      ∀ labels, s ≠ .variant labels := by
    intro s hs
    cases s <;> simp_all [Shape.Plain, Shape.Proper, Shape.Distinct]
  obtain ⟨hproper, hnamed, happ, hvariant⟩ := hshape T.shape hs
  exact .node hproper hnamed happ hvariant hc

/-! ## couplings -/

/-- Two settings in which terms are checked side by side, under the limits `l` and `l'`: which
contexts belong together, what is known at a depth of the types that both checks give, which
types may be written at corresponding places, and which spans may stand there. `Fails e none`
lets the first check fail with `e` whatever the second does; `Fails e (some e')` lets them fail
together. -/
structure Coupling (l l' : Limit) where
  Contexts : Context → Context → Prop
  Types : Nat → Ty → Prop
  Written : Nat → Ty → Ty → Prop
  Spans : Option Span → Option Span → Prop
  Fails : Fault → Option Fault → Prop
  good {Γ Γ'} : Contexts Γ Γ' → Γ.Good ∧ Γ'.Good
  openScope {Γ Γ'} : Contexts Γ Γ' → Contexts Γ.openScope Γ'.openScope
  push {Γ Γ' T} : Contexts Γ Γ' → Types Γ.depth T →
    Matched Fails (Γ.resolve T) (Γ'.resolve T) fun U => Contexts (Γ.bindOne U) (Γ'.bindOne U)
  inferred {Γ Γ' T} : Contexts Γ Γ' → Types Γ.depth T →
    T.Inferred Γ.aliases Γ.limit.levels ∧ T.Inferred Γ'.aliases Γ'.limit.levels
  node {d T} : T.shape.Plain → (∀ A ∈ T.children, Types (d + T.shape.binds) A) → Types d T
  child {d T A} : Types d T → A ∈ T.children → Types (d + T.shape.binds) A
  lookUp {Γ Γ' i s s'} : Contexts Γ Γ' → Spans s s' →
    Matched Fails (Γ.lookUp i s) (Γ'.lookUp i s') (Types Γ.depth)
  resolve {Γ Γ' T T'} : Contexts Γ Γ' → Written Γ.depth T T' →
    Matched Fails (Γ.resolve T) (Γ'.resolve T') (Types Γ.depth)
  instantiate {Γ Γ' body A} : Contexts Γ Γ' → Types (Γ.depth + 1) body → Types Γ.depth A →
    Matched Fails (Γ.instantiate l body A) (Γ'.instantiate l' body A) (Types Γ.depth)
  lower {d B s s'} : Types (d + 1) B → Spans s s' →
    Matched Fails (l.lower B s) (l'.lower B s') (Types d)
  mistake {m m' s s'} : Mistake.Alike Spans m m' → Spans s s' →
    Fails (.type ⟨m, s⟩) (some (.type ⟨m', s'⟩))
  orElse {s s' r r'} : Spans s s' → Spans r r' → Spans (s <|> r) (s' <|> r')

namespace Coupling

open Check

theorem orElse_congr {s s' r r' : Option Span} (hs : s = s') (hr : r = r') :
    (s <|> r) = (s' <|> r') := by
  rw [hs, hr]

variable {l l' : Limit} {K : Coupling l l'} {infer infer' : Term → Check Ty} {Γ Γ' : Context}
  {d : Nat} {t t' : Term} {s s' : Option Span} {T : Ty}

/-- The terms that are checked side by side in contexts of some depth. -/
abbrev Terms (K : Coupling l l') (d : Nat) (t t' : Term) : Prop :=
  t.Alike K.Written K.Spans d t'

/-- Two computations of types, side by side. -/
abbrev Runs (K : Coupling l l') (x y : Check Ty) (Γ Γ' : Context) : Prop :=
  InStep K.Fails x y Γ Γ' (K.Types Γ.depth)

/-- What the rules may assume of the functions for the parts. -/
abbrev Parts (K : Coupling l l') (infer infer' : Term → Check Ty) : Prop :=
  ∀ {Γ Γ' : Context} {t t' : Term}, K.Contexts Γ Γ' → K.Terms Γ.depth t t' →
    K.Runs (infer t) (infer' t') Γ Γ'

/-- Both sides may find mistakes that are alike. -/
theorem reject {α : Type} {P : α → Prop} {m m' : Mistake} (hm : m.Alike K.Spans m')
    (hs : K.Spans s s') :
    InStep K.Fails (Check.reject m s) (Check.reject m' s') Γ Γ' P :=
  .fail (K.mistake hm hs)

/-- The types that are compared are the same on both sides; only places may differ. -/
theorem expect {expected actual : Ty} {part part' whole whole' : Term}
    (hp : K.Spans part.span part'.span) (hw : K.Spans whole.span whole'.span) :
    InStep K.Fails (Check.expect expected actual part whole)
      (Check.expect expected actual part' whole') Γ Γ' fun _ => actual = expected := by
  unfold Check.expect
  by_cases h : actual = expected
  · rw [if_pos h, if_pos h]
    exact .pure h
  · rw [if_neg h, if_neg h]
    exact K.reject (.mismatch hp) hw

/-- A type that both checks gave is bound around both. -/
theorem binding_one {α : Type} {P : α → Prop} {x y : Check α} (h : K.Contexts Γ Γ')
    (hT : K.Types Γ.depth T)
    (hx : ∀ U, K.Contexts (Γ.bindOne U) (Γ'.bindOne U) →
      InStep K.Fails x y (Γ.bindOne U) (Γ'.bindOne U) P) :
    InStep K.Fails (binding [T] x) (binding [T] y) Γ Γ' P :=
  .binding_one (K.push h hT) hx

theorem inScope {α : Type} {P : α → Prop} {x y : Check α} (h : K.Contexts Γ Γ')
    (hx : InStep K.Fails x y Γ.openScope Γ'.openScope P) :
    InStep K.Fails (inScope x) (inScope y) Γ Γ' P :=
  .inScope (K.good h).1.balanced (K.good h).2.balanced hx

theorem binder {b : Binder} (h : K.Types (d + 1) T) : K.Types d (.binder b T) :=
  K.node trivial (by simpa [children, shape, Shape.binds] using h)

/-- The body of a binder is a type one scope further in. -/
theorem body {b : Binder} (h : K.Types d (.binder b T)) : K.Types (d + 1) T :=
  K.child h (by simp [children])

theorem arrow {A B : Ty} (hA : K.Types d A) (hB : K.Types d B) : K.Types d (.arrow A B) :=
  K.node trivial (by simpa [children] using ⟨hA, hB⟩)

/-- Instances of types that both sides have are again types that both have. -/
theorem runs_instantiate {body A : Ty} (h : K.Contexts Γ Γ') (hb : K.Types (Γ.depth + 1) body)
    (hA : K.Types Γ.depth A) :
    K.Runs (Check.instantiate l body A) (Check.instantiate l' body A) Γ Γ' := by
  rw [instantiate_eq, instantiate_eq]
  exact .ask (K.instantiate h hb hA)

/-! ## one step of two checks -/

/-- The written types of the parameter may differ, but not what they resolve to. -/
theorem rule_abs {P P' : Ty} {body body' : Term} (ih : K.Parts infer infer')
    (h : K.Contexts Γ Γ') (hP : K.Written Γ.depth P P') (hb : K.Terms Γ.depth body body') :
    K.Runs (rule l infer (.abs P body s)) (rule l' infer' (.abs P' body' s')) Γ Γ' := by
  refine .bind (.ask (K.resolve h hP)) fun A hA => ?_
  refine .bind (P := K.Types Γ.depth) ?_ fun B hB => .pure (K.arrow hA hB)
  exact K.binding_one h hA fun U hU => ih hU hb

/-- Both sides see the same function type, hence the same domain and codomain. -/
theorem rule_app {fn fn' arg arg' : Term} (ih : K.Parts infer infer') (h : K.Contexts Γ Γ')
    (hf : K.Terms Γ.depth fn fn') (ha : K.Terms Γ.depth arg arg') (hs : K.Spans s s') :
    K.Runs (rule l infer (.app fn arg s)) (rule l' infer' (.app fn' arg' s')) Γ Γ' := by
  refine (ih h hf).bind fun F hF => ?_
  refine (ih h ha).bind fun A _ => ?_
  cases F with
  | arrow dom cod =>
    refine .bind (K.expect ha.span hs) fun _ _ => ?_
    exact .pure (K.child hF (by simp [children]))
  | _ => exact K.reject (.refl _) hs

theorem rule_fix {inner inner' : Term} (ih : K.Parts infer infer') (h : K.Contexts Γ Γ')
    (hi : K.Terms Γ.depth inner inner') (hs : K.Spans s s') :
    K.Runs (rule l infer (.fix inner s)) (rule l' infer' (.fix inner' s')) Γ Γ' := by
  refine (ih h hi).bind fun F hF => ?_
  cases F with
  | arrow dom cod =>
    refine .bind (K.expect hi.span hs) fun _ _ => ?_
    exact .pure (K.child hF (by simp [children]))
  | _ => exact K.reject (.refl _) hs

/-- Both sides see the same types of guard and branches, so they refuse for the same reason. -/
theorem rule_ite {guard guard' yes yes' no no' : Term} (ih : K.Parts infer infer')
    (h : K.Contexts Γ Γ') (hg : K.Terms Γ.depth guard guard') (hy : K.Terms Γ.depth yes yes')
    (hn : K.Terms Γ.depth no no') (hs : K.Spans s s') :
    K.Runs (rule l infer (.ite guard yes no s)) (rule l' infer' (.ite guard' yes' no' s'))
      Γ Γ' := by
  refine (ih h hg).bind fun G _ => ?_
  by_cases hG : G = .bool
  · rw [if_pos hG, if_pos hG]
    refine (ih h hy).bind fun A hA => ?_
    refine (ih h hn).bind fun B _ => ?_
    by_cases hAB : A = B
    · rw [if_pos hAB, if_pos hAB]
      exact .pure hA
    · rw [if_neg hAB, if_neg hAB]
      exact K.reject (.refl _) hs
  · rw [if_neg hG, if_neg hG]
    exact K.reject (.refl _) (K.orElse hg.span hs)

/-- The annotations resolve to the same variant. -/
theorem rule_inject {label : String} {payload payload' : Term} {V V' : Ty}
    (ih : K.Parts infer infer') (h : K.Contexts Γ Γ') (hp : K.Terms Γ.depth payload payload')
    (hV : K.Written Γ.depth V V') (hs : K.Spans s s') :
    K.Runs (rule l infer (.inject label payload V s))
      (rule l' infer' (.inject label payload' V' s')) Γ Γ' := by
  refine .bind (.ask (K.resolve h hV)) fun W hW => ?_
  cases W with
  | variant fields =>
    cases hl : field? fields label with
    | some T =>
      simp only [hl]
      refine (ih h hp).bind fun A _ => ?_
      refine .bind (K.expect hp.span hs) fun _ _ => ?_
      exact .pure hW
    | none =>
      simp only [hl]
      exact K.reject (.refl _) hs
  | _ => exact K.reject (.refl _) hs

/-- Both sides see the same product. -/
theorem rule_proj {inner inner' : Term} {i : Int} (ih : K.Parts infer infer')
    (h : K.Contexts Γ Γ') (hi : K.Terms Γ.depth inner inner') (hs : K.Spans s s') :
    K.Runs (rule l infer (.proj inner i s)) (rule l' infer' (.proj inner' i s')) Γ Γ' := by
  refine (ih h hi).bind fun F hF => ?_
  cases F with
  | product Ts =>
    cases hT : item? Ts i with
    | some T =>
      simp only [hT]
      exact .pure (K.child hF (mem_of_item hT))
    | none =>
      simp only [hT]
      exact K.reject (.refl _) hs
  | _ => exact K.reject (.refl _) hs

/-- The components are checked in the same order. -/
theorem rule_tuple {items items' : List Term} (ih : K.Parts infer infer') (h : K.Contexts Γ Γ')
    (hlen : items.length = items'.length)
    (ht : ∀ t t', (t, t') ∈ items.zip items' → K.Terms Γ.depth t t') :
    K.Runs (rule l infer (.tuple items s)) (rule l' infer' (.tuple items' s')) Γ Γ' := by
  have hitems : List.Forall₂ (fun t t' => K.Runs (infer t) (infer' t') Γ Γ') items items' :=
    List.forall₂_iff_zip.2 ⟨hlen, fun {t t'} hmem => ih h (ht t t' hmem)⟩
  exact (InStep.mapM hitems).bind fun Ts hTs => .pure (K.node trivial hTs)

/-- The body is checked with the same type bound. -/
theorem rule_letIn {bound bound' body body' : Term} (ih : K.Parts infer infer')
    (h : K.Contexts Γ Γ') (hb : K.Terms Γ.depth bound bound')
    (hbody : K.Terms Γ.depth body body') :
    K.Runs (rule l infer (.letIn bound body s)) (rule l' infer' (.letIn bound' body' s')) Γ Γ' := by
  refine (ih h hb).bind fun A hA => ?_
  exact K.binding_one h hA fun U hU => ih hU hbody

/-- The body is checked one scope further in. -/
theorem rule_tyAbs {body body' : Term} (ih : K.Parts infer infer') (h : K.Contexts Γ Γ')
    (hb : K.Terms (Γ.depth + 1) body body') :
    K.Runs (rule l infer (.tyAbs body s)) (rule l' infer' (.tyAbs body' s')) Γ Γ' := by
  refine .bind (P := K.Types (Γ.depth + 1)) ?_ fun B hB => .pure (K.binder hB)
  exact K.inScope h (ih (K.openScope h) hb)

/-- The instance is taken of the same body, at what both arguments resolve to. -/
theorem rule_tyApp {inner inner' : Term} {A A' : Ty} (ih : K.Parts infer infer')
    (h : K.Contexts Γ Γ') (hi : K.Terms Γ.depth inner inner') (hA : K.Written Γ.depth A A')
    (hs : K.Spans s s') :
    K.Runs (rule l infer (.tyApp inner A s)) (rule l' infer' (.tyApp inner' A' s')) Γ Γ' := by
  refine .bind (.ask (K.resolve h hA)) fun B hB => ?_
  refine (ih h hi).bind fun F hF => ?_
  cases F with
  | binder b body =>
    cases b with
    | all => exact K.runs_instantiate h (K.body hF) hB
    | _ => exact K.reject (.refl _) hs
  | _ => exact K.reject (.refl _) hs

/-- The recursive type is the same once it is resolved. -/
theorem rule_roll {R R' : Ty} {inner inner' : Term} (ih : K.Parts infer infer')
    (h : K.Contexts Γ Γ') (hR : K.Written Γ.depth R R') (hi : K.Terms Γ.depth inner inner')
    (hs : K.Spans s s') :
    K.Runs (rule l infer (.roll R inner s)) (rule l' infer' (.roll R' inner' s')) Γ Γ' := by
  refine .bind (.ask (K.resolve h hR)) fun M hM => ?_
  cases M with
  | binder b body =>
    cases b with
    | mu =>
      refine (K.runs_instantiate h (K.body hM) hM).bind fun U _ => ?_
      refine (ih h hi).bind fun A _ => ?_
      refine .bind (K.expect hi.span hs) fun _ _ => ?_
      exact .pure hM
    | _ => exact K.reject (.refl _) hs
  | _ => exact K.reject (.refl _) hs

theorem rule_unroll {R R' : Ty} {inner inner' : Term} (ih : K.Parts infer infer')
    (h : K.Contexts Γ Γ') (hR : K.Written Γ.depth R R') (hi : K.Terms Γ.depth inner inner')
    (hs : K.Spans s s') :
    K.Runs (rule l infer (.unroll R inner s)) (rule l' infer' (.unroll R' inner' s')) Γ Γ' := by
  refine .bind (.ask (K.resolve h hR)) fun M hM => ?_
  cases M with
  | binder b body =>
    cases b with
    | mu =>
      refine (ih h hi).bind fun A _ => ?_
      refine .bind (K.expect hi.span hs) fun _ _ => ?_
      exact K.runs_instantiate h (K.body hM) hM
    | _ => exact K.reject (.refl _) hs
  | _ => exact K.reject (.refl _) hs

/-- Witness and annotation are resolved on both sides before anything is compared. -/
theorem rule_pack {W W' X X' : Ty} {inner inner' : Term} (ih : K.Parts infer infer')
    (h : K.Contexts Γ Γ') (hW : K.Written Γ.depth W W') (hi : K.Terms Γ.depth inner inner')
    (hX : K.Written Γ.depth X X') (hs : K.Spans s s') :
    K.Runs (rule l infer (.pack W inner X s)) (rule l' infer' (.pack W' inner' X' s')) Γ Γ' := by
  refine .bind (.ask (K.resolve h hW)) fun V hV => ?_
  refine .bind (.ask (K.resolve h hX)) fun E hE => ?_
  cases E with
  | binder b body =>
    cases b with
    | ex =>
      refine (K.runs_instantiate h (K.body hE) hV).bind fun U _ => ?_
      refine (ih h hi).bind fun A _ => ?_
      refine .bind (K.expect hi.span hs) fun _ _ => ?_
      exact .pure hE
    | _ => exact K.reject (.refl _) hs
  | _ => exact K.reject (.refl _) hs

/-- What is hidden is the same on both sides, and so is whether the type of the body mentions it. -/
theorem rule_unpack {package package' body body' : Term} (ih : K.Parts infer infer')
    (h : K.Contexts Γ Γ') (hp : K.Terms Γ.depth package package')
    (hb : K.Terms (Γ.depth + 1) body body') (hs : K.Spans s s') :
    K.Runs (rule l infer (.unpack package body s)) (rule l' infer' (.unpack package' body' s'))
      Γ Γ' := by
  refine (ih h hp).bind fun X hX => ?_
  cases X with
  | binder b hidden =>
    cases b with
    | ex =>
      refine .bind (P := K.Types (Γ.depth + 1)) (K.inScope h ?_) fun B hB => ?_
      · exact K.binding_one (K.openScope h) (K.body hX) fun U hU => ih hU hb
      · change InStep K.Fails (Check.lower l B s) (Check.lower l' B s') Γ Γ' _
        rw [lower_eq, lower_eq]
        exact .ofExcept (K.lower hB hs)
    | _ => exact K.reject (.refl _) hs
  | _ => exact K.reject (.refl _) hs

/-! ## the arms of a case -/

/-- Arms with the same patterns, whose spans are related. -/
abbrev Arms (K : Coupling l l') (arms arms' : List (Arm Term)) : Prop :=
  List.Forall₂ (fun a a' => a.pattern = a'.pattern ∧ K.Spans a.span a'.span) arms arms'

/-- The check of the arms sees only patterns and spans. -/
theorem coverage_steps (fields : List (Field Ty)) {arms arms' : List (Arm Term)}
    (ha : K.Arms arms arms') (hs : K.Spans s s') (seen : Coverage.Progress) :
    (∃ r, Coverage.steps fields s seen arms = .ok r ∧
      Coverage.steps fields s' seen arms' = .ok r) ∨
    ∃ m r r', K.Spans r r' ∧ Coverage.steps fields s seen arms = .error ⟨m, r⟩ ∧
      Coverage.steps fields s' seen arms' = .error ⟨m, r'⟩ := by
  induction ha generalizing seen with
  | nil => exact .inl ⟨(seen, []), rfl, rfl⟩
  | @cons a a' arms arms' haa _ ih =>
    rw [Coverage.steps, Coverage.steps, haa.1]
    cases hstep : Coverage.step fields seen a'.pattern with
    | error m => exact .inr ⟨m, _, _, K.orElse haa.2 hs, rfl, rfl⟩
    | ok p =>
      obtain ⟨r, h, h'⟩ | ⟨m, r, r', hr, h, h'⟩ := ih p.1
      · exact .inl ⟨(r.1, p.2 :: r.2),
          by simp [Except.mapError, bind, Except.bind, h, pure, Except.pure],
          by simp [Except.mapError, bind, Except.bind, h', pure, Except.pure]⟩
      · exact .inr ⟨m, r, r', hr, by simp [Except.mapError, bind, Except.bind, h],
          by simp [Except.mapError, bind, Except.bind, h']⟩

/-- Patterns are checked without a look at bodies, so both sides accept or refuse the same arms. -/
theorem coverage_check {fields : List (Field Ty)} {arms arms' : List (Arm Term)}
    (ha : K.Arms arms arms') (hs : K.Spans s s') :
    Matched K.Fails ((Coverage.check fields s arms).mapError .type)
      ((Coverage.check fields s' arms').mapError .type)
      fun bound => Coverage.check fields s arms = .ok bound := by
  have hempty : arms'.isEmpty = arms.isEmpty := by
    cases ha <;> rfl
  unfold Coverage.check
  rw [hempty]
  by_cases hnil : arms.isEmpty = true
  · rw [if_pos hnil, if_pos hnil]
    exact .error rfl rfl (K.mistake (.refl _) hs)
  · rw [if_neg hnil, if_neg hnil]
    obtain ⟨r, h, h'⟩ | ⟨m, r, r', hr, h, h'⟩ := K.coverage_steps fields ha hs ⟨[], false⟩
    · rw [h, h']
      simp only [bind, Except.bind]
      split
      · exact .ok rfl rfl rfl
      · exact .error rfl rfl (K.mistake (.refl _) hs)
    · rw [h, h']
      exact .error rfl rfl (K.mistake (.refl m) hr)

/-- The arms of both checks, each with the types that it binds, side by side. -/
theorem runs_armsType {arms arms' : List (Arm Term × List Ty)} (hne : arms ≠ [])
    (h : List.Forall₂ (fun p p' => K.Spans p.1.span p'.1.span ∧
      K.Runs (binding p.2 (infer p.1.body)) (binding p'.2 (infer' p'.1.body)) Γ Γ') arms arms')
    (hs : K.Spans s s') : K.Runs (armsType infer s arms) (armsType infer' s' arms') Γ Γ' := by
  cases h with
  | nil => exact absurd rfl hne
  | cons hfirst hrest =>
    rw [armsType, armsType]
    refine hfirst.2.bind fun T hT => ?_
    refine .bind (.forM (hrest.imp fun p p' hp => ?_)) fun _ _ => .pure hT
    refine hp.2.bind fun U _ => ?_
    by_cases hU : U = T
    · rw [if_pos hU, if_pos hU]
      exact .pure trivial
    · rw [if_neg hU, if_neg hU]
      exact K.reject (.refl _) (K.orElse hp.1 hs)

theorem depth_bind (Γ : Context) (Ts : List Ty) : (Γ.bind Ts).depth = Γ.depth := by
  rw [bind_eq]

/-- Contexts still belong together after settled types have been bound. -/
theorem contexts_bind {Ts : List Ty} (h : K.Contexts Γ Γ') (hTs : ∀ T ∈ Ts, K.Types Γ.depth T)
    (hset : ∀ T ∈ Ts, T.Settled Γ.aliases Γ.limit.levels) :
    K.Contexts (Γ.bind Ts) (Γ'.bind Ts) := by
  induction Ts generalizing Γ Γ' with
  | nil => exact h
  | cons T Ts ih =>
    obtain ⟨hT, hTs⟩ := List.forall_mem_cons.1 hTs
    obtain ⟨hsetT, hset⟩ := List.forall_mem_cons.1 hset
    have hres : Γ.resolve T = .ok T := Context.resolve_settled hsetT
    have hbind : K.Contexts (Γ.bindOne T) (Γ'.bindOne T) := by
      cases K.push h hT with
      | ok hU _ hΓ =>
        obtain rfl := Except.ok.inj (hres.symm.trans hU)
        exact hΓ
      | stop he _ => simp [hres] at he
      | error he _ _ => simp [hres] at he
    exact ih hbind hTs hset

/-- What a pattern binds in a variant that both checks gave is bound on both sides: these types
are settled, so that none of them fails to resolve after others have been bound. -/
theorem binding_opened {α : Type} {P : α → Prop} {x y : Check α} {fields : List (Field Ty)}
    {p : Pattern} {Ts : List Ty} (h : K.Contexts Γ Γ') (hV : K.Types Γ.depth (.variant fields))
    (ho : p.Opens Eq fields Ts)
    (hx : K.Contexts (Γ.bind Ts) (Γ'.bind Ts) →
      InStep K.Fails x y (Γ.bind Ts) (Γ'.bind Ts) P) :
    InStep K.Fails (binding Ts x) (binding Ts y) Γ Γ' P := by
  have hset := settled_of_opens ho (K.inferred h hV).1.settled
  have hset' := settled_of_opens ho (K.inferred h hV).2.settled
  have hfield : ∀ f ∈ fields, K.Types Γ.depth f.ty :=
    fun f hf => K.child hV (List.mem_map_of_mem (f := Field.ty) hf)
  have htypes : ∀ T ∈ Ts, K.Types Γ.depth T :=
    ho.forall (fun Vs hT _ hmem => K.child (T := .product Vs) hT hmem) hfield hV
  exact .binding (List.forall₂_same.2 fun T hT => Context.resolve_settled (hset T hT))
    (List.forall₂_same.2 fun T hT => Context.resolve_settled (hset' T hT))
    (hx (contexts_bind h htypes hset))

theorem forall₂_zip_zip {α β γ : Type} {R : α → β → Prop} {Q : α → γ → Prop} {xs : List α}
    {ys : List β} {zs : List γ} (h : List.Forall₂ R xs ys) (hq : List.Forall₂ Q xs zs) :
    List.Forall₂ (fun p q => R p.1 q.1 ∧ Q p.1 p.2 ∧ p.2 = q.2) (xs.zip zs) (ys.zip zs) := by
  induction h generalizing zs with
  | nil => exact .nil
  | cons hR _ ih =>
    cases hq with
    | cons hQ hq => exact .cons ⟨hR, hQ, rfl⟩ (ih hq)

/-- The arms bind the same types on both sides. -/
theorem rule_caseOf {scrutinee scrutinee' : Term} {arms arms' : List (Arm Term)}
    (ih : K.Parts infer infer') (h : K.Contexts Γ Γ')
    (hsc : K.Terms Γ.depth scrutinee scrutinee') (ha : K.Arms arms arms')
    (hb : ∀ a a', (a, a') ∈ arms.zip arms' → K.Terms Γ.depth a.body a'.body)
    (hs : K.Spans s s') :
    K.Runs (rule l infer (.caseOf scrutinee arms s)) (rule l' infer' (.caseOf scrutinee' arms' s'))
      Γ Γ' := by
  refine (ih h hsc).bind fun V hV => ?_
  cases V with
  | variant fields =>
    refine .bind (.ofExcept (coverage_check ha hs)) fun bound hbound => ?_
    have hwf := (K.inferred h hV).1.wellFormed
    obtain ⟨hcov, hopens⟩ := (Coverage.check_eq_ok hwf).1 hbound
    refine runs_armsType (hcov.zip_ne_nil hopens) ?_ hs
    have hbodies : List.Forall₂ (fun a a' : Arm Term => K.Spans a.span a'.span ∧
        K.Terms Γ.depth a.body a'.body) arms arms' :=
      List.forall₂_iff_zip.2 ⟨ha.length_eq, fun {a a'} hmem =>
        ⟨(List.forall₂_zip ha hmem).2, hb a a' hmem⟩⟩
    refine (forall₂_zip_zip hbodies hopens).imp ?_
    rintro ⟨a, Ts⟩ ⟨a', Ts'⟩ ⟨⟨hspan, hbody⟩, ho, rfl⟩
    refine ⟨hspan, binding_opened h hV ho fun hΓ => ?_⟩
    exact (ih hΓ (depth_bind Γ Ts ▸ hbody)).mono fun T hT => depth_bind Γ Ts ▸ hT
  | _ => exact K.reject (.refl _) (K.orElse hsc.span hs)

/-- One step: if parts are in step, so are the terms. -/
theorem rule_inStep (ih : K.Parts infer infer') (h : K.Contexts Γ Γ') (ht : K.Terms Γ.depth t t') :
    K.Runs (rule l infer t) (rule l' infer' t') Γ Γ' := by
  cases ht with
  | @lit _ value _ _ _ =>
    refine .pure ?_
    have hbase : ∀ b, K.Types Γ.depth (.base b) := fun b => K.node trivial (by simp [children])
    cases value with
    | unit => exact hbase _
    | bool _ => exact hbase _
    | nat _ => exact hbase _
    | prim op => cases op <;> exact K.arrow (hbase _) (hbase _)
  | var hs =>
    rw [rule_var_eq, rule_var_eq]
    exact .ask (K.lookUp h hs)
  | abs hT hb _ => exact rule_abs ih h hT hb
  | app hf ha hs => exact rule_app ih h hf ha hs
  | fix hi hs => exact rule_fix ih h hi hs
  | ite hg hy hn hs => exact rule_ite ih h hg hy hn hs
  | inject hp hT hs => exact rule_inject ih h hp hT hs
  | proj hi hs => exact rule_proj ih h hi hs
  | tuple hlen hitems _ => exact rule_tuple ih h hlen hitems
  | letIn hb hbody _ => exact rule_letIn ih h hb hbody
  | tyAbs hb _ => exact rule_tyAbs ih h hb
  | tyApp hi hT hs => exact rule_tyApp ih h hi hT hs
  | roll hT hi hs => exact rule_roll ih h hT hi hs
  | unroll hT hi hs => exact rule_unroll ih h hT hi hs
  | pack hW hi hT hs => exact rule_pack ih h hW hi hT hs
  | unpack hp hb hs => exact rule_unpack ih h hp hb hs
  | caseOf hsc ha hb hs => exact rule_caseOf ih h hsc ha hb hs

/-! ## two checks -/

/-- A line in the log is all that tracing adds. -/
theorem run_traced (b : Bool) (e : Event) (T : Ty) (Γ : Context) : ∃ log,
    Check.run (do
      if b then
        emit e
      return T) Γ = ⟨.ok T, Γ, log⟩ := by
  cases b with
  | true => exact ⟨[e], rfl⟩
  | false => exact ⟨[], rfl⟩

/-- The checks are in step, if the second has as many levels as the first, and it is known what
happens where these run out. -/
theorem infer_inStep {c c' : Checker} {K : Coupling c.limit c'.limit} {n n' : Nat} (hn : n ≤ n')
    (hend : ∀ {d : Nat} {t t' : Term}, K.Terms d t t' → K.Fails (t.overrun c.limit) none ∨
      n = n' ∧ K.Fails (t.overrun c.limit) (some (t'.overrun c'.limit))) :
    K.Parts (c.infer n) (c'.infer n') := by
  induction n generalizing n' with
  | zero =>
    intro Γ Γ' t t' _ ht
    obtain he | ⟨rfl, he⟩ := hend ht
    -- the first check stops; what the second does with the levels it still has is its own affair
    · exact .stop rfl he
    · exact .fail he
  | succ n ih =>
    obtain ⟨m, rfl⟩ : ∃ m, n' = m + 1 := ⟨n' - 1, by omega⟩
    have hparts : K.Parts (c.infer n) (c'.infer m) := ih (Nat.le_of_succ_le_succ hn) fun ht => by
      simpa using hend ht
    intro Γ Γ' t t' h ht
    rw [Checker.infer, Checker.infer]
    refine (rule_inStep hparts h ht).bind fun T hT => ?_
    obtain ⟨log, hrun⟩ := run_traced c.trace (.rule t.form T) T Γ
    obtain ⟨log', hrun'⟩ := run_traced c'.trace (.rule t'.form T) T Γ'
    exact .ok hrun hrun' hT

end Coupling

/-- A computation that leaves the context as it was ends in the same way one level up. -/
theorem Checker.run_infer_of_rule {c : Checker} {n : Nat} {t : Term} {Γ : Context}
    {r : Except Fault Ty} {log : List Event}
    (h : (Check.rule c.limit (c.infer n) t).run Γ = ⟨r, Γ, log⟩) :
    ∃ log', (c.infer (n + 1) t).run Γ = ⟨r, Γ, log'⟩ := by
  rw [infer]
  cases r with
  | error e => exact ⟨log, Check.run_bind_of_error h _⟩
  | ok T =>
    obtain ⟨log', hrun⟩ := Coupling.run_traced c.trace (.rule t.form T) T Γ
    exact ⟨log ++ log', by rw [Check.run_bind_of_ok h, hrun]⟩

end PolyLambda
