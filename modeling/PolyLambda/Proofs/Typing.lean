import PolyLambda.Proofs.Arms
import PolyLambda.Proofs.Telescope

/-!
# PolyLambda.Proofs.Typing

The typing rules, one for each form of term, as a relation that computes nothing: a term has
a type under the binders that are open. Types written in a term are taken as they stand. Where
a rule asks for a type of some form, any type convertible with one of that form will do, and
the last rule lets a term have every type convertible with a type it has.
-/

namespace PolyLambda

open Ty

/-- The term `t` has the type `T` under the binders `Δ`. -/
inductive Typed (aliases : Aliases) : Telescope → Term → Ty → Prop where
  | lit {Δ : Telescope} {value : Literal} {s : Option Span} :
      Typed aliases Δ (.lit value s) value.ty
  | var {Δ : Telescope} {i : Nat} {T : Ty} {s : Option Span} (h : Δ.lookup i = some T) :
      Typed aliases Δ (.var i s) T
  | abs {Δ : Telescope} {A B : Ty} {body : Term} {s : Option Span}
      (h : Typed aliases (.term A :: Δ) body B) : Typed aliases Δ (.abs A body s) (.arrow A B)
  | app {Δ : Telescope} {A B : Ty} {fn arg : Term} {s : Option Span}
      (hf : Typed aliases Δ fn (.arrow A B)) (ha : Typed aliases Δ arg A) :
      Typed aliases Δ (.app fn arg s) B
  | fix {Δ : Telescope} {A : Ty} {inner : Term} {s : Option Span}
      (h : Typed aliases Δ inner (.arrow A A)) : Typed aliases Δ (.fix inner s) A
  | ite {Δ : Telescope} {A : Ty} {guard yes no : Term} {s : Option Span}
      (hg : Typed aliases Δ guard .bool) (hy : Typed aliases Δ yes A)
      (hn : Typed aliases Δ no A) : Typed aliases Δ (.ite guard yes no s) A
  | inject {Δ : Telescope} {V A : Ty} {fields : List (Field Ty)} {label : String}
      {payload : Term} {s : Option Span} (hV : Conv aliases V (.variant fields))
      (hl : ⟨label, A⟩ ∈ fields) (h : Typed aliases Δ payload A) :
      Typed aliases Δ (.inject label payload V s) V
  | proj {Δ : Telescope} {T : Ty} {Ts : List Ty} {i : Nat} {inner : Term} {s : Option Span}
      (h : Typed aliases Δ inner (.product Ts)) (hi : Ts[i]? = some T) :
      Typed aliases Δ (.proj inner i s) T
  | tuple {Δ : Telescope} {Ts : List Ty} {items : List Term} {s : Option Span}
      (hlen : items.length = Ts.length)
      (h : ∀ t T, (t, T) ∈ items.zip Ts → Typed aliases Δ t T) :
      Typed aliases Δ (.tuple items s) (.product Ts)
  | letIn {Δ : Telescope} {A B : Ty} {bound body : Term} {s : Option Span}
      (hb : Typed aliases Δ bound A) (h : Typed aliases (.term A :: Δ) body B) :
      Typed aliases Δ (.letIn bound body s) B
  | tyAbs {Δ : Telescope} {B : Ty} {body : Term} {s : Option Span}
      (h : Typed aliases (.scope :: Δ) body B) :
      Typed aliases Δ (.tyAbs body s) (.binder .all B)
  | tyApp {Δ : Telescope} {A B : Ty} {inner : Term} {s : Option Span}
      (h : Typed aliases Δ inner (.binder .all B)) :
      Typed aliases Δ (.tyApp inner A s) (B.inst A)
  | roll {Δ : Telescope} {R B : Ty} {inner : Term} {s : Option Span}
      (hR : Conv aliases R (.binder .mu B)) (h : Typed aliases Δ inner (B.inst R)) :
      Typed aliases Δ (.roll R inner s) R
  | unroll {Δ : Telescope} {R B : Ty} {inner : Term} {s : Option Span}
      (hR : Conv aliases R (.binder .mu B)) (h : Typed aliases Δ inner R) :
      Typed aliases Δ (.unroll R inner s) (B.inst R)
  | pack {Δ : Telescope} {W E B : Ty} {inner : Term} {s : Option Span}
      (hE : Conv aliases E (.binder .ex B)) (h : Typed aliases Δ inner (B.inst W)) :
      Typed aliases Δ (.pack W inner E s) E
  -- the type of the body does not mention the type variable that is opened: it is lifted over it
  | unpack {Δ : Telescope} {B C : Ty} {package body : Term} {s : Option Span}
      (hp : Typed aliases Δ package (.binder .ex B))
      (h : Typed aliases (.term B :: .scope :: Δ) body (C.lift 1 0)) :
      Typed aliases Δ (.unpack package body s) C
  | caseOf {Δ : Telescope} {C : Ty} {fields : List (Field Ty)} {scrutinee : Term}
      {arms : List (Arm Term)} {bound : List (List Ty)} {s : Option Span}
      (hs : Typed aliases Δ scrutinee (.variant fields))
      (hcov : Covers (labels fields) (arms.map (·.pattern)))
      (hb : List.Forall₂ (fun a Ts => a.pattern.Opens (Conv aliases) fields Ts) arms bound)
      (h : ∀ a Ts, (a, Ts) ∈ arms.zip bound → Typed aliases (Δ.bind Ts) a.body C) :
      Typed aliases Δ (.caseOf scrutinee arms s) C
  | conv {Δ : Telescope} {A B : Ty} {t : Term} (h : Typed aliases Δ t A)
      (hAB : Conv aliases A B) : Typed aliases Δ t B

end PolyLambda
