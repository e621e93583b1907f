import PolyLambda.Proofs.Safe

/-!
# PolyLambda.Proofs.Trace

The trace of a check. A checker that traces writes a line for every term it has found a type for.
This changes nothing else: it gives the same type, or fails in the same way, as one that does not.
The lines come in post-order: those of the parts of a term from left to right, then its own. A check
that fails has written the first ones of these lines, up to where it failed.

The type in a line is the one that the term has in the context it is checked in. Each form of term
says in which contexts its parts are checked (`Check.premises`), and so the types of all nodes of a
term can be listed without looking at what is written (`Checker.findings`).

* `Term.postorder`: the nodes of a term.
* `Check.Traces` is the judgement on two computations of which one writes a trace. There is one rule
  for each way of putting computations together.
* `Check.rule_traces` is the step from the parts of a term to the term, `Checker.infer_traces` the
  statement for the checker.
* `Checker.typeOfClosed_trace`: what is written for a term, with and without a trace.
-/

namespace PolyLambda

open Ty

/-! ## nodes -/

namespace Term

mutual
/-- The nodes of a term: those of its parts from left to right, then the term itself. -/
def postorder : Term → List Term
  | .hole => [.hole]
  | .lit value s => [.lit value s]
  | .var index s => [.var index s]
  | .abs param body s => body.postorder ++ [.abs param body s]
  | .app fn arg s => fn.postorder ++ arg.postorder ++ [.app fn arg s]
  | .fix inner s => inner.postorder ++ [.fix inner s]
  | .ite guard yes no s =>
    guard.postorder ++ yes.postorder ++ no.postorder ++ [.ite guard yes no s]
  | .inject label payload ty s => payload.postorder ++ [.inject label payload ty s]
  | .proj inner index s => inner.postorder ++ [.proj inner index s]
  | .tuple items s => itemPostorder items ++ [.tuple items s]
  | .letIn bound body s => bound.postorder ++ body.postorder ++ [.letIn bound body s]
  | .tyAbs body s => body.postorder ++ [.tyAbs body s]
  | .tyApp inner arg s => inner.postorder ++ [.tyApp inner arg s]
  | .roll ty inner s => inner.postorder ++ [.roll ty inner s]
  | .unroll ty inner s => inner.postorder ++ [.unroll ty inner s]
  | .pack witness inner ty s => inner.postorder ++ [.pack witness inner ty s]
  | .unpack package body s => package.postorder ++ body.postorder ++ [.unpack package body s]
  | .caseOf scrutinee arms s =>
    scrutinee.postorder ++ armPostorder arms ++ [.caseOf scrutinee arms s]

/-- The nodes of the components of a tuple. -/
def itemPostorder : List Term → List Term
  | [] => []
  | t :: ts => t.postorder ++ itemPostorder ts

/-- The nodes of the bodies of arms. -/
def armPostorder : List (Arm Term) → List Term
  | [] => []
  | ⟨_, body, _⟩ :: arms => body.postorder ++ armPostorder arms
end

theorem itemPostorder_eq (items : List Term) : itemPostorder items = items.flatMap postorder := by
  induction items with
  | nil => rfl
  | cons t ts ih => rw [itemPostorder, ih, List.flatMap_cons]

theorem armPostorder_eq (arms : List (Arm Term)) :
    armPostorder arms = arms.flatMap (·.body.postorder) := by
  induction arms with
  | nil => rfl
  | cons a arms ih => rw [armPostorder, ih, List.flatMap_cons]

/-- The nodes of a term are those of its parts, from left to right, and then the term itself. -/
theorem postorder_eq (t : Term) : t.postorder = t.subterms.flatMap postorder ++ [t] := by
  cases t with
  | tuple items s =>
    have hparts : (tuple items s).subterms = items := by
      rw [subterms, parts, List.map_map]
      exact List.map_id items
    rw [postorder, itemPostorder_eq, hparts]
  | caseOf scrutinee arms s =>
    have hparts : (caseOf scrutinee arms s).subterms = scrutinee :: arms.map (·.body) := by simp
    rw [postorder, armPostorder_eq, hparts, List.flatMap_cons, List.flatMap_map]
  | _ => simp [postorder]

end Term

/-! ## what is found -/

/-- The context with variables of these types bound, if the types resolve. -/
def Context.bindAll? (Γ : Context) (Ts : List Ty) : Option Context :=
  (Ts.mapM Γ.resolve).toOption.map Γ.bind

/-- If all types resolve, variables of these types can be bound. -/
theorem Context.bindAll?_of_resolved {Γ : Context} {Ts Us : List Ty}
    (h : List.Forall₂ (fun T U => Γ.resolve T = .ok U) Ts Us) :
    Γ.bindAll? Ts = some (Γ.bind Us) := by
  rw [bindAll?, mapM_eq_ok.2 h]
  rfl

/-- What an existential type hides. -/
def Ty.hidden? : Ty → Option Ty
  | .binder .ex T => some T
  | _ => none

namespace Check

/-- The value that a computation gives in a context. -/
def value? {α : Type} (x : Check α) (Γ : Context) : Option α :=
  (x.run Γ).result.toOption

/-- The types that the arms of a case bind, if its scrutinee is of type `V`. -/
def armTypes? (V : Ty) (span : Option Span) (arms : List (Arm Term)) : Option (List (List Ty)) :=
  match V with
  | .variant fields => (Coverage.check fields span arms).toOption
  | _ => none

/-- The parts of a term that is checked in `Γ`, each with the context in which it is checked. There
is no context for a part that the check does not come to. -/
def premises (infer : Term → Check Ty) (Γ : Context) : Term → List (Option Context × Term)
  | .abs param body _ => [((resolve param).value? Γ >>= fun A => Γ.bindAll? [A], body)]
  | .letIn bound body _ =>
    [(some Γ, bound), ((infer bound).value? Γ >>= fun A => Γ.bindAll? [A], body)]
  | .tyAbs body _ => [(some Γ.openScope, body)]
  | .unpack package body _ =>
    [(some Γ, package),
      ((infer package).value? Γ >>= hidden? >>= fun T => Γ.openScope.bindAll? [T], body)]
  | .caseOf scrutinee arms span =>
    (some Γ, scrutinee) ::
      match (infer scrutinee).value? Γ >>= fun V => armTypes? V span arms with
      | some bound => (arms.zip bound).map fun p => (Γ.bindAll? p.2, p.1.body)
      | none => arms.map fun arm => (none, arm.body)
  | t => t.subterms.map fun u => (some Γ, u)

/-- Patterns that are accepted give types for every arm. -/
theorem length_armTypes {V : Ty} {span : Option Span} {arms : List (Arm Term)}
    {bound : List (List Ty)} (h : armTypes? V span arms = some bound) :
    bound.length = arms.length := by
  cases V with
  | variant fields =>
    rw [armTypes?] at h
    cases hc : Coverage.check fields span arms with
    | error e => simp [hc, Except.toOption] at h
    | ok bound' =>
      obtain rfl : bound' = bound := by simpa [hc, Except.toOption] using h
      exact Coverage.length_check hc
  | _ => contradiction

/-- The premises of a rule are about the parts of the term, each one once and in order. -/
theorem map_snd_premises (infer : Term → Check Ty) (Γ : Context) (t : Term) :
    (premises infer Γ t).map (·.2) = t.subterms := by
  cases t with
  | caseOf scrutinee arms span =>
    have hbody : ∀ bound : List (List Ty), bound.length = arms.length →
        ((arms.zip bound).map fun p => p.1.body) = arms.map (·.body) := by
      intro bound hlen
      conv_rhs => rw [← List.map_fst_zip (Nat.le_of_eq hlen.symm), List.map_map]
      rfl
    simp only [premises]
    split
    · next bound hbound =>
      obtain ⟨V, -, hV⟩ := Option.bind_eq_some_iff.1 hbound
      simpa [Function.comp_def] using hbody bound (length_armTypes hV)
    · simp
  | _ => simp [premises]

end Check

/-- The nodes of a term in post-order, each with the type that it has in the context in which it is
checked. A node has none if it has no type there, or if the check does not come to it. -/
def Checker.findings (c : Checker) :
    (levels : Nat) → Option Context → Term → List (Term × Option Ty)
  | n + 1, some Γ, t =>
    ((Check.premises (c.infer n) Γ t).flatMap fun p => c.findings n p.1 p.2) ++
      [(t, (c.infer (n + 1) t).value? Γ)]
  | _, _, t => t.postorder.map fun u => (u, none)

/-- What is found is about all nodes of the term, in the order in which they are finished. -/
theorem Checker.map_fst_findings (c : Checker) (n : Nat) (Γ : Option Context) (t : Term) :
    (c.findings n Γ t).map (·.1) = t.postorder := by
  induction n generalizing Γ t with
  | zero => simp [findings, Function.comp_def]
  | succ n ih =>
    cases Γ with
    | none => simp [findings, Function.comp_def]
    | some Γ =>
      rw [findings, List.map_append, List.map_flatMap, t.postorder_eq,
        ← Check.map_snd_premises (c.infer n) Γ t, List.flatMap_map]
      simp only [ih, List.map_cons, List.map_nil]

/-! ## a computation and its trace -/

/-- The lines for terms that have got their types. -/
def Event.lines (done : List (Term × Ty)) : List Event :=
  done.map fun p => .rule p.1.form p.2

/-- Terms that have got their types, among those that may have none. -/
def found (done : List (Term × Ty)) : List (Term × Option Ty) :=
  done.map fun p => (p.1, some p.2)

theorem Event.lines_append (done done' : List (Term × Ty)) :
    lines (done ++ done') = lines done ++ lines done' :=
  List.map_append

theorem found_append (done done' : List (Term × Ty)) :
    found (done ++ done') = found done ++ found done' :=
  List.map_append

theorem map_fst_found (done : List (Term × Ty)) : (found done).map (·.1) = done.map (·.1) := by
  simp [found, Function.comp_def]

namespace Check

variable {α β : Type} {x y : Check α} {f g : α → Check β} {Γ Δ : Context}
  {J J₁ J₂ : List (Term × Option Ty)} {P : α → Prop} {Q : β → Prop}

/-- Started in `Γ`, both computations do the same, and the second writes nothing. The first one
writes lines for the nodes in `J`: for all of them, or for the first ones if it fails. -/
inductive Traces (x y : Check α) (Γ : Context) (J : List (Term × Option Ty)) (P : α → Prop) :
    Prop where
  | ok {a : α} (done : List (Term × Ty)) (h : x.run Γ = ⟨.ok a, Γ, Event.lines done⟩)
      (h' : y.run Γ = ⟨.ok a, Γ, []⟩) (hJ : found done = J) (ha : P a)
  | error {e : Fault} {Δ : Context} (done : List (Term × Ty))
      (h : x.run Γ = ⟨.error e, Δ, Event.lines done⟩) (h' : y.run Γ = ⟨.error e, Δ, []⟩)
      (hJ : found done <+: J)

/-- The computation asks the context, but does not change it, and writes nothing. -/
def Asks (x : Check α) : Prop :=
  ∀ Γ, x.run Γ = ⟨(x.run Γ).result, Γ, []⟩

theorem asks_pure (a : α) : (pure a : Check α).Asks := fun _ => rfl

theorem asks_fail (e : Fault) : (fail e : Check α).Asks := fun _ => rfl

theorem asks_ask (g : Context → Except Fault α) : (ask g).Asks := fun _ => rfl

theorem asks_ofExcept (r : Except Fault α) : (ofExcept r).Asks := fun _ => rfl

theorem toOption_mapError {ε ε' : Type} {r : Except ε α} {e : ε → ε'} :
    (r.mapError e).toOption = r.toOption := by
  cases r <;> rfl

/-- Questions that depend on the answers to others. -/
theorem Asks.bind (hx : x.Asks) (hf : ∀ a, (f a).Asks) : (x >>= f).Asks := by
  intro Γ
  have hrun := hx Γ
  cases hr : (x.run Γ).result with
  | error e =>
    rw [hr] at hrun
    rw [run_bind_of_error hrun]
  | ok a =>
    rw [hr] at hrun
    rw [run_bind_of_ok hrun, hf a Γ]
    rfl

theorem asks_resolve (T : Ty) : (resolve T).Asks := asks_ask _

/-- An instance is computed, and then resolved in the context. -/
theorem asks_instantiate (limit : Limit) (body A : Ty) : (instantiate limit body A).Asks :=
  (asks_ofExcept _).bind fun _ => asks_ask _

/-- A comparison does not even look at the context. -/
theorem asks_expect (expected actual : Ty) (part whole : Term) :
    (expect expected actual part whole).Asks := by
  unfold expect
  split
  · exact asks_pure ()
  · exact asks_fail _

/-- Nor does lowering a type out of a scope. -/
theorem asks_lower (limit : Limit) (B : Ty) (span : Option Span) : (lower limit B span).Asks := by
  refine (asks_ofExcept _).bind fun b => ?_
  split
  · exact asks_fail _
  · exact asks_ofExcept _

/-- Changes of the context are not written. -/
theorem log_modify (g : Context → Except Fault Context) (Γ : Context) :
    ((modify g).run Γ).log = [] := by
  cases h : g Γ with
  | ok Δ => rw [run_modify_of_ok h]
  | error e => rw [run_modify_of_error h]

theorem log_popAll (Ts : List Ty) (Γ : Context) : ((popAll Ts).run Γ).log = [] := by
  induction Ts generalizing Γ with
  | nil => rfl
  | cons T Ts ih =>
    rw [popAll_cons]
    cases h : Γ.pop with
    | ok Δ =>
      rw [run_bind_of_ok (run_modify_of_ok h)]
      exact ih Δ
    | error e => rw [run_bind_of_error (run_modify_of_error h)]

/-- A computation between two changes of the context, of which the second may fail. -/
theorem run_around {first last : Check Unit} {Θ Γ' : Context} {r : Except Fault α}
    {l : Except Fault Unit} {log : List Event} (hfirst : first.run Γ = ⟨.ok (), Δ, []⟩)
    (hx : x.run Δ = ⟨r, Θ, log⟩) (hlast : last.run Θ = ⟨l, Γ', []⟩) :
    (first >>= fun _ => ensuring x last).run Γ = ⟨l >>= fun _ => r, Γ', log⟩ := by
  rw [run_bind_of_ok hfirst]
  cases l with
  | ok _ => simp [ensuring, hx, hlast, bind, Except.bind]
  | error e => simp [ensuring, hx, hlast, bind, Except.bind]

namespace Traces

/-- The value may be named: it is the one that the computation without a trace gives. -/
theorem value (h : Traces x y Γ J P) : Traces x y Γ J (fun a => y.value? Γ = some a) := by
  cases h with
  | ok done h h' hJ _ => exact .ok done h h' hJ (by rw [value?, h']; rfl)
  | error done h h' hJ => exact .error done h h' hJ

/-- What is said of the value may be weakened. -/
theorem mono {P' : α → Prop} (h : Traces x y Γ J P) (hP : ∀ a, P a → P' a) :
    Traces x y Γ J P' := by
  cases h with
  | ok done h h' hJ ha => exact .ok done h h' hJ (hP _ ha)
  | error done h h' hJ => exact .error done h h' hJ

/-- A failure writes nothing, so it agrees with whatever was to come. -/
theorem fail (e : Fault) : Traces (fail e) (fail e) Γ J P :=
  .error [] rfl rfl List.nil_prefix

/-- Questions to the context write nothing. -/
theorem asks (h : x.Asks) : Traces x x Γ [] (fun _ => True) := by
  have hrun := h Γ
  cases hr : (x.run Γ).result with
  | error e =>
    rw [hr] at hrun
    exact .error [] hrun hrun List.nil_prefix
  | ok a =>
    rw [hr] at hrun
    exact .ok [] hrun hrun rfl trivial

/-- One computation after another: first the lines of the first one, then those of the second. -/
theorem bind (hx : Traces x y Γ J₁ P) (hf : ∀ a, P a → Traces (f a) (g a) Γ J₂ Q) :
    Traces (x >>= f) (y >>= g) Γ (J₁ ++ J₂) Q := by
  cases hx with
  | error done h h' hJ =>
    exact .error done (run_bind_of_error h f) (run_bind_of_error h' g)
      (hJ.trans (List.prefix_append J₁ J₂))
  | @ok a done h h' hJ ha =>
    subst hJ
    cases hf a ha with
    | @error e Δ done' hb hb' hJ' =>
      refine .error (done ++ done') ?_ (by rw [run_bind_of_ok h', hb']; rfl) ?_
      · rw [run_bind_of_ok h, hb, Event.lines_append]
      · rw [found_append]
        exact (List.prefix_append_right_inj _).2 hJ'
    | @ok b done' hb hb' hJ' hQ =>
      refine .ok (done ++ done') ?_ (by rw [run_bind_of_ok h', hb']; rfl) ?_ hQ
      · rw [run_bind_of_ok h, hb, Event.lines_append]
      · rw [← hJ', found_append]

/-- A question to the context before a computation. -/
theorem asks_bind (hx : x.Asks) (hf : ∀ a, x.value? Γ = some a → Traces (f a) (g a) Γ J Q) :
    Traces (x >>= f) (x >>= g) Γ J Q := by
  rw [← List.nil_append J]
  exact (asks hx).value.bind hf

/-- A question to the context after a computation. -/
theorem bind_asks (hx : Traces x y Γ J P) (hf : ∀ a, (f a).Asks) :
    Traces (x >>= f) (y >>= f) Γ J (fun _ => True) := by
  rw [← List.append_nil J]
  exact hx.bind fun a _ => asks (hf a)

/-- A computation for each of a list, whose lines come in the order of the list. -/
theorem forM {γ : Type} {g g' : γ → Check Unit} {K : γ → List (Term × Option Ty)} {xs : List γ}
    (h : ∀ c, Traces (g c) (g' c) Γ (K c) (fun _ => True)) :
    Traces (xs.forM g) (xs.forM g') Γ (xs.flatMap K) (fun _ => True) := by
  induction xs with
  | nil => exact asks (asks_pure ())
  | cons c xs ih =>
    rw [List.flatMap_cons]
    exact (h c).bind fun _ _ => ih

/-- A computation between a change of the context and a change back, which write nothing. -/
theorem between {first last : Check Unit} (hfirst : first.run Γ = ⟨.ok (), Δ, []⟩)
    (hlast : last.run Δ = ⟨.ok (), Γ, []⟩) (hsilent : ∀ Θ, (last.run Θ).log = [])
    (hx : Traces x y Δ J P) :
    Traces (first >>= fun _ => ensuring x last) (first >>= fun _ => ensuring y last) Γ J P := by
  cases hx with
  | ok done h h' hJ ha =>
    exact .ok done (run_around hfirst h hlast) (run_around hfirst h' hlast) hJ ha
  | @error e Θ done h h' hJ =>
    -- the change back starts from whatever context the failure has left, and may fail itself
    cases hl : last.run Θ with
    | mk r Γ' log =>
    obtain rfl : log = [] := by simpa [hl] using hsilent Θ
    cases r with
    | ok _ => exact .error done (run_around hfirst h hl) (run_around hfirst h' hl) hJ
    | error e' => exact .error done (run_around hfirst h hl) (run_around hfirst h' hl) hJ

/-- A computation with variables bound around it. If some type does not resolve, nothing is
written. -/
theorem binding {Ts : List Ty} {K : Option Context → List (Term × Option Ty)}
    (hx : ∀ Us, List.Forall₂ (fun T U => Γ.resolve T = .ok U) Ts Us →
      Traces x y (Γ.bind Us) (K (some (Γ.bind Us))) P) :
    Traces (binding Ts x) (binding Ts y) Γ (K (Γ.bindAll? Ts)) P := by
  obtain ⟨Us, hUs⟩ | ⟨Us, e, hstuck⟩ := forall₂_or_stuck Γ.resolve Ts
  · rw [Context.bindAll?_of_resolved hUs]
    exact between (run_pushAll hUs) (run_popAll_bind hUs.length_eq) (log_popAll Ts) (hx Us hUs)
  · exact .error [] (run_binding_of_stuck hstuck x) (run_binding_of_stuck hstuck y)
      List.nil_prefix

/-- A computation inside a type scope. -/
theorem inScope (hΓ : Γ.Balanced) (hx : Traces x y Γ.openScope J P) :
    Traces (inScope x) (inScope y) Γ J P :=
  between (run_modify_of_ok rfl) (run_modify_of_ok (closeScope_openScope hΓ)) (log_modify _) hx

end Traces

/-! ## one step of the checker -/

variable {infer infer' : Term → Check Ty} {K : Option Context → Term → List (Term × Option Ty)}

/-- What the rules may assume of the parts: for these, `K` says what is found. -/
abbrev TracedParts (infer infer' : Term → Check Ty)
    (K : Option Context → Term → List (Term × Option Ty)) : Prop :=
  ∀ (t : Term) (Γ : Context), Γ.Good →
    Traces (infer t) (infer' t) Γ (K (some Γ) t) (fun T => (infer' t).value? Γ = some T)

namespace TracedParts

theorem part (ih : TracedParts infer infer' K) (hΓ : Γ.Good) (t : Term) :
    Traces (infer t) (infer' t) Γ (K (some Γ) t) (fun _ => True) :=
  (ih t Γ hΓ).mono fun _ _ => trivial

/-- A part that is checked with variables bound around it. -/
theorem binding (ih : TracedParts infer infer' K) (hΓ : Γ.Good) (Ts : List Ty) (t : Term) :
    Traces (binding Ts (infer t)) (binding Ts (infer' t)) Γ (K (Γ.bindAll? Ts) t)
      (fun _ => True) :=
  Traces.binding (K := fun Δ => K Δ t) fun _ hUs => ih.part (hΓ.bind hUs) t

/-- Parts that are checked one after another. -/
theorem mapM (ih : TracedParts infer infer' K) (hΓ : Γ.Good) (items : List Term) :
    Traces (items.mapM infer) (items.mapM infer') Γ (items.flatMap (K (some Γ)))
      (fun _ => True) := by
  induction items with
  | nil => exact .asks (asks_pure _)
  | cons t ts hts =>
    rw [List.mapM_cons, List.mapM_cons, List.flatMap_cons]
    exact (ih.part hΓ t).bind fun T _ => hts.bind_asks fun Ts => asks_pure _

/-- The bodies of the arms are checked one after another, each with its own variables bound. -/
theorem armsType (ih : TracedParts infer infer' K) (hΓ : Γ.Good) (span : Option Span)
    (arms : List (Arm Term × List Ty)) :
    Traces (armsType infer span arms) (armsType infer' span arms) Γ
      (arms.flatMap fun p => K (Γ.bindAll? p.2) p.1.body) (fun _ => True) := by
  cases arms with
  | nil => exact .fail _
  | cons first rest =>
    rw [Check.armsType, Check.armsType, List.flatMap_cons]
    refine (ih.binding hΓ _ _).bind fun T _ => ?_
    refine (Traces.forM fun p => ?_).bind_asks fun _ => asks_pure T
    refine (ih.binding hΓ _ _).bind_asks fun U => ?_
    split
    · exact asks_pure ()
    · exact asks_fail _

end TracedParts

/-! ### one rule at a time -/

/-- The rule for a term, with parts that write a trace, beside the same with parts that do not. -/
abbrev RuleTraces (limit : Limit) (infer infer' : Term → Check Ty)
    (K : Option Context → Term → List (Term × Option Ty)) (Γ : Context) (t : Term) : Prop :=
  Traces (rule limit infer t) (rule limit infer' t) Γ
    ((premises infer' Γ t).flatMap fun p => K p.1 p.2) (fun _ => True)

variable {limit : Limit} {s : Option Span}

/-- A look-up writes nothing. -/
theorem traces_var (i : Int) (s : Option Span) : RuleTraces limit infer infer' K Γ (.var i s) := by
  refine .asks ((asks_ask _).bind fun r => ?_)
  split
  · exact asks_pure _
  · exact asks_fail _

/-- The body is checked with the resolved type of the parameter bound. -/
theorem traces_abs (ih : TracedParts infer infer' K) (hΓ : Γ.Good) (param : Ty) (body : Term) :
    RuleTraces limit infer infer' K Γ (.abs param body s) := by
  refine .asks_bind (asks_resolve param) fun A (hA : (resolve param).value? Γ = some A) => ?_
  rw [premises, hA]
  exact (ih.binding hΓ [A] body).bind fun B _ => .asks (asks_pure _)

/-- First the function, then the argument. -/
theorem traces_app (ih : TracedParts infer infer' K) (hΓ : Γ.Good) (fn arg : Term) :
    RuleTraces limit infer infer' K Γ (.app fn arg s) := by
  refine (ih.part hΓ fn).bind fun F _ => ?_
  refine (ih.part hΓ arg).bind fun A _ => .asks ?_
  split
  · exact (asks_expect _ _ _ _).bind fun _ => asks_pure _
  · exact asks_fail _

theorem traces_fix (ih : TracedParts infer infer' K) (hΓ : Γ.Good) (inner : Term) :
    RuleTraces limit infer infer' K Γ (.fix inner s) := by
  refine (ih.part hΓ inner).bind fun F _ => .asks ?_
  split
  · exact (asks_expect _ _ _ _).bind fun _ => asks_pure _
  · exact asks_fail _

/-- If the guard is refused, its lines are all that is written. -/
theorem traces_ite (ih : TracedParts infer infer' K) (hΓ : Γ.Good) (guard yes no : Term) :
    RuleTraces limit infer infer' K Γ (.ite guard yes no s) := by
  refine (ih.part hΓ guard).bind fun G _ => ?_
  split
  · refine (ih.part hΓ yes).bind fun A _ => ?_
    refine (ih.part hΓ no).bind fun B _ => .asks ?_
    split
    · exact asks_pure _
    · exact asks_fail _
  · exact .fail _

/-- The annotation is looked at first, and may be refused before anything is written. -/
theorem traces_inject (ih : TracedParts infer infer' K) (hΓ : Γ.Good) (label : String)
    (payload : Term) (ty : Ty) :
    RuleTraces limit infer infer' K Γ (.inject label payload ty s) := by
  refine .asks_bind (asks_resolve ty) fun V _ => ?_
  split
  · split
    · refine (ih.part hΓ payload).bind fun A _ => .asks ?_
      exact (asks_expect _ _ _ _).bind fun _ => asks_pure _
    · exact .fail _
  · exact .fail _

theorem traces_proj (ih : TracedParts infer infer' K) (hΓ : Γ.Good) (inner : Term) (i : Int) :
    RuleTraces limit infer infer' K Γ (.proj inner i s) := by
  refine (ih.part hΓ inner).bind fun X _ => .asks ?_
  split
  · split
    · exact asks_pure _
    · exact asks_fail _
  · exact asks_fail _

/-- The components, from left to right. -/
theorem traces_tuple (ih : TracedParts infer infer' K) (hΓ : Γ.Good) (items : List Term) :
    RuleTraces limit infer infer' K Γ (.tuple items s) := by
  have hitems : ((premises infer' Γ (.tuple items s)).flatMap fun p => K p.1 p.2) =
      items.flatMap (K (some Γ)) := by
    simp [premises, List.flatMap_map]
  rw [RuleTraces, hitems]
  exact (ih.mapM hΓ items).bind_asks fun _ => asks_pure _

/-- The body is checked with the type that is found for the bound term. -/
theorem traces_letIn (ih : TracedParts infer infer' K) (hΓ : Γ.Good) (bound body : Term) :
    RuleTraces limit infer infer' K Γ (.letIn bound body s) := by
  refine (ih bound Γ hΓ).bind fun A hA => ?_
  rw [hA]
  have hbody := ih.binding hΓ [A] body
  rwa [← List.append_nil (K _ body)] at hbody

/-- The body is checked in a scope of its own. -/
theorem traces_tyAbs (ih : TracedParts infer infer' K) (hΓ : Γ.Good) (body : Term) :
    RuleTraces limit infer infer' K Γ (.tyAbs body s) := by
  refine (Traces.inScope hΓ.balanced (ih.part hΓ.openScope body)).bind fun B _ => ?_
  exact .asks (asks_pure _)

/-- The argument is resolved first, and may be refused before anything is written. -/
theorem traces_tyApp (ih : TracedParts infer infer' K) (hΓ : Γ.Good) (inner : Term) (arg : Ty) :
    RuleTraces limit infer infer' K Γ (.tyApp inner arg s) := by
  refine .asks_bind (asks_resolve arg) fun A _ => ?_
  refine (ih.part hΓ inner).bind fun F _ => .asks ?_
  split
  · exact asks_instantiate _ _ _
  · exact asks_fail _

/-- The annotation is resolved and unrolled before the inner term is looked at. -/
theorem traces_roll (ih : TracedParts infer infer' K) (hΓ : Γ.Good) (ty : Ty) (inner : Term) :
    RuleTraces limit infer infer' K Γ (.roll ty inner s) := by
  refine .asks_bind (asks_resolve ty) fun R _ => ?_
  split
  · refine .asks_bind (asks_instantiate _ _ _) fun U _ => ?_
    refine (ih.part hΓ inner).bind fun A _ => .asks ?_
    exact (asks_expect _ _ _ _).bind fun _ => asks_pure _
  · exact .fail _

/-- The annotation is resolved before the inner term is looked at, and unrolled after it. -/
theorem traces_unroll (ih : TracedParts infer infer' K) (hΓ : Γ.Good) (ty : Ty) (inner : Term) :
    RuleTraces limit infer infer' K Γ (.unroll ty inner s) := by
  refine .asks_bind (asks_resolve ty) fun R _ => ?_
  split
  · refine (ih.part hΓ inner).bind fun A _ => .asks ?_
    exact (asks_expect _ _ _ _).bind fun _ => asks_instantiate _ _ _
  · exact .fail _

/-- Witness and annotation are resolved before the inner term is looked at. -/
theorem traces_pack (ih : TracedParts infer infer' K) (hΓ : Γ.Good) (witness : Ty) (inner : Term)
    (ty : Ty) : RuleTraces limit infer infer' K Γ (.pack witness inner ty s) := by
  refine .asks_bind (asks_resolve witness) fun W _ => ?_
  refine .asks_bind (asks_resolve ty) fun X _ => ?_
  split
  · refine .asks_bind (asks_instantiate _ _ _) fun U _ => ?_
    refine (ih.part hΓ inner).bind fun A _ => .asks ?_
    exact (asks_expect _ _ _ _).bind fun _ => asks_pure _
  · exact .fail _

/-- The body is checked in a scope of its own, with what the package hides bound there. -/
theorem traces_unpack (ih : TracedParts infer infer' K) (hΓ : Γ.Good) (package body : Term) :
    RuleTraces limit infer infer' K Γ (.unpack package body s) := by
  refine (ih package Γ hΓ).bind fun X hX => ?_
  split
  · next hidden =>
    rw [hX]
    refine (Traces.inScope hΓ.balanced (ih.binding hΓ.openScope [hidden] body)).bind ?_
    exact fun B _ => .asks (asks_lower _ _ _)
  · exact .fail _

/-- The arms are checked with the types that their patterns bind, once these are known. -/
theorem traces_caseOf (ih : TracedParts infer infer' K) (hΓ : Γ.Good) (scrutinee : Term)
    (arms : List (Arm Term)) : RuleTraces limit infer infer' K Γ (.caseOf scrutinee arms s) := by
  refine (ih scrutinee Γ hΓ).bind fun V hV => ?_
  split
  · next fields =>
    refine .asks_bind (asks_ofExcept _) fun bound hbound => ?_
    have harms :
        ((infer' scrutinee).value? Γ >>= fun V => armTypes? V s arms) = some bound := by
      rw [hV]
      exact toOption_mapError.symm.trans hbound
    rw [harms]
    have hzip := ih.armsType hΓ s (arms.zip bound)
    rwa [← List.flatMap_map (fun p : Arm Term × List Ty => (Γ.bindAll? p.2, p.1.body))
      fun p => K p.1 p.2] at hzip
  · exact .fail _

/-- One step: if the parts of a term are traced, so is what the rule does with them. -/
theorem rule_traces (limit : Limit) (ih : TracedParts infer infer' K) (hΓ : Γ.Good) (t : Term) :
    RuleTraces limit infer infer' K Γ t := by
  cases t with
  | hole => exact .fail _
  | lit value s => exact .asks (asks_pure _)
  | var i s => exact traces_var i s
  | abs param body s => exact traces_abs ih hΓ param body
  | app fn arg s => exact traces_app ih hΓ fn arg
  | fix inner s => exact traces_fix ih hΓ inner
  | ite guard yes no s => exact traces_ite ih hΓ guard yes no
  | inject label payload ty s => exact traces_inject ih hΓ label payload ty
  | proj inner i s => exact traces_proj ih hΓ inner i
  | tuple items s => exact traces_tuple ih hΓ items
  | letIn bound body s => exact traces_letIn ih hΓ bound body
  | tyAbs body s => exact traces_tyAbs ih hΓ body
  | tyApp inner arg s => exact traces_tyApp ih hΓ inner arg
  | roll ty inner s => exact traces_roll ih hΓ ty inner
  | unroll ty inner s => exact traces_unroll ih hΓ ty inner
  | pack witness inner ty s => exact traces_pack ih hΓ witness inner ty
  | unpack package body s => exact traces_unpack ih hΓ package body
  | caseOf scrutinee arms s => exact traces_caseOf ih hΓ scrutinee arms

end Check

/-! ## the checker -/

namespace Checker

open Check

/-- The checker with or without a trace. -/
def tracing (c : Checker) (on : Bool) : Checker :=
  { c with trace := on }

/-- Without a trace, inference is the rule and nothing else. -/
theorem infer_silent (c : Checker) (n : Nat) (t : Term) :
    (c.tracing false).infer (n + 1) t = rule c.limit ((c.tracing false).infer n) t := by
  simp [infer, tracing]

/-- At every level, a checker with a trace does what the one without does, and writes lines for what
is found. -/
theorem infer_traces (c : Checker) (n : Nat) :
    TracedParts ((c.tracing true).infer n) ((c.tracing false).infer n)
      ((c.tracing false).findings n) := by
  induction n with
  | zero => exact fun t Γ _ => .fail _
  | succ n ih =>
    intro t Γ hΓ
    refine Traces.value (P := fun _ => True) ?_
    have hrule := (rule_traces c.limit ih hΓ t).value
    rw [infer_silent, ← bind_pure (rule c.limit ((c.tracing false).infer n) t), findings]
    refine hrule.bind fun T hT => ?_
    refine .ok (a := T) [(t, T)] rfl rfl ?_ trivial
    rw [infer_silent, hT]
    rfl

/-- The last finding is the one for the term itself. -/
theorem getLast?_findings (c : Checker) (n : Nat) (Γ : Context) (t : Term) :
    (c.findings n (some Γ) t).getLast? = some (t, (c.infer n t).value? Γ) := by
  cases n with
  | zero =>
    rw [findings, t.postorder_eq, List.map_append]
    · simp only [List.map_cons, List.map_nil, List.getLast?_concat]
      rfl
    · simp
  | succ n => rw [findings, List.getLast?_concat]

/-- What is written at the end of a check that fails. -/
def notice : Fault → List Event
  | .type e => [.failed e]
  | _ => []

/-- A check that fails writes the error after all that inference has written. -/
theorem run_typeOf_of_fault {c : Checker} {t : Term} {e : Fault} {Γ Δ : Context}
    {log : List Event} (h : (c.infer c.limit.levels t).run Γ = ⟨.error e, Δ, log⟩) :
    (c.typeOf t).run Γ = ⟨.error (c.settle t e), Δ, log ++ notice (c.settle t e)⟩ := by
  simp only [run_typeOf, conclude, h]
  cases c.settle t e <;> simp [notice]

/-- With and without a trace, the check of a term gives the same type or fails in the same way. If
it gives a type, nothing is written without a trace. With a trace there is one line for each node of
the term in post-order, with the type that is found for the node; the last line is for the term. If
it fails with a type error, one line for the error is written last. Before it there are, with a
trace, lines for the first nodes in post-order, which all have got their types. -/
theorem typeOfClosed_trace (c : Checker) (t : Term) :
    ((c.tracing true).typeOfClosed t).result = ((c.tracing false).typeOfClosed t).result ∧
      (∀ T, ((c.tracing true).typeOfClosed t).result = .ok T →
        ((c.tracing false).typeOfClosed t).log = [] ∧
        ∃ done, ((c.tracing true).typeOfClosed t).log = Event.lines done ∧
          found done = (c.tracing false).findings c.limit.levels (some c.freshContext) t ∧
          done.map (·.1) = t.postorder ∧ done.getLast? = some (t, T)) ∧
      ∀ e, ((c.tracing true).typeOfClosed t).result = .error (.type e) →
        ((c.tracing false).typeOfClosed t).log = [.failed e] ∧
        ∃ done, ((c.tracing true).typeOfClosed t).log = Event.lines done ++ [.failed e] ∧
          found done <+: (c.tracing false).findings c.limit.levels (some c.freshContext) t ∧
          done.map (·.1) <+: t.postorder := by
  have hpost := (c.tracing false).map_fst_findings c.limit.levels (some c.freshContext) t
  have hgood : c.freshContext.Good := Context.good_fresh c.aliases c.limit
  cases c.infer_traces c.limit.levels t c.freshContext hgood with
  | @ok T done h h' hJ hT =>
    have hon : (c.tracing true).typeOfClosed t = ⟨.ok T, _, _⟩ := run_typeOf_of_ok h
    have hoff : (c.tracing false).typeOfClosed t = ⟨.ok T, _, _⟩ := run_typeOf_of_ok h'
    have hlast := (c.tracing false).getLast?_findings c.limit.levels c.freshContext t
    rw [← hJ, hT, found, List.getLast?_map, Option.map_eq_some_iff] at hlast
    obtain ⟨⟨u, V⟩, hlast, heq⟩ := hlast
    obtain ⟨rfl, hV⟩ := Prod.mk.inj heq
    obtain rfl := Option.some.inj hV
    refine ⟨by rw [hon, hoff], fun U hU => ?_, fun e he => ?_⟩
    · rw [hon] at hU
      obtain rfl := Except.ok.inj hU
      exact ⟨by rw [hoff], done, by rw [hon], hJ, by rw [← map_fst_found, hJ, hpost], hlast⟩
    · rw [hon] at he
      contradiction
  | @error e Δ done h h' hJ =>
    have hon : (c.tracing true).typeOfClosed t = ⟨.error (c.settle t e), _, _⟩ :=
      run_typeOf_of_fault h
    have hoff : (c.tracing false).typeOfClosed t = ⟨.error (c.settle t e), _, _⟩ :=
      run_typeOf_of_fault h'
    refine ⟨by rw [hon, hoff], fun T hT => ?_, fun e' he' => ?_⟩
    · rw [hon] at hT
      contradiction
    · rw [hon] at he'
      have hfault : c.settle t e = .type e' := Except.error.inj he'
      have hnotice : notice (c.settle t e) = [.failed e'] := by rw [hfault, notice]
      refine ⟨?_, done, ?_, hJ, ?_⟩
      · rw [hoff]
        exact hnotice
      · rw [hon]
        exact congrArg (Event.lines done ++ ·) hnotice
      · rw [← map_fst_found, ← hpost]
        exact hJ.map _

/-- A choice by a variable that is bound to a literal. -/
def letChoice (no : Term) : Term :=
  .letIn (.lit (.bool true) none) (.ite (.var 0 none) (.lit (.nat 1) none) no none) none

/-- A choice between two numbers has a type, and all its nodes are in the trace. A choice between a
number and a unit fails. -/
theorem typeOfClosed_trace_letChoice :
    ((tracing ⟨∅, ⟨9, none⟩, false⟩ true).typeOfClosed (letChoice (.lit (.nat 2) none))).result =
        .ok .nat ∧
      (∃ done, ((tracing ⟨∅, ⟨9, none⟩, false⟩ true).typeOfClosed
          (letChoice (.lit (.nat 2) none))).log = Event.lines done ∧
        done.map (·.1) = (letChoice (.lit (.nat 2) none)).postorder ∧
        done.getLast? = some (letChoice (.lit (.nat 2) none), .nat)) ∧
      ((tracing ⟨∅, ⟨9, none⟩, false⟩ true).typeOfClosed (letChoice (.lit .unit none))).result =
        .error (.type ⟨.arms .nat .unit, none⟩) ∧
      ((tracing ⟨∅, ⟨9, none⟩, false⟩ false).typeOfClosed (letChoice (.lit .unit none))).log =
        [.failed ⟨.arms .nat .unit, none⟩] ∧
      ∃ done, ((tracing ⟨∅, ⟨9, none⟩, false⟩ true).typeOfClosed
          (letChoice (.lit .unit none))).log =
            Event.lines done ++ [.failed ⟨.arms .nat .unit, none⟩] ∧
        done.map (·.1) <+: (letChoice (.lit .unit none)).postorder := by
  have hnat : ((tracing ⟨∅, ⟨9, none⟩, false⟩ true).typeOfClosed
      (letChoice (.lit (.nat 2) none))).result = .ok .nat := rfl
  have hunit : ((tracing ⟨∅, ⟨9, none⟩, false⟩ true).typeOfClosed
      (letChoice (.lit .unit none))).result = .error (.type ⟨.arms .nat .unit, none⟩) := rfl
  obtain ⟨-, hok, -⟩ := typeOfClosed_trace ⟨∅, ⟨9, none⟩, false⟩ (letChoice (.lit (.nat 2) none))
  obtain ⟨-, done, hlog, -, hnodes, hlast⟩ := hok .nat hnat
  obtain ⟨-, -, herror⟩ := typeOfClosed_trace ⟨∅, ⟨9, none⟩, false⟩ (letChoice (.lit .unit none))
  obtain ⟨hoff, done', hlog', -, hnodes'⟩ := herror _ hunit
  exact ⟨hnat, ⟨done, hlog, hnodes, hlast⟩, hunit, hoff, done', hlog', hnodes'⟩

/-- The line for the unit is the last one before the error. -/
example : ((tracing ⟨∅, ⟨9, none⟩, false⟩ true).typeOfClosed (letChoice (.lit .unit none))).log =
    [.rule "BoolLit" .bool, .rule "Var" .bool, .rule "NatLit" .nat, .rule "UnitLit" .unit,
      .failed ⟨.arms .nat .unit, none⟩] :=
  rfl

end Checker

end PolyLambda
