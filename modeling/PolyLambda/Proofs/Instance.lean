import PolyLambda.Proofs.Expansion
import PolyLambda.Proofs.Scope

/-!
# PolyLambda.Proofs.Instance

A polymorphic term may be instantiated before it is checked. What a term has as its type once it
has been abstracted over a type variable and applied to a type, it has as its type when the type
is put in the place of the variable wherever it is written, unless levels run out: the instance
may nest deeper than the two parts did.

The argument goes through the typing rules, in which types are compared up to conversion. A check
gives a derivation, the derivation is instantiated, and completeness gives a check again. Where
definitions are not well formed completeness is not to be had, so the whole argument takes place
after the expansion of aliases.

* `Term.retype` rewrites the types in a term, and `Term.instAt` is the case of an instance.
* `Typed.instAt` is the substitution lemma for type variables, and `Typed.tyBeta` what it says of a
  type abstraction that is applied.
* `Ty.Expands.replace`: the expansion of an instance is the instance of expansions.
* `Checker.typeOfClosed_instAt` is the statement for the checker.
-/

namespace PolyLambda

open Ty

/-! ## rewriting the types in a term -/

namespace Term

mutual
/-- Puts `f d T` in the place of each type `T` that is written under `d` type binders. -/
def retype (f : Nat → Ty → Ty) (d : Nat) : Term → Term
  | .hole => .hole
  | .lit value s => .lit value s
  | .var i s => .var i s
  | .abs T body s => .abs (f d T) (retype f d body) s
  | .app fn arg s => .app (retype f d fn) (retype f d arg) s
  | .fix inner s => .fix (retype f d inner) s
  | .ite guard yes no s => .ite (retype f d guard) (retype f d yes) (retype f d no) s
  | .inject label payload T s => .inject label (retype f d payload) (f d T) s
  | .proj inner i s => .proj (retype f d inner) i s
  | .tuple items s => .tuple (retypeItems f d items) s
  | .letIn bound body s => .letIn (retype f d bound) (retype f d body) s
  | .tyAbs body s => .tyAbs (retype f (d + 1) body) s
  | .tyApp inner T s => .tyApp (retype f d inner) (f d T) s
  | .roll T inner s => .roll (f d T) (retype f d inner) s
  | .unroll T inner s => .unroll (f d T) (retype f d inner) s
  | .pack W inner T s => .pack (f d W) (retype f d inner) (f d T) s
  | .unpack package body s => .unpack (retype f d package) (retype f (d + 1) body) s
  | .caseOf scrutinee arms s => .caseOf (retype f d scrutinee) (retypeArms f d arms) s

/-- Rewrites the types in the components of a tuple. -/
def retypeItems (f : Nat → Ty → Ty) (d : Nat) : List Term → List Term
  | [] => []
  | t :: rest => retype f d t :: retypeItems f d rest

/-- Rewrites the types in the arms of a case. -/
def retypeArms (f : Nat → Ty → Ty) (d : Nat) : List (Arm Term) → List (Arm Term)
  | [] => []
  | ⟨p, body, s⟩ :: rest => ⟨p, retype f d body, s⟩ :: retypeArms f d rest
end

/-- The instance of a term: `A`, lifted over the type binders passed, in the place of type variable
`k`. -/
def instAt (t : Term) (k : Nat) (A : Ty) : Term :=
  t.retype (fun d T => T.instAt d A) k

variable {f g : Nat → Ty → Ty} {d e : Nat} {t t' : Term}

theorem retypeItems_eq (items : List Term) :
    retypeItems f d items = items.map (retype f d) := by
  induction items with
  | nil => rfl
  | cons t rest ih => rw [retypeItems, ih, List.map_cons]

theorem retypeArms_eq (arms : List (Arm Term)) :
    retypeArms f d arms = arms.map fun a => ⟨a.pattern, a.body.retype f d, a.span⟩ := by
  induction arms with
  | nil => rfl
  | cons a rest ih => rw [retypeArms, ih, List.map_cons]

/-- Alike terms stay alike if related types are rewritten to related types. -/
theorem Alike.retype {A B : Nat → Ty → Ty → Prop} {S : Option Span → Option Span → Prop}
    {c d e : Nat} (h : t.Alike A S c t')
    (hAB : ∀ k T T', A (c + k) T T' → B (d + k) (f (e + k) T) (g (e + k) T')) :
    (t.retype f e).Alike B S d (t'.retype g e) := by
  induction h generalizing d e with
  | lit hs => exact .lit hs
  | var hs => exact .var hs
  | abs hT _ hs ih => exact .abs (hAB 0 _ _ hT) (ih hAB) hs
  | app _ _ hs ihf iha => exact .app (ihf hAB) (iha hAB) hs
  | fix _ hs ih => exact .fix (ih hAB) hs
  | ite _ _ _ hs ihg ihy ihn => exact .ite (ihg hAB) (ihy hAB) (ihn hAB) hs
  | inject _ hT hs ih => exact .inject (ih hAB) (hAB 0 _ _ hT) hs
  | proj _ hs ih => exact .proj (ih hAB) hs
  | tuple hlen _ hs ih =>
    rw [Term.retype, Term.retype, retypeItems_eq, retypeItems_eq]
    refine .tuple (by simpa using hlen) (fun u u' hu => ?_) hs
    obtain ⟨v, v', hv, rfl, rfl⟩ := mem_zip_map.1 hu
    exact ih v v' hv hAB
  | letIn _ _ hs ihb ih => exact .letIn (ihb hAB) (ih hAB) hs
  | tyAbs _ hs ih =>
    exact .tyAbs (ih fun k T T' => by simpa only [Nat.add_assoc] using hAB (1 + k) T T') hs
  | tyApp _ hT hs ih => exact .tyApp (ih hAB) (hAB 0 _ _ hT) hs
  | roll hT _ hs ih => exact .roll (hAB 0 _ _ hT) (ih hAB) hs
  | unroll hT _ hs ih => exact .unroll (hAB 0 _ _ hT) (ih hAB) hs
  | pack hW _ hT hs ih => exact .pack (hAB 0 _ _ hW) (ih hAB) (hAB 0 _ _ hT) hs
  | unpack _ _ hs ihp ih =>
    exact .unpack (ihp hAB)
      (ih fun k T T' => by simpa only [Nat.add_assoc] using hAB (1 + k) T T') hs
  | caseOf _ ha _ hs ihs ih =>
    rw [Term.retype, Term.retype, retypeArms_eq, retypeArms_eq]
    refine .caseOf (ihs hAB) ?_ (fun a a' haa => ?_) hs
    · rwa [List.forall₂_map_left_iff, List.forall₂_map_right_iff]
    · obtain ⟨b, b', hb, rfl, rfl⟩ := mem_zip_map.1 haa
      exact ih b b' hb hAB

/-- A term that is alike to another is well formed, if the types in it are. -/
theorem Alike.wellFormed {S : Option Span → Option Span → Prop}
    (h : t.Alike (fun _ _ T' => T'.WellFormed) S d t') : t'.WellFormed := by
  induction h with
  | @tuple _ items items' _ _ hlen _ _ ih =>
    have hitems : List.Forall₂ (fun _ u' : Term => u'.WellFormed) items items' :=
      List.forall₂_iff_zip.2 ⟨hlen, fun hu => ih _ _ hu⟩
    refine ⟨nofun, by simp, fun u hu => ?_⟩
    obtain ⟨_, -, hwf⟩ := exists_of_forall₂_right hitems (by simpa using hu)
    exact hwf
  | @caseOf _ scrutinee scrutinee' arms arms' _ _ _ ha _ _ ihs ih =>
    have harms : List.Forall₂ (fun _ a' : Arm Term => a'.body.WellFormed) arms arms' :=
      List.forall₂_iff_zip.2 ⟨ha.length_eq, fun hu => ih _ _ hu⟩
    have hbody : ∀ a ∈ arms', a.body.WellFormed := by
      intro a hmem
      obtain ⟨_, -, hwf⟩ := exists_of_forall₂_right harms hmem
      exact hwf
    exact ⟨nofun, by simp, by simpa using ⟨ihs, hbody⟩⟩
  | _ => exact ⟨nofun, by simp_all, by simp_all⟩

end Term

/-! ## instances of derivations -/

namespace Telescope

/-- `Δ'` is `Δ` without the scope of type variable `k`, in the place of which `A` stands. -/
inductive Inst (A : Ty) : Nat → Telescope → Telescope → Prop where
  | here {Δ : Telescope} : Inst A 0 (.scope :: Δ) Δ
  | term {k : Nat} {Δ Δ' : Telescope} {T : Ty} (h : Inst A k Δ Δ') :
      Inst A k (.term T :: Δ) (.term (T.instAt k A) :: Δ')
  | scope {k : Nat} {Δ Δ' : Telescope} (h : Inst A k Δ Δ') :
      Inst A (k + 1) (.scope :: Δ) (.scope :: Δ')

namespace Inst

variable {A T : Ty} {k i : Nat} {Δ Δ' : Telescope}

/-- The types of the variables are instances. -/
theorem lookup (h : Inst A k Δ Δ') (hT : Δ.lookup i = some T) :
    Δ'.lookup i = some (T.instAt k A) := by
  induction h generalizing i T with
  | here =>
    obtain ⟨S, hS, rfl⟩ := Option.map_eq_some_iff.1 hT
    -- a type from outside the scope does not mention its variable
    have hinst : (S.lift 1 0).instAt 0 A = S := inst_lift S
    rw [hinst, hS]
  | term _ ih =>
    cases i with
    | zero =>
      obtain rfl := Option.some.inj hT
      rfl
    | succ i => exact ih hT
  | @scope k Δ Δ' _ ih =>
    obtain ⟨S, hS, rfl⟩ := Option.map_eq_some_iff.1 hT
    rw [Telescope.lookup, ih hS, Option.map_some, instAt_lift_comm (Nat.zero_le k)]

/-- Variables may be bound on both sides, of corresponding types. -/
theorem bind (h : Inst A k Δ Δ') (Ts : List Ty) :
    Inst A k (Δ.bind Ts) (Δ'.bind (Ts.map (·.instAt k A))) := by
  induction Ts generalizing Δ Δ' with
  | nil => exact h
  | cons T Ts ih => exact ih h.term

end Inst

end Telescope

namespace Pattern

variable {R R' : Ty → Ty → Prop} {F : Ty → Ty}

/-- Patterns take types apart in the same way after a change of the types that keeps products. -/
theorem Binds.map (hF : ∀ {T Vs}, R T (.product Vs) → R' (F T) (.product (Vs.map F)))
    {ps : List Pattern} {Ts Us : List Ty} (h : Binds R ps Ts Us) :
    Binds R' ps (Ts.map F) (Us.map F) := by
  induction h with
  | nil => exact .nil
  | wild _ ih => exact .wild ih
  | bind _ ih => exact .bind ih
  | product hT _ _ ihqs ih =>
    rw [List.map_append]
    exact .product (hF hT) ihqs ih

/-- Patterns match images of types as they match the types. -/
theorem Opens.map (hF : ∀ {T Vs}, R T (.product Vs) → R' (F T) (.product (Vs.map F)))
    {fields gs : List (Field Ty)} (hV : F (.variant fields) = .variant gs)
    (hgs : ∀ g ∈ fields, ⟨g.label, F g.ty⟩ ∈ gs) {p : Pattern} {Us : List Ty}
    (h : Opens R fields p Us) : Opens R' gs p (Us.map F) := by
  cases h with
  | wild => exact .wild
  | bind =>
    rw [List.map_singleton, hV]
    exact .bind
  | con hl h => exact .con (hgs _ hl) (h.map hF)

end Pattern

namespace Ty

variable {aliases : Aliases} {A B T U : Ty} {c : Nat}

theorem instAt_product (Ts : List Ty) :
    (Ty.product Ts).instAt c A = .product (Ts.map (·.instAt c A)) := by
  rw [instAt, replace, replaceItems_eq]
  rfl

theorem instAt_variant (fields : List (Field Ty)) :
    (Ty.variant fields).instAt c A =
      .variant (fields.map fun g => ⟨g.label, g.ty.instAt c A⟩) := by
  rw [instAt, replace, replaceFields_eq]
  rfl

theorem mem_instAt_fields {fields : List (Field Ty)} {g : Field Ty} (hg : g ∈ fields) :
    (⟨g.label, g.ty.instAt c A⟩ : Field Ty) ∈
      fields.map fun g => (⟨g.label, g.ty.instAt c A⟩ : Field Ty) :=
  List.mem_map.2 ⟨g, hg, rfl⟩

/-- Convertible types have convertible instances. -/
theorem Conv.instAt (hcl : aliases.Closed) (h : Conv aliases T U) (c : Nat) (A : Ty) :
    Conv aliases (T.instAt c A) (U.instAt c A) :=
  h.map (f := fun V => V.instAt c A) fun hstep =>
    ((Par.of_step hstep).instAt hcl (.refl A)).conv

/-- The bodies of convertible binders are convertible. -/
theorem Conv.body (hcl : aliases.Closed) {b : Binder}
    (h : Conv aliases (.binder b T) (.binder b U)) : Conv aliases T U := by
  have hrigid : ∀ V, (Ty.binder b V).Rigid aliases := fun V => ⟨nofun, nofun⟩
  obtain ⟨V, hT, hU⟩ := h.join hcl
  obtain ⟨hs, hcT⟩ := hT.rigid (hrigid T)
  obtain ⟨-, hcU⟩ := hU.rigid (hrigid U)
  cases V <;> simp only [shape, reduceCtorEq] at hs
  obtain ⟨hTV, -⟩ := List.forall₂_cons.1 hcT
  obtain ⟨hUV, -⟩ := List.forall₂_cons.1 hcU
  exact (Conv.of_steps hTV).trans (Conv.of_steps hUV).symm

end Ty

namespace Typed

open Telescope

variable {aliases : Aliases} {Δ Δ' : Telescope} {t : Term} {A T U : Ty} {k : Nat}
  {s s' : Option Span}

/-- Patterns of arms open the instance of a variant, and the types at their variables are
instances. -/
theorem opens_instAt (hcl : aliases.Closed) {fields : List (Field Ty)} {p : Pattern}
    {Ts : List Ty} (h : p.Opens (Conv aliases) fields Ts) :
    p.Opens (Conv aliases) (fields.map fun g => (⟨g.label, g.ty.instAt k A⟩ : Field Ty))
      (Ts.map (·.instAt k A)) := by
  refine h.map (F := (·.instAt k A)) (fun hT => ?_) (instAt_variant fields) fun g hg =>
    mem_instAt_fields hg
  rw [← instAt_product]
  exact hT.instAt hcl k A

/-- The substitution lemma for type variables. The induction is over the derivation; each rule
shifts the place of the variable as it opens scopes. -/
theorem instAt (hcl : aliases.Closed) (h : Typed aliases Δ t T) (hΔ : Inst A k Δ Δ') :
    Typed aliases Δ' (t.instAt k A) (T.instAt k A) := by
  induction h generalizing k Δ' with
  | @lit _ value _ =>
    have hclosed : value.ty.instAt k A = value.ty := by
      cases value with
      | prim op => cases op <;> rfl
      | _ => rfl
    rw [hclosed]
    exact .lit
  | var hi => exact .var (hΔ.lookup hi)
  | abs _ ih => exact .abs (ih hΔ.term)
  | app _ _ ihf iha => exact .app (ihf hΔ) (iha hΔ)
  | fix _ ih => exact .fix (ih hΔ)
  | ite _ _ _ ihg ihy ihn => exact .ite (ihg hΔ) (ihy hΔ) (ihn hΔ)
  | inject hV hl _ ih =>
    have hV' := hV.instAt hcl k A
    rw [instAt_variant] at hV'
    exact .inject hV' (mem_instAt_fields hl) (ih hΔ)
  | proj _ hi ih =>
    have hp := ih hΔ
    rw [instAt_product] at hp
    exact .proj hp (by rw [List.getElem?_map, hi, Option.map_some])
  | @tuple _ Ts items _ hlen _ ih =>
    rw [instAt_product, Term.instAt, Term.retype, Term.retypeItems_eq]
    refine .tuple (by simpa using hlen) fun u S hu => ?_
    obtain ⟨v, V, hv, rfl, rfl⟩ := mem_zip_map.1 hu
    exact ih v V hv hΔ
  | letIn _ _ ihb ih => exact .letIn (ihb hΔ) (ih hΔ.term)
  | tyAbs _ ih => exact .tyAbs (ih hΔ.scope)
  | @tyApp _ X B _ _ _ ih =>
    rw [instAt_inst]
    exact .tyApp (ih hΔ)
  | @roll _ R B _ _ hR _ ih =>
    have hi := ih hΔ
    rw [instAt_inst] at hi
    exact .roll (hR.instAt hcl k A) hi
  | @unroll _ R B _ _ hR _ ih =>
    rw [instAt_inst]
    exact .unroll (hR.instAt hcl k A) (ih hΔ)
  | @pack _ W E B _ _ hE _ ih =>
    have hi := ih hΔ
    rw [instAt_inst] at hi
    exact .pack (hE.instAt hcl k A) hi
  | @unpack _ B C _ _ _ _ _ ihp ih =>
    have hb := ih hΔ.scope.term
    rw [instAt_lift_comm (Nat.zero_le k)] at hb
    exact .unpack (ihp hΔ) hb
  | @caseOf _ C fields scrutinee arms bound _ _ hcov hb _ ihs ih =>
    have hs := ihs hΔ
    rw [instAt_variant] at hs
    rw [Term.instAt, Term.retype, Term.retypeArms_eq]
    have hopens : List.Forall₂ (fun a Ts => a.pattern.Opens (Conv aliases)
        (fields.map fun g => (⟨g.label, g.ty.instAt k A⟩ : Field Ty)) Ts)
        (arms.map fun a => (⟨a.pattern, a.body.instAt k A, a.span⟩ : Arm Term))
        (bound.map fun Ts => Ts.map (·.instAt k A)) := by
      rw [List.forall₂_map_left_iff, List.forall₂_map_right_iff]
      exact hb.imp fun a Ts ho => opens_instAt hcl ho
    refine .caseOf hs ?_ hopens fun a Ts ha => ?_
    · simpa [labels, Function.comp_def] using hcov
    · obtain ⟨b, Us, hmem, rfl, rfl⟩ := mem_zip_map.1 ha
      exact ih b Us hmem (hΔ.bind Us)
  | conv _ hAB ih => exact .conv (ih hΔ) (hAB.instAt hcl k A)

/-- What is applied to a type is universal, and the type of the application is an instance. -/
theorem tyApp_inv {inner : Term} (h : Typed aliases Δ (.tyApp inner A s) T) :
    ∃ B, Typed aliases Δ inner (.binder .all B) ∧ Conv aliases (B.inst A) T := by
  generalize ht : Term.tyApp inner A s = t at h
  induction h with
  | @tyApp _ _ B _ _ h _ =>
    obtain ⟨rfl, rfl, rfl⟩ := Term.tyApp.inj ht
    exact ⟨B, h, .refl _⟩
  | conv _ hAB ih =>
    obtain ⟨B, hB, hconv⟩ := ih ht
    exact ⟨B, hB, hconv.trans hAB⟩
  | _ => contradiction

/-- A type abstraction is universal, and its body has a type in a scope. -/
theorem tyAbs_inv {body : Term} (h : Typed aliases Δ (.tyAbs body s) T) :
    ∃ B, Typed aliases (.scope :: Δ) body B ∧ Conv aliases (.binder .all B) T := by
  generalize ht : Term.tyAbs body s = t at h
  induction h with
  | @tyAbs _ B _ _ h _ =>
    obtain ⟨rfl, rfl⟩ := Term.tyAbs.inj ht
    exact ⟨B, h, .refl _⟩
  | conv _ hAB ih =>
    obtain ⟨B, hB, hconv⟩ := ih ht
    exact ⟨B, hB, hconv.trans hAB⟩
  | _ => contradiction

/-- A type abstraction that is applied has the types of its instance. -/
theorem tyBeta (hcl : aliases.Closed) (h : Typed aliases Δ (.tyApp (.tyAbs t s) A s') T) :
    Typed aliases Δ (t.instAt 0 A) T := by
  obtain ⟨B, hfn, hT⟩ := h.tyApp_inv
  obtain ⟨C, hbody, hall⟩ := hfn.tyAbs_inv
  have hinst : Typed aliases Δ (t.instAt 0 A) (C.inst A) := hbody.instAt hcl .here
  exact .conv hinst ((Conv.inst hcl (hall.body hcl) (.refl A)).trans hT)

end Typed

/-! ## instances and expansions -/

namespace Ty

variable {aliases : Aliases} {A B T U : Ty} {n m c : Nat} {f g : Nat → Int → Ty}

namespace Expands

/-- What can be expanded with some levels can be expanded with more. -/
theorem mono (h : Expands aliases n T U) (hnm : n ≤ m) : Expands aliases m T U := by
  induction h generalizing m with
  | name hd _ ih =>
    obtain ⟨m, rfl⟩ := Nat.exists_eq_succ_of_ne_zero (Nat.ne_zero_of_lt hnm)
    exact .name hd (ih (Nat.le_of_succ_le_succ hnm))
  | node hp hu hs _ ih =>
    obtain ⟨m, rfl⟩ := Nat.exists_eq_succ_of_ne_zero (Nat.ne_zero_of_lt hnm)
    exact .node hp hu hs fun A B hAB => ih A B hAB (Nat.le_of_succ_le_succ hnm)

theorem var (i : Int) : Expands aliases 1 (.var i) (.var i) :=
  .node (proper_var i) (by simp [Unknown, shape]) rfl (by simp [children])

/-- Replacing variables commutes with expanding, if expansions are put in the place of what is
expanded. Definitions are closed, so that there is nothing to replace in them. -/
theorem replace (hcl : aliases.Closed) (hg : ∀ (c : Nat) (i : Int), i < c → g c i = .var i)
    (hfg : ∀ c i, Expands aliases m (f c i) (g c i)) (h : Expands aliases n T U) :
    Expands aliases (n + m) (T.replace f c) (U.replace g c) := by
  induction h generalizing c with
  | @name n name T U hd h _ =>
    have hU : U.Scoped 0 := Steps.scoped hcl h.steps (hcl name T hd)
    rw [hU.replace_eq (Nat.zero_le c) hg, Nat.add_right_comm]
    exact .name hd (h.mono (Nat.le_add_right n m))
  | @node n T U hp hu hs _ ih =>
    by_cases hT : ∃ i, T.shape = .var i
    · obtain ⟨i, hi⟩ := hT
      obtain rfl := eq_of_shape_var hi
      rw [Par.eq_of_var hs]
      exact (hfg c _).mono (Nat.le_add_left m (n + 1))
    · have hT' := not_exists.1 hT
      have hU' : ∀ i, U.shape ≠ .var i := hs ▸ hT'
      rw [Nat.add_right_comm]
      refine .node ?_ ?_ ?_ fun X Y hXY => ?_
      · rwa [shape_replace hT']
      · rwa [shape_replace hT']
      · rw [shape_replace hT', shape_replace hU', hs]
      · rw [children_replace hT', children_replace hU', ← hs] at hXY
        obtain ⟨V, W, hVW, rfl, rfl⟩ := mem_zip_map.1 hXY
        exact ih V W hVW

/-- A lifted type is expanded to the lifted expansion. -/
theorem lift (hcl : aliases.Closed) (h : Expands aliases n T U) (k c : Nat) :
    Expands aliases (n + 1) (T.lift k c) (U.lift k c) := by
  refine h.replace hcl (fun _ _ hi => if_pos hi) fun c i => ?_
  unfold liftVar
  split <;> exact .var _

/-- The expansion of an instance is the instance of expansions. -/
theorem instAt (hcl : aliases.Closed) (h : Expands aliases n T U) (hA : Expands aliases m A B)
    (c : Nat) : Expands aliases (n + (m + 1)) (T.instAt c A) (U.instAt c B) := by
  have hvar : ∀ i, Expands aliases (m + 1) (.var i) (.var i) := fun i =>
    (var i).mono (Nat.le_add_left 1 m)
  refine h.replace hcl (fun _ _ hi => if_pos hi) fun c i => ?_
  unfold instVar
  split
  · exact hvar i
  · split
    · exact hA.lift hcl c 0
    · exact hvar (i - 1)

/-- With any number of levels the expansion is found, or levels run out. -/
theorem expand_cases (h : Expands aliases m T U) (n : Nat) :
    T.expand aliases n = .ok U ∨ T.expand aliases n = .error .tooDeep := by
  induction h generalizing n with
  | name hd _ ih =>
    cases n with
    | zero => exact .inr rfl
    | succ n =>
      rw [expand, hd]
      exact ih n
  | @node _ T U hp hu hs _ ih =>
    cases n with
    | zero => exact .inr rfl
    | succ n =>
      have hparts : List.Forall₂ (fun A B => A.expand aliases n = .ok B ∨
          A.expand aliases n = .error .tooDeep) T.children U.children :=
        forall₂_children hs fun A B hAB => ih A B hAB n
      by_cases hn : ∃ name, T.shape = .named name
      · obtain ⟨name, hname⟩ := hn
        rw [eq_of_shape_named hname, eq_of_shape_named (hs.symm.trans hname)]
        exact .inl (expand_unknown (hu name hname))
      · rw [expand_node hp.1 (not_exists.1 hn)]
        cases hr : T.mapParts fun _ V => V.expand aliases n with
        | ok V =>
          -- all parts have been expanded, so none of them ran out of levels
          have hok : List.Forall₂ (fun A B => A.expand aliases n = .ok B)
              T.children U.children := by
            refine forall₂_children hs fun A B hAB => ?_
            obtain ⟨B', -, hB'⟩ :=
              exists_of_forall₂_left (mapParts_eq_ok.1 hr).2.2 (List.of_mem_zip hAB).1
            obtain hB | hB := ih A B hAB n
            · exact hB
            · simp [hB] at hB'
          exact .inl (hr.symm.trans (mapParts_eq_ok.2 ⟨hp.2, hs.symm, hok⟩))
        | error e =>
          obtain ⟨A, hA, he⟩ := mapParts_eq_error hp.2 hr
          obtain ⟨B, -, hB | hB⟩ := exists_of_forall₂_left hparts hA
          · simp [hB] at he
          · rw [hB] at he
            rw [← Except.error.inj he]
            exact .inr rfl

end Expands

end Ty

/-! ## the checker -/

namespace Checker

open Check

/-- What the checker gives for a term in a context of its own can be derived, if definitions are
closed. -/
theorem typed_of_typeOfClosed {c : Checker} (hcl : c.aliases.Closed) {t : Term} {T : Ty}
    (h : (c.typeOfClosed t).result = .ok T) :
    Typed c.aliases [] t T ∧ T.Resolved c.aliases := by
  have hsees : Sees c.freshContext [] := ⟨hcl, Context.good_fresh c.aliases c.limit, .nil⟩
  obtain ⟨hinferred, htyped⟩ :=
    (c.infer_typed c.limit.levels t c.freshContext [] hsees).of_ok (typeOf_eq_ok.1 h)
  exact ⟨htyped, hinferred.resolved⟩

/-- Over well-formed closed definitions, a resolved type that can be derived is inferred, unless
levels run out. -/
theorem infer_of_typed {c : Checker} (hcl : c.aliases.Closed) (hal : c.aliases.WellFormed)
    {t : Term} (ht : t.WellFormed) {T : Ty} (h : Typed c.aliases [] t T)
    (hT : T.Resolved c.aliases) :
    ((c.infer c.limit.levels t).run c.freshContext).result = .ok T ∨
      ∃ e, ((c.infer c.limit.levels t).run c.freshContext).result = .error e ∧ e.Exhausted := by
  have hsees : Sees c.freshContext [] := ⟨hcl, Context.good_fresh c.aliases c.limit, .nil⟩
  have hready : Ready True Fault.Exhausted c.freshContext t :=
    ⟨hsees.good, fun _ => ⟨hal, ht⟩, fun _ => Limit.overrun_exhausted⟩
  cases infer_complete h c.limit.levels c.freshContext rfl hsees hready with
  | ok hrun hU =>
    have heq := hU.2.eq_of_resolved hcl hT hU.1.resolved
    exact .inl (by rw [hrun, heq])
  | error hrun he => exact .inr ⟨_, by rw [hrun], (he trivial).2⟩

/-- The instance of a term beside the instance of its expansion. -/
theorem alike_instAt {c : Checker} (hcl : c.aliases.Closed) {t t' : Term} {A A' : Ty} {d : Nat}
    (ht : t.Alike (fun _ T T' => T.expand c.aliases c.limit.levels = .ok T') Eq d t')
    (hA : A.expand c.aliases c.limit.levels = .ok A') :
    (Coupling.expanded True c.limit c.aliases).Terms 0 (t.instAt 0 A) (t'.instAt 0 A') ∧
      (t'.instAt 0 A').WellFormed := by
  have hexp : ∀ {k : Nat} {T T' : Ty}, T.expand c.aliases c.limit.levels = .ok T' →
      ∃ n, Expands c.aliases n (T.instAt k A) (T'.instAt k A') := fun hT =>
    ⟨_, (expands_of_ok hT).instAt hcl (expands_of_ok hA) _⟩
  constructor
  · refine ht.retype fun k T T' hT => ?_
    obtain ⟨n, hn⟩ := hexp hT
    obtain h | h := hn.expand_cases c.limit.levels
    · exact .inl h
    · exact .inr ⟨trivial, h⟩
  · have hwf : (t.instAt 0 A).Alike (fun _ _ T' => T'.WellFormed) Eq 0 (t'.instAt 0 A') := by
      refine ht.retype fun k T T' hT => ?_
      obtain ⟨n, hn⟩ := hexp hT
      exact hn.wellFormed
    exact hwf.wellFormed

/-- If the check without aliases gives a type or runs out of levels, the check with aliases gives
the same type or runs out of levels. -/
theorem typeOfClosed_of_bare {c : Checker} {t t' : Term} {U : Ty}
    (ht : (Coupling.expanded True c.limit c.aliases).Terms 0 t t')
    (h : ((c.bare.infer c.limit.levels t').run c.bare.freshContext).result = .ok U ∨
      ∃ e, ((c.bare.infer c.limit.levels t').run c.bare.freshContext).result = .error e ∧
        e.Exhausted) :
    (c.typeOfClosed t).result = .ok U ∨
      ∃ depth span, (c.typeOfClosed t).result = .error (.type ⟨.tooDeep depth, span⟩) := by
  cases c.infer_expanded True ht with
  | ok hrun hrun' _ =>
    rw [hrun'] at h
    obtain hU | ⟨e, he, -⟩ := h
    · obtain rfl := Except.ok.inj hU
      exact .inl (typeOf_eq_ok.2 (by rw [hrun]))
    · contradiction
  | stop hrun he =>
    obtain he | ⟨-, -, hex⟩ := he
    · contradiction
    · exact .inr (typeOf_exhausted (congrArg Outcome.result hrun) hex)
  | @error e e' _ _ hrun hrun' he =>
    rw [hrun'] at h
    obtain he | ⟨-, he, -⟩ := he
    · obtain rfl : e' = e := Option.some.inj he
      obtain hU | ⟨f, hf, hex⟩ := h
      · contradiction
      · obtain rfl := Except.error.inj hf
        exact .inr (typeOf_exhausted (congrArg Outcome.result hrun) hex)
    · contradiction

/-- If a type abstraction that is applied has a type, its instance has the same type, unless levels
run out. -/
theorem typeOfClosed_instAt (c : Checker) (hcl : c.aliases.Closed) {t : Term} {A U : Ty}
    {s s' : Option Span} (h : (c.typeOfClosed (.tyApp (.tyAbs t s) A s')).result = .ok U) :
    (c.typeOfClosed (t.instAt 0 A)).result = .ok U ∨
      ∃ depth span, (c.typeOfClosed (t.instAt 0 A)).result =
        .error (.type ⟨.tooDeep depth, span⟩) := by
  obtain ⟨whole, hwhole⟩ := c.exists_expandTerm h
  have hbare : (c.bare.typeOfClosed whole).result = .ok U := (c.typeOfClosed_bare hwhole).trans h
  obtain ⟨htyped, hres⟩ := typed_of_typeOfClosed Aliases.closed_empty hbare
  have halike : Term.Alike (fun _ T T' => T.expand c.aliases c.limit.levels = .ok T') Eq 0
      (.tyApp (.tyAbs t s) A s') whole :=
    Term.mapTypes_alike (fun hT => mapError_eq_ok.1 hT) (fun _ => rfl) hwhole
  -- the expansion is again a type abstraction that is applied
  cases halike with
  | tyApp hinner hA _ =>
    cases hinner with
    | tyAbs ht _ =>
      obtain ⟨hterms, hwf⟩ := alike_instAt hcl ht hA
      have hinst := htyped.tyBeta Aliases.closed_empty
      exact typeOfClosed_of_bare hterms
        (infer_of_typed Aliases.closed_empty Aliases.wellFormed_empty hwf hinst hres)

/-- Inside a type abstraction, a function that packs its argument, opens the package again and gives
a function on the type of the argument. That type is the type variable outside the abstraction,
which is written `1`, and `2` where the package is open. -/
def packing : Term :=
  .tyAbs (.abs (.var 1) (.unpack (.pack (.var 1) (.var 0 none) (.binder .ex (.var 0)) none)
    (.abs (.var 2) (.var 2 none) none) none) none) none

/-- The function at the numbers. Nine levels suffice for the instance, too. -/
theorem typeOfClosed_instAt_packing :
    numbers.Closed ∧
      (typeOfClosed ⟨numbers, ⟨9, none⟩, false⟩
        (.tyApp (.tyAbs packing none) (.named "N") none)).result =
        .ok (.binder .all (.arrow .nat (.arrow .nat .nat))) ∧
      (typeOfClosed ⟨numbers, ⟨9, none⟩, false⟩ (packing.instAt 0 (.named "N"))).result =
        .ok (.binder .all (.arrow .nat (.arrow .nat .nat))) := by
  have hwhole : (typeOfClosed ⟨numbers, ⟨9, none⟩, false⟩
      (.tyApp (.tyAbs packing none) (.named "N") none)).result =
      .ok (.binder .all (.arrow .nat (.arrow .nat .nat))) := rfl
  have hlevels : (typeOfClosed ⟨numbers, ⟨9, none⟩, false⟩
      (packing.instAt 0 (.named "N"))).result.isOk = true := rfl
  refine ⟨numbers_closed, hwhole, ?_⟩
  obtain hinst | ⟨_, _, herror⟩ := typeOfClosed_instAt _ numbers_closed hwhole
  · exact hinst
  · rw [herror] at hlevels
    exact absurd hlevels Bool.false_ne_true

end Checker

end PolyLambda
