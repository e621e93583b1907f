import PolyLambda.Proofs.Reduction

/-!
# PolyLambda.Proofs.Confluence

Computation with types is confluent, whether or not it ends. The proof goes through parallel
steps, which carry out any set of the applications and definitions that a type shows, and
through the development, which carries out all of them: whatever a parallel step leaves over
is made up for by one further parallel step to the development.

* `Ty.Par` is the parallel step, `Ty.develop` the development, `Ty.Par.triangle` the link.
* `Ty.Conv.join`: convertible types have a common reduct. This needs closed definitions, since
  a definition is put under binders as it stands.
* `Ty.Conv.steps_of_resolved` and `Ty.Conv.eq_of_resolved`: what is convertible with a resolved
  type computes to it, and convertible resolved types are equal.
* `Ty.Conv.rigid`, with `Ty.Conv.arrow_inv` and its like: type formers are injective.
* `Ty.Conv.lift` and `Ty.Conv.inst`: conversion is kept by lifting and by instantiation.
* `Ty.Steps.of_lift`: what a lifted type computes to is lifted.
-/

namespace PolyLambda.Ty

open Relation

variable {aliases : Aliases} {T T' U A A' B body body' : Ty} {c k : Nat}

/-! ## parallel steps -/

/-- Any number of the steps that a type shows, carried out at once. -/
inductive Par (aliases : Aliases) : Ty → Ty → Prop where
  | node {T U : Ty} (hs : T.shape = U.shape)
      (hc : ∀ A B, (A, B) ∈ T.children.zip U.children → Par aliases A B) : Par aliases T U
  | beta (kind : Kind) {body body' A A' : Ty} (hb : Par aliases body body')
      (hA : Par aliases A A') :
      Par aliases (.app (.binder (.op kind) body) A) (body'.inst A')
  | unfold {name : String} {T : Ty} (h : aliases.definition? name = some T) :
      Par aliases (.named name) T

namespace Par

/-- Computing in all children at once is computing in the node. -/
theorem of_children (hs : T.shape = U.shape)
    (hc : List.Forall₂ (Par aliases) T.children U.children) : Par aliases T U :=
  .node hs fun _ _ h => List.forall₂_zip hc h

/-- Nothing needs to be computed. -/
theorem refl (T : Ty) : Par aliases T T := by
  induction T using byChildren with
  | node T ih => exact of_children rfl (List.forall₂_same.2 ih)

/-- Induction over parallel steps, with the types below a node in pairs. -/
theorem induct {motive : (T U : Ty) → Par aliases T U → Prop}
    (node : ∀ {T U : Ty} (h : Par aliases T U), T.shape = U.shape →
      List.Forall₂ (fun A B => ∃ hAB : Par aliases A B, motive A B hAB) T.children U.children →
      motive T U h)
    (beta : ∀ (kind : Kind) {body body' A A' : Ty} (hb : Par aliases body body')
      (hA : Par aliases A A'), motive body body' hb → motive A A' hA →
      motive (.app (.binder (.op kind) body) A) (body'.inst A') (.beta kind hb hA))
    (unfold : ∀ {name : String} {T : Ty} (h : aliases.definition? name = some T),
      motive (.named name) T (.unfold h)) {T U : Ty} (h : Par aliases T U) : motive T U h := by
  induction h with
  | node hs hc ih =>
    exact node _ hs (forall₂_children hs fun A B hAB => ⟨hc A B hAB, ih A B hAB⟩)
  | beta kind hb hA ihb ihA => exact beta kind hb hA ihb ihA
  | unfold h => exact unfold h

/-- One step is a parallel one. -/
theorem of_step (h : Step aliases T U) : Par aliases T U := by
  induction h with
  | here h =>
    cases h with
    | beta kind body A => exact .beta kind (refl body) (refl A)
    | unfold h => exact .unfold h
  | inside hs hT hU _ ih =>
    refine of_children hs ?_
    rw [hT, hU]
    exact List.rel_append (List.forall₂_same.2 fun A _ => refl A)
      (.cons ih (List.forall₂_same.2 fun A _ => refl A))

/-- What is computed in parallel can be computed step by step. -/
theorem steps (h : Par aliases T U) : Steps aliases T U := by
  induction h using induct with
  | node _ hs hc => exact Steps.node hs (hc.imp fun _ _ h => h.2)
  | beta kind _ _ ihb ihA =>
    exact (reflTransGen_app (reflTransGen_binder ihb) ihA).tail (.here (.beta kind _ _))
  | unfold h => exact .single (.here (.unfold h))

theorem conv (h : Par aliases T U) : Conv aliases T U :=
  .of_steps h.steps

/-- A node other than a variable makes a parallel step when replacing gives parallel steps
below. -/
theorem replace_node {f g : Nat → Int → Ty} (hT : ∀ i, T.shape ≠ .var i) (hs : T.shape = U.shape)
    (hc : List.Forall₂ (fun A B => Par aliases (A.replace f (c + T.shape.binds))
      (B.replace g (c + T.shape.binds))) T.children U.children) :
    Par aliases (T.replace f c) (U.replace g c) := by
  have hU : ∀ i, U.shape ≠ .var i := hs ▸ hT
  apply of_children
  · rw [shape_replace hT, shape_replace hU, hs]
  · rw [children_replace hT, children_replace hU, List.forall₂_map_left_iff,
      List.forall₂_map_right_iff, ← hs]
    exact hc

/-- Only a variable has the shape of a variable. -/
theorem eq_of_var {i : Int} (hs : (Ty.var i).shape = U.shape) : U = .var i := by
  cases U <;> simp_all [shape]

/-- Parallel steps can be made before a type is lifted or after. -/
theorem lift (hcl : aliases.Closed) (h : Par aliases T U) :
    Par aliases (T.lift k c) (U.lift k c) := by
  induction h using induct generalizing c with
  | @node T U _ hs hc =>
    by_cases hT : ∃ i, T.shape = .var i
    · obtain ⟨i, hi⟩ := hT
      obtain rfl := eq_of_shape_var hi
      rw [eq_of_var hs]
      exact refl _
    · exact replace_node (not_exists.1 hT) hs (hc.imp fun _ _ h => h.2)
  | beta kind _ _ ihb ihA =>
    rw [lift_inst]
    exact .beta kind ihb ihA
  | unfold h =>
    rw [(hcl _ _ h).lift_eq (Nat.zero_le c)]
    exact .unfold h

/-- Parallel steps in a body and in an argument are parallel steps of the instance. -/
theorem instAt (hcl : aliases.Closed) (h : Par aliases T U) (hA : Par aliases A A') :
    Par aliases (T.instAt c A) (U.instAt c A') := by
  induction h using induct generalizing c with
  | @node T U _ hs hc =>
    by_cases hT : ∃ i, T.shape = .var i
    · obtain ⟨i, hi⟩ := hT
      obtain rfl := eq_of_shape_var hi
      rw [eq_of_var hs]
      simp only [Ty.instAt, replace, instVar]
      split
      · exact refl _
      · split
        · -- here the arguments themselves come in, lifted over the binders passed
          exact hA.lift hcl
        · exact refl _
    · exact replace_node (not_exists.1 hT) hs (hc.imp fun _ _ h => h.2)
  | beta kind _ _ ihb ihA =>
    rw [instAt_inst]
    exact .beta kind ihb ihA
  | unfold h =>
    rw [(hcl _ _ h).instAt_eq (Nat.zero_le c)]
    exact .unfold h

theorem inst (hcl : aliases.Closed) (hb : Par aliases body body') (hA : Par aliases A A') :
    Par aliases (body.inst A) (body'.inst A') :=
  hb.instAt hcl hA

/-- Under a binder only the body makes a step. -/
theorem binder_inv {b : Binder} (h : Par aliases (.binder b body) U) :
    ∃ body', U = .binder b body' ∧ Par aliases body body' := by
  cases h with
  | node hs hc =>
    cases U <;> simp only [shape, reduceCtorEq, Shape.binder.injEq] at hs
    subst hs
    exact ⟨_, rfl, hc _ _ (by simp [children])⟩

end Par

/-! ## the development -/

mutual
/-- Every step that a type shows, carried out at once. -/
def develop (aliases : Aliases) : Ty → Ty
  | .hole => .hole
  | .base b => .base b
  | .named name => (aliases.definition? name).getD (.named name)
  | .var i => .var i
  | .variant fields => .variant (developFields aliases fields)
  | .product items => .product (developItems aliases items)
  | .arrow dom cod => .arrow (develop aliases dom) (develop aliases cod)
  | .app (.binder (.op _) body) arg => (develop aliases body).inst (develop aliases arg)
  | .app fn arg => .app (develop aliases fn) (develop aliases arg)
  | .binder b body => .binder b (develop aliases body)

/-- Develops the alternatives of a variant. -/
def developFields (aliases : Aliases) : List (Field Ty) → List (Field Ty)
  | [] => []
  | ⟨l, T⟩ :: rest => ⟨l, develop aliases T⟩ :: developFields aliases rest

/-- Develops the components of a product. -/
def developItems (aliases : Aliases) : List Ty → List Ty
  | [] => []
  | T :: rest => develop aliases T :: developItems aliases rest
end

theorem developFields_eq (fields : List (Field Ty)) :
    developFields aliases fields = fields.map fun g => ⟨g.label, develop aliases g.ty⟩ := by
  induction fields with
  | nil => rfl
  | cons g rest ih => rw [developFields, ih, List.map_cons]

theorem developItems_eq (items : List Ty) :
    developItems aliases items = items.map (develop aliases) := by
  induction items with
  | nil => rfl
  | cons T rest ih => rw [developItems, ih, List.map_cons]

/-- Where no step happens at the top, the development happens below. -/
theorem develop_node (hr : ¬ T.IsRedex) (hn : ∀ name, T.shape ≠ .named name) :
    (develop aliases T).shape = T.shape ∧
      (develop aliases T).children = T.children.map (develop aliases) := by
  cases T with
  | app fn arg =>
    have hop : ∀ kind body, fn ≠ .binder (.op kind) body := by
      intro kind body hfn
      exact hr ⟨kind, body, arg, by rw [hfn]⟩
    rw [develop]
    · exact ⟨rfl, rfl⟩
    · exact hop
  | named name => exact absurd rfl (hn name)
  | variant fields => simp [develop, shape, children, developFields_eq, labels]
  | product items => simp [develop, shape, children, developItems_eq]
  | _ => exact ⟨rfl, rfl⟩

/-- Whatever a parallel step leaves over, one more makes up for. -/
theorem Par.triangle (hcl : aliases.Closed) (h : Par aliases T U) :
    Par aliases U (develop aliases T) := by
  -- a name and an operator that is applied are what `develop` itself computes at the top; all other
  -- nodes are done by their children
  induction h using induct with
  | @node T U _ hs hc =>
    by_cases hn : ∃ name, T.shape = .named name
    · obtain ⟨name, hname⟩ := hn
      cases T <;> simp only [shape, reduceCtorEq] at hname
      cases U <;> simp only [shape, reduceCtorEq, Shape.named.injEq] at hs
      subst hs
      cases hdef : aliases.definition? ‹String› with
      | none => simpa only [develop, hdef, Option.getD_none] using refl _
      | some V => simpa only [develop, hdef, Option.getD_some] using Par.unfold hdef
    by_cases hr : T.IsRedex
    · -- the step went below an operator that could be applied: it is still one, and is applied now
      obtain ⟨kind, body, A, rfl⟩ := hr
      cases U <;> simp only [shape, reduceCtorEq] at hs
      rename_i F' A'
      simp only [children, List.forall₂_cons, List.Forall₂.nil, and_true] at hc
      obtain ⟨⟨hF, ihF⟩, -, ihA⟩ := hc
      obtain ⟨body', rfl, -⟩ := hF.binder_inv
      obtain ⟨developed, hd, hb⟩ := ihF.binder_inv
      rw [develop, Ty.binder.injEq] at hd
      rw [develop, hd.2]
      exact .beta kind hb ihA
    · obtain ⟨hs', hc'⟩ := develop_node hr (not_exists.1 hn)
      refine of_children (hs.symm.trans hs'.symm) ?_
      rw [hc', List.forall₂_map_right_iff]
      exact hc.flip.imp fun _ _ h => h.2
  | beta kind _ _ ihb ihA => exact ihb.inst hcl ihA
  | unfold h =>
    rw [develop, h]
    exact refl _

/-! ## confluence -/

/-- So are any number of parallel steps. -/
theorem steps_of_reflTransGen_par (h : ReflTransGen (Par aliases) T U) : Steps aliases T U := by
  induction h with
  | refl => exact .refl
  | tail _ hpar ih => exact ih.trans hpar.steps

/-- Types with a common reduct form the classes of an equivalence. -/
theorem equivalence_join_par (hcl : aliases.Closed) :
    Equivalence (Join (ReflTransGen (Par aliases))) :=
  equivalence_join_reflTransGen fun T _ _ hU hV =>
    ⟨develop aliases T, .single (hU.triangle hcl), .single (hV.triangle hcl)⟩

/-- Convertible types have a common reduct. -/
theorem Conv.join (hcl : aliases.Closed) (h : Conv aliases T U) :
    ∃ V, Steps aliases T V ∧ Steps aliases U V := by
  have hequiv := equivalence_join_par hcl
  have hjoin : Join (ReflTransGen (Par aliases)) T U := by
    induction h with
    | rel T U h => exact ⟨U, .single (.of_step h), .refl⟩
    | refl T => exact hequiv.refl T
    | symm T U _ ih => exact hequiv.symm ih
    | trans T U V _ _ ih ih' => exact hequiv.trans ih ih'
  obtain ⟨V, hT, hU⟩ := hjoin
  exact ⟨V, steps_of_reflTransGen_par hT, steps_of_reflTransGen_par hU⟩

/-- What is convertible with a resolved type computes to it. -/
theorem Conv.steps_of_resolved (hcl : aliases.Closed) (hU : U.Resolved aliases)
    (h : Conv aliases T U) : Steps aliases T U := by
  obtain ⟨V, hT, hV⟩ := h.join hcl
  rw [hV.eq_of_resolved hU] at hT
  exact hT

/-- Convertible resolved types are equal. -/
theorem Conv.eq_of_resolved (hcl : aliases.Closed) (hT : T.Resolved aliases)
    (hU : U.Resolved aliases) (h : Conv aliases T U) : T = U :=
  ((h.steps_of_resolved hcl hU).eq_of_resolved hT).symm

/-! ## type formers are injective -/

/-- A resolved type convertible with a rigid one has its shape, and steps lead from what stands
below the one to what stands below the other. -/
theorem Conv.rigid (hcl : aliases.Closed) (hT : T.Rigid aliases) (hU : U.Resolved aliases)
    (h : Conv aliases T U) :
    T.shape = U.shape ∧ List.Forall₂ (Steps aliases) T.children U.children :=
  (h.steps_of_resolved hcl hU).rigid hT

/-- A resolved type that is convertible with a base type is that type. -/
theorem Conv.base_inv (hcl : aliases.Closed) {b : Base} (hU : U.Resolved aliases)
    (h : Conv aliases (.base b) U) : U = .base b := by
  obtain ⟨hs, hc⟩ := h.rigid hcl (by simp [Rigid, shape]) hU
  cases U <;> simp_all [shape]

/-- A resolved type that is convertible with an arrow is an arrow, which steps lead to. -/
theorem Conv.arrow_inv (hcl : aliases.Closed) {dom cod : Ty} (hU : U.Resolved aliases)
    (h : Conv aliases (.arrow dom cod) U) :
    ∃ A B, U = .arrow A B ∧ Steps aliases dom A ∧ Steps aliases cod B := by
  obtain ⟨hs, hc⟩ := h.rigid hcl (by simp [Rigid, shape]) hU
  cases U <;> simp_all [shape, children]

/-- The same for binders. -/
theorem Conv.binder_inv (hcl : aliases.Closed) {b : Binder} {body : Ty} (hU : U.Resolved aliases)
    (h : Conv aliases (.binder b body) U) :
    ∃ B, U = .binder b B ∧ Steps aliases body B := by
  obtain ⟨hs, hc⟩ := h.rigid hcl (by simp [Rigid, shape]) hU
  cases U <;> simp_all [shape, children]

/-- The same for products. -/
theorem Conv.product_inv (hcl : aliases.Closed) {Ts : List Ty} (hU : U.Resolved aliases)
    (h : Conv aliases (.product Ts) U) :
    ∃ Us, U = .product Us ∧ List.Forall₂ (Steps aliases) Ts Us := by
  obtain ⟨hs, hc⟩ := h.rigid hcl (by simp [Rigid, shape]) hU
  cases U <;> simp_all [shape, children]

/-- The same for variants, with the same labels. -/
theorem Conv.variant_inv (hcl : aliases.Closed) {fields : List (Field Ty)}
    (hU : U.Resolved aliases) (h : Conv aliases (.variant fields) U) :
    ∃ gs, U = .variant gs ∧ labels fields = labels gs ∧
      List.Forall₂ (Steps aliases) (fields.map (·.ty)) (gs.map (·.ty)) := by
  obtain ⟨hs, hc⟩ := h.rigid hcl (by simp [Rigid, shape]) hU
  cases U with
  | variant gs => exact ⟨gs, rfl, Shape.variant.inj hs, hc⟩
  | _ => simp [shape] at hs

/-! ## lifting and instantiation -/

/-- Convertible types are convertible after they are lifted. -/
theorem Conv.lift (hcl : aliases.Closed) (h : Conv aliases T U) (k c : Nat) :
    Conv aliases (T.lift k c) (U.lift k c) :=
  h.map (f := fun V => V.lift k c) fun hstep => ((Par.of_step hstep).lift hcl).conv

/-- Instances of convertible bodies at convertible types are convertible. -/
theorem Conv.inst (hcl : aliases.Closed) (hb : Conv aliases body body')
    (hA : Conv aliases A A') : Conv aliases (body.inst A) (body'.inst A') := by
  have hbody : Conv aliases (body.inst A) (body'.inst A) :=
    hb.map (f := fun V => V.inst A) fun hstep => ((Par.of_step hstep).inst hcl (.refl A)).conv
  have harg : Conv aliases (body'.inst A) (body'.inst A') :=
    hA.map fun hstep => ((Par.refl body').inst hcl (.of_step hstep)).conv
  exact hbody.trans harg

/-- An instance is convertible with what an instance of convertible parts computes to. -/
theorem Conv.inst_steps (hcl : aliases.Closed) (hb : Conv aliases body body')
    (hA : Conv aliases A A') (hU : Steps aliases (body'.inst A') U) :
    Conv aliases (body.inst A) U :=
  (Conv.inst hcl hb hA).trans (.of_steps hU)

/-- A step of a lifted type is the lifting of a step. -/
theorem Step.of_lift (hcl : aliases.Closed) {V : Ty} (h : Step aliases V U)
    (hV : V = T.lift k c) : ∃ T', Step aliases T T' ∧ U = T'.lift k c := by
  induction h generalizing T c with
  | here h =>
    cases h with
    | beta kind body A =>
      cases T with
      | app fn arg =>
        simp only [lift, replace, Ty.app.injEq] at hV
        obtain ⟨hfn, rfl⟩ := hV
        cases fn with
        | binder b body =>
          simp only [replace, Ty.binder.injEq] at hfn
          obtain ⟨rfl, rfl⟩ := hfn
          exact ⟨body.inst arg, .here (.beta kind body arg), (lift_inst body).symm⟩
        | var i => simp only [replace, liftVar] at hfn; split at hfn <;> contradiction
        | _ => simp [replace] at hfn
      | var i => simp only [lift, replace, liftVar] at hV; split at hV <;> contradiction
      | _ => simp [lift, replace] at hV
    | unfold h =>
      cases T with
      | named name' =>
        simp only [lift, replace, Ty.named.injEq] at hV
        subst hV
        exact ⟨_, .here (.unfold h), ((hcl _ _ h).lift_eq (Nat.zero_le c) k).symm⟩
      | var i => simp only [lift, replace, liftVar] at hV; split at hV <;> contradiction
      | _ => simp [lift, replace] at hV
  | @inside V U A B before after hs hcV hcU _ ih =>
    subst hV
    by_cases hT : ∃ i, T.shape = .var i
    · obtain ⟨i, hi⟩ := hT
      obtain rfl := eq_of_shape_var hi
      obtain ⟨j, hj⟩ := exists_lift_var (k := k) (c := c) i
      simp [hj, children] at hcV
    have hv := not_exists.1 hT
    rw [lift, shape_replace hv] at hs
    rw [lift, children_replace hv] at hcV
    obtain ⟨before', rest, hrest, rfl, hmap⟩ := List.map_eq_append_iff.1 hcV
    obtain ⟨A', after', rfl, rfl, rfl⟩ := List.map_eq_cons_iff.1 hmap
    obtain ⟨B', hstep, rfl⟩ := ih rfl
    have hlen : (before' ++ A' :: after').length = T.shape.arity := by
      rw [← hrest, length_children]
    have hlen' : (before' ++ B' :: after').length = T.shape.arity := by simpa using hlen
    have hs' := shape_build hlen'
    refine ⟨T.shape.build (before' ++ B' :: after'), .inside hs'.symm hrest
      (children_build hlen') hstep, ?_⟩
    have hv' : ∀ i, (T.shape.build (before' ++ B' :: after')).shape ≠ .var i := by rwa [hs']
    apply eq_of_shape_children
    · rw [lift, shape_replace hv', hs', hs]
    · rw [lift, children_replace hv', children_build hlen', hs', hcU]
      simp [lift]

/-- What a lifted type computes to is lifted. -/
theorem Steps.of_lift (hcl : aliases.Closed) (h : Steps aliases (T.lift k c) U) :
    ∃ T', Steps aliases T T' ∧ U = T'.lift k c := by
  induction h with
  | refl => exact ⟨T, .refl, rfl⟩
  | tail _ hstep ih =>
    obtain ⟨V, hV, rfl⟩ := ih
    obtain ⟨W, hW, rfl⟩ := Step.of_lift hcl hstep rfl
    exact ⟨W, hV.tail hW, rfl⟩

end PolyLambda.Ty
