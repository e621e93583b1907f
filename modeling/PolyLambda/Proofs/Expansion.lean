import PolyLambda.Proofs.Complete
import PolyLambda.Proofs.Coupling

/-!
# PolyLambda.Proofs.Expansion

Aliases are abbreviations. They may be expanded in a term before it is checked, and the check then
needs no aliases and ends as it would have, with the same type or with the same error at the same
place.

There are two ways from a type with aliases to a resolved one: the expansion of a whole term, and
the resolving of each type where the checker meets it. A check that succeeds has met every type
of the term, so that the expansion succeeds as well; and expanding a type first and resolving the
expansion without aliases is resolving the type.

* `Term.mapTypes_alike`: the expansion of a term differs from it in the types only.
* `Check.rule_seen`: a rule succeeds only if the types of the term can be resolved and its parts
  have types.
* `Coupling.expanded` puts a check beside the check of an expansion without aliases.
* `Checker.typeOfClosed_expandTerm` is the statement for the checker.
-/

namespace PolyLambda

open Ty

/-! ## types without aliases -/

namespace Ty

variable {aliases : Aliases} {n : Nat} {T U : Ty}

/-- Where no name has a definition, aliases play no part. -/
theorem expand_bare (hu : T.EveryShape (Unknown aliases)) :
    T.expand ∅ n = T.expand aliases n := by
  induction n generalizing T with
  | zero => rfl
  | succ n ih =>
    cases T with
    | hole => rfl
    | named name =>
      rw [expand_unknown (hu.here name rfl), expand_unknown rfl]
    | _ =>
      rw [expand_node (by simp [shape]) (by simp [shape]),
        expand_node (by simp [shape]) (by simp [shape])]
      exact mapParts_congr fun U hU => ih (hu.child hU)

/-- To resolve a type that mentions no alias, no alias is needed. -/
theorem resolve_bare (hu : T.EveryShape (Unknown aliases)) :
    T.resolve ∅ n = T.resolve aliases n := by
  rw [resolve, resolve, expand_bare hu]

/-- An expansion nests no deeper than there were levels. -/
theorem Expands.fits (h : Expands aliases n T U) : U.Fits n := by
  induction h with
  | name _ _ ih => exact ih.mono (Nat.le_succ _)
  | node _ _ hs _ ih =>
    intro B hB
    obtain ⟨A, -, hA⟩ := exists_of_forall₂_right (forall₂_children hs ih) hB
    exact hA

/-- An expansion is resolved without aliases as the type is with them. -/
theorem resolve_of_expand (h : T.expand aliases n = .ok U) :
    U.resolve ∅ n = T.resolve aliases n := by
  have hexp := expands_of_ok h
  have hU := expand_of_unknown hexp.wellFormed hexp.unknown hexp.fits
  rw [resolve_bare hexp.unknown, resolve, resolve, h, hU]

/-- What is inferred over some aliases could be inferred without aliases. -/
theorem Inferred.both (h : T.Inferred aliases n) : T.Inferred aliases n ∧ T.Inferred ∅ n :=
  ⟨h, h.wellFormed, h.resolved.2.resolved, h.variants⟩

end Ty

namespace Context

variable {Γ : Context} {T U : Ty}

/-- The context without its aliases. -/
def bare (Γ : Context) : Context :=
  { Γ with aliases := ∅ }

/-- A good context is good without its aliases. -/
theorem Good.bare (h : Γ.Good) : Γ.bare.Good := by
  refine ⟨h.balanced, fun e he => ?_⟩
  have hset := h.settled e he
  exact ⟨hset.wellFormed, hset.resolved.2.resolved, hset.fits⟩

theorem resolve_bare (hu : T.EveryShape (Unknown Γ.aliases)) :
    Γ.bare.resolve T = Γ.resolve T :=
  congrArg (Except.mapError Γ.limit.fault) (Ty.resolve_bare hu)

/-- Nor are aliases needed for an instance of such types. -/
theorem instantiate_bare {limit : Limit} {body A : Ty}
    (hb : body.EveryShape (Unknown Γ.aliases)) (hA : A.EveryShape (Unknown Γ.aliases)) :
    Γ.bare.instantiate limit body A = Γ.instantiate limit body A := by
  unfold instantiate
  cases hV : limit.run fun n => body.instantiate n A with
  | error e => rfl
  | ok V =>
    obtain ⟨-, -, rfl⟩ := instantiate_ok (mapError_eq_ok.1 hV)
    exact resolve_bare (EveryShape.inst (by simp [Unknown]) hb hA)

end Context

/-! ## terms with other types -/

namespace Term

variable {A : Nat → Ty → Ty → Prop} {S : Option Span → Option Span → Prop} {d n : Nat} {t t' : Term}
  {limit : Limit} {onTy : Ty → Except Fault Ty} {onTerm : Term → Except Fault Term}

/-- With a level left, the parts of a term are treated one level down. -/
theorem mapTypes_succ (h : t ≠ .hole) :
    t.mapTypes limit onTy (n + 1) = t.mapParts onTy (mapTypes limit onTy n) := by
  cases t with
  | hole => exact absurd rfl h
  | _ => rfl

/-- Treating a term fails at one of its types or at one of its parts. -/
theorem mapParts_eq_error {e : Fault} (h : t.mapParts onTy onTerm = .error e) :
    (∃ T ∈ t.types, onTy T = .error e) ∨ ∃ u ∈ t.subterms, onTerm u = .error e := by
  cases t with
  | hole | lit value s | var i s => contradiction
  | tuple items s =>
    obtain h | ⟨us, -, h⟩ := bind_eq_error.1 h
    · obtain ⟨u, hu, he⟩ := mapM_eq_error h
      exact .inr ⟨u, by simpa using hu, he⟩
    · contradiction
  | caseOf scrutinee arms s =>
    obtain h | ⟨u, -, h⟩ := bind_eq_error.1 h
    · exact .inr ⟨scrutinee, by simp, h⟩
    · obtain h | ⟨arms', -, h⟩ := bind_eq_error.1 h
      · obtain ⟨a, ha, h⟩ := mapM_eq_error h
        obtain h | ⟨u, -, h⟩ := bind_eq_error.1 h
        · exact .inr ⟨a.body, by simpa using .inr ⟨a, ha, rfl⟩, h⟩
        · contradiction
      · contradiction
  | _ =>
    simp only [mapParts, bind_eq_error, pure, Except.pure, reduceCtorEq, and_false,
      exists_const, or_false] at h
    grind [types, subterms, parts]

/-- What is built from treated types and parts differs in these only. -/
theorem mapParts_alike (hne : t ≠ .hole) (hA : ∀ {T T'}, onTy T = .ok T' → A d T T')
    (hterm : ∀ {d u u'}, onTerm u = .ok u' → u.Alike A S d u') (hS : ∀ s, S s s)
    (h : t.mapParts onTy onTerm = .ok t') : t.Alike A S d t' := by
  cases t with
  | hole => exact absurd rfl hne
  | lit value s =>
    obtain rfl := Except.ok.inj h
    exact .lit (hS s)
  | var i s =>
    obtain rfl := Except.ok.inj h
    exact .var (hS s)
  | abs T body s =>
    simp only [mapParts, bind_eq_ok] at h
    obtain ⟨T', hT, body', hb, ⟨⟩⟩ := h
    exact .abs (hA hT) (hterm hb) (hS s)
  | app fn arg s =>
    simp only [mapParts, bind_eq_ok] at h
    obtain ⟨fn', hf, arg', ha, ⟨⟩⟩ := h
    exact .app (hterm hf) (hterm ha) (hS s)
  | fix inner s =>
    simp only [mapParts, bind_eq_ok] at h
    obtain ⟨inner', hi, ⟨⟩⟩ := h
    exact .fix (hterm hi) (hS s)
  | ite guard yes no s =>
    simp only [mapParts, bind_eq_ok] at h
    obtain ⟨guard', hg, yes', hy, no', hn, ⟨⟩⟩ := h
    exact .ite (hterm hg) (hterm hy) (hterm hn) (hS s)
  | inject label payload T s =>
    simp only [mapParts, bind_eq_ok] at h
    obtain ⟨payload', hp, T', hT, ⟨⟩⟩ := h
    exact .inject (hterm hp) (hA hT) (hS s)
  | proj inner i s =>
    simp only [mapParts, bind_eq_ok] at h
    obtain ⟨inner', hi, ⟨⟩⟩ := h
    exact .proj (hterm hi) (hS s)
  | tuple items s =>
    simp only [mapParts, bind_eq_ok, mapM_eq_ok] at h
    obtain ⟨items', hitems, ⟨⟩⟩ := h
    exact .tuple hitems.length_eq (fun u u' hu => hterm (List.forall₂_zip hitems hu)) (hS s)
  | letIn bound body s =>
    simp only [mapParts, bind_eq_ok] at h
    obtain ⟨bound', hbound, body', hb, ⟨⟩⟩ := h
    exact .letIn (hterm hbound) (hterm hb) (hS s)
  | tyAbs body s =>
    simp only [mapParts, bind_eq_ok] at h
    obtain ⟨body', hb, ⟨⟩⟩ := h
    exact .tyAbs (hterm hb) (hS s)
  | tyApp inner T s =>
    simp only [mapParts, bind_eq_ok] at h
    obtain ⟨inner', hi, T', hT, ⟨⟩⟩ := h
    exact .tyApp (hterm hi) (hA hT) (hS s)
  | roll T inner s =>
    simp only [mapParts, bind_eq_ok] at h
    obtain ⟨T', hT, inner', hi, ⟨⟩⟩ := h
    exact .roll (hA hT) (hterm hi) (hS s)
  | unroll T inner s =>
    simp only [mapParts, bind_eq_ok] at h
    obtain ⟨T', hT, inner', hi, ⟨⟩⟩ := h
    exact .unroll (hA hT) (hterm hi) (hS s)
  | pack W inner T s =>
    simp only [mapParts, bind_eq_ok] at h
    obtain ⟨W', hW, inner', hi, T', hT, ⟨⟩⟩ := h
    exact .pack (hA hW) (hterm hi) (hA hT) (hS s)
  | unpack package body s =>
    simp only [mapParts, bind_eq_ok] at h
    obtain ⟨package', hp, body', hb, ⟨⟩⟩ := h
    exact .unpack (hterm hp) (hterm hb) (hS s)
  | caseOf scrutinee arms s =>
    simp only [mapParts, bind_eq_ok, mapM_eq_ok] at h
    obtain ⟨scrutinee', hsc, arms', harms, ⟨⟩⟩ := h
    refine .caseOf (hterm hsc) (harms.imp ?_) (fun a a' ha => ?_) (hS s)
    · rintro a a' ⟨body', -, ⟨⟩⟩
      exact ⟨rfl, hS a.span⟩
    · obtain ⟨body', hb, ⟨⟩⟩ := List.forall₂_zip harms ha
      exact hterm hb

/-- A term with other types in it differs in the types only. -/
theorem mapTypes_alike (hA : ∀ {d T T'}, onTy T = .ok T' → A d T T') (hS : ∀ s, S s s)
    (h : t.mapTypes limit onTy n = .ok t') : t.Alike A S d t' := by
  induction n generalizing d t t' with
  | zero => contradiction
  | succ n ih =>
    have hne : t ≠ .hole := by
      rintro rfl
      contradiction
    rw [mapTypes_succ hne] at h
    exact mapParts_alike hne hA ih hS h

/-- If the types of a term and its parts can be treated, so can the term. -/
theorem exists_mapTypes (hne : t ≠ .hole) (hty : ∀ T ∈ t.types, ∃ T', onTy T = .ok T')
    (hterm : ∀ u ∈ t.subterms, ∃ u', u.mapTypes limit onTy n = .ok u') :
    ∃ t', t.mapTypes limit onTy (n + 1) = .ok t' := by
  cases h : t.mapTypes limit onTy (n + 1) with
  | ok t' => exact ⟨t', rfl⟩
  | error e =>
    rw [mapTypes_succ hne] at h
    obtain ⟨T, hT, he⟩ | ⟨u, hu, he⟩ := mapParts_eq_error h
    · obtain ⟨T', hT'⟩ := hty T hT
      simp [hT'] at he
    · obtain ⟨u', hu'⟩ := hterm u hu
      simp [hu'] at he

end Term

/-! ## what a success tells -/

namespace Check

variable {l : Limit} {infer : Term → Check Ty} {Q : Term → Prop} {E : Fault → Prop} {Γ : Context}

/-- What a rule has seen when it succeeds: the types of the term can be resolved with `n` levels,
and all parts have `Q`. -/
structure Seen (aliases : Aliases) (n : Nat) (Q : Term → Prop) (t : Term) : Prop where
  ne_hole : t ≠ .hole
  types : ∀ T ∈ t.types, ∃ U, T.resolve aliases n = .ok U
  parts : ∀ u ∈ t.subterms, Q u

/-- In contexts over these aliases and under this limit, only terms with `Q` have types. -/
abbrev SeenParts (infer : Term → Check Ty) (aliases : Aliases) (limit : Limit)
    (Q : Term → Prop) (E : Fault → Prop) : Prop :=
  ∀ (u : Term) (Γ : Context), Γ.Good → Γ.aliases = aliases → Γ.limit = limit →
    (infer u).Meets False Γ (fun _ => Q u) E

theorem SeenParts.part (ih : SeenParts infer Γ.aliases Γ.limit Q E) (hΓ : Γ.Good) (u : Term) :
    (infer u).Meets False Γ (fun _ => Q u) E :=
  ih u Γ hΓ rfl rfl

/-- A part that is checked with variables bound around it. -/
theorem SeenParts.binding (ih : SeenParts infer Γ.aliases Γ.limit Q E) (hΓ : Γ.Good) (Ts : List Ty)
    (u : Term) : (binding Ts (infer u)).Meets False Γ (fun _ => Q u) E := by
  refine .binding (fun Us hUs => ?_) False.elim
  exact ih u (Γ.bind Us) (hΓ.bind hUs) (by rw [bind_eq]) (by rw [bind_eq])

/-- A type that a rule resolves can be resolved. -/
theorem resolve_seen (T : Ty) :
    (resolve T).Meets False Γ (fun U => T.resolve Γ.aliases Γ.limit.levels = .ok U) E :=
  .ask (fun _ hU => mapError_eq_ok.1 hU) fun _ _ => False.elim

/-- If the arms have a type in common, the bodies of all of them have been checked. -/
theorem armsType_seen {span : Option Span} {arms : List (Arm Term × List Ty)}
    (ih : SeenParts infer Γ.aliases Γ.limit Q E) (hΓ : Γ.Good) :
    (armsType infer span arms).Meets False Γ (fun _ => ∀ p ∈ arms, Q p.1.body) E := by
  by_cases hne : arms = []
  · subst hne
    exact .fail False.elim
  · exact meets_armsType (R := fun p _ => Q p.1.body) hne
      (fun p _ => ih.binding hΓ p.2 p.1.body) False.elim

/-! ### one rule at a time -/

/-- The rule for a term succeeds only after it has seen every type and every part of the term. -/
abbrev RuleSees (l : Limit) (infer : Term → Check Ty) (Γ : Context) (Q : Term → Prop)
    (E : Fault → Prop) (t : Term) : Prop :=
  (rule l infer t).Meets False Γ (fun _ => Seen Γ.aliases Γ.limit.levels Q t) E

variable {s : Option Span}

theorem seen_var (i : Int) : RuleSees l infer Γ Q E (.var i s) := by
  rw [RuleSees, rule_var_eq]
  exact .ask (fun _ _ => ⟨nofun, by simp, by simp⟩) fun _ _ => False.elim

/-- The type of the parameter is resolved, and the body is the only part. -/
theorem seen_abs (ih : SeenParts infer Γ.aliases Γ.limit Q E) (hΓ : Γ.Good) (param : Ty)
    (body : Term) : RuleSees l infer Γ Q E (.abs param body s) := by
  refine (resolve_seen param).bind fun A hA => ?_
  refine (ih.binding hΓ [A] body).bind fun B hB => ?_
  exact .pure ⟨nofun, by simpa using ⟨A, hA⟩, by simpa using hB⟩

/-- Both parts have types before anything is compared. -/
theorem seen_app (ih : SeenParts infer Γ.aliases Γ.limit Q E) (hΓ : Γ.Good) (fn arg : Term) :
    RuleSees l infer Γ Q E (.app fn arg s) := by
  refine (ih.part hΓ fn).bind fun F hF => ?_
  refine (ih.part hΓ arg).bind fun A hA => ?_
  split
  · refine (meets_expect False.elim).bind fun _ _ => ?_
    exact .pure ⟨nofun, by simp, by simpa using ⟨hF, hA⟩⟩
  · exact .fail False.elim

theorem seen_fix (ih : SeenParts infer Γ.aliases Γ.limit Q E) (hΓ : Γ.Good) (inner : Term) :
    RuleSees l infer Γ Q E (.fix inner s) := by
  refine (ih.part hΓ inner).bind fun F hF => ?_
  split
  · refine (meets_expect False.elim).bind fun _ _ => ?_
    exact .pure ⟨nofun, by simp, by simpa using hF⟩
  · exact .fail False.elim

/-- All three parts have types before the branches are compared. -/
theorem seen_ite (ih : SeenParts infer Γ.aliases Γ.limit Q E) (hΓ : Γ.Good)
    (guard yes no : Term) : RuleSees l infer Γ Q E (.ite guard yes no s) := by
  refine (ih.part hΓ guard).bind fun G hG => ?_
  split
  · refine (ih.part hΓ yes).bind fun A hA => ?_
    refine (ih.part hΓ no).bind fun B hB => ?_
    split
    · exact .pure ⟨nofun, by simp, by simpa using ⟨hG, hA, hB⟩⟩
    · exact .fail False.elim
  · exact .fail False.elim

/-- The annotation is resolved before the payload is looked at. -/
theorem seen_inject (ih : SeenParts infer Γ.aliases Γ.limit Q E) (hΓ : Γ.Good) (label : String)
    (payload : Term) (ty : Ty) : RuleSees l infer Γ Q E (.inject label payload ty s) := by
  refine (resolve_seen ty).bind fun V hV => ?_
  split
  · split
    · refine (ih.part hΓ payload).bind fun A hA => ?_
      refine (meets_expect False.elim).bind fun _ _ => ?_
      exact .pure ⟨nofun, by simpa using ⟨_, hV⟩, by simpa using hA⟩
    · exact .fail False.elim
  · exact .fail False.elim

theorem seen_proj (ih : SeenParts infer Γ.aliases Γ.limit Q E) (hΓ : Γ.Good) (inner : Term)
    (i : Int) : RuleSees l infer Γ Q E (.proj inner i s) := by
  refine (ih.part hΓ inner).bind fun P hP => ?_
  split
  · split
    · exact .pure ⟨nofun, by simp, by simpa using hP⟩
    · exact .fail False.elim
  · exact .fail False.elim

/-- All components have types. -/
theorem seen_tuple (ih : SeenParts infer Γ.aliases Γ.limit Q E) (hΓ : Γ.Good)
    (items : List Term) : RuleSees l infer Γ Q E (.tuple items s) := by
  have hitems : List.Forall₂ (fun u v => (infer u).Meets False Γ (fun _ => Q v) E) items items :=
    List.forall₂_same.2 fun u _ => ih.part hΓ u
  refine (meets_mapM hitems).bind fun Ts hTs => ?_
  have hall : ∀ u ∈ items, Q u := by
    intro u hu
    obtain ⟨_, -, hQ⟩ := exists_of_forall₂_left hTs hu
    exact hQ
  exact .pure ⟨nofun, by simp, by simpa using hall⟩

/-- The body is checked with the type bound that was found. -/
theorem seen_letIn (ih : SeenParts infer Γ.aliases Γ.limit Q E) (hΓ : Γ.Good)
    (bound body : Term) : RuleSees l infer Γ Q E (.letIn bound body s) := by
  refine (ih.part hΓ bound).bind fun A hA => ?_
  refine (ih.binding hΓ [A] body).mono fun B hB => ?_
  exact ⟨nofun, by simp, by simpa using ⟨hA, hB⟩⟩

/-- Inside a scope the aliases and the limit are the same. -/
theorem seen_tyAbs (ih : SeenParts infer Γ.aliases Γ.limit Q E) (hΓ : Γ.Good) (body : Term) :
    RuleSees l infer Γ Q E (.tyAbs body s) := by
  refine .bind (.inScope hΓ.balanced (ih body Γ.openScope hΓ.openScope rfl rfl)) fun B hB => ?_
  exact .pure ⟨nofun, by simp, by simpa using hB⟩

/-- The argument is resolved, also if the universal type makes no use of it. -/
theorem seen_tyApp (ih : SeenParts infer Γ.aliases Γ.limit Q E) (hΓ : Γ.Good) (inner : Term)
    (arg : Ty) : RuleSees l infer Γ Q E (.tyApp inner arg s) := by
  refine (resolve_seen arg).bind fun A hA => ?_
  refine (ih.part hΓ inner).bind fun F hF => ?_
  split
  · refine (meets_instantiate False.elim).mono fun _ _ => ?_
    exact ⟨nofun, by simpa using ⟨A, hA⟩, by simpa using hF⟩
  · exact .fail False.elim

theorem seen_roll (ih : SeenParts infer Γ.aliases Γ.limit Q E) (hΓ : Γ.Good) (ty : Ty)
    (inner : Term) : RuleSees l infer Γ Q E (.roll ty inner s) := by
  refine (resolve_seen ty).bind fun R hR => ?_
  split
  · refine (meets_instantiate False.elim).bind fun _ _ => ?_
    refine (ih.part hΓ inner).bind fun A hA => ?_
    refine (meets_expect False.elim).bind fun _ _ => ?_
    exact .pure ⟨nofun, by simpa using ⟨_, hR⟩, by simpa using hA⟩
  · exact .fail False.elim

theorem seen_unroll (ih : SeenParts infer Γ.aliases Γ.limit Q E) (hΓ : Γ.Good) (ty : Ty)
    (inner : Term) : RuleSees l infer Γ Q E (.unroll ty inner s) := by
  refine (resolve_seen ty).bind fun R hR => ?_
  split
  · refine (ih.part hΓ inner).bind fun A hA => ?_
    refine (meets_expect False.elim).bind fun _ _ => ?_
    refine (meets_instantiate False.elim).mono fun _ _ => ?_
    exact ⟨nofun, by simpa using ⟨_, hR⟩, by simpa using hA⟩
  · exact .fail False.elim

/-- There are two written types, and both are resolved. -/
theorem seen_pack (ih : SeenParts infer Γ.aliases Γ.limit Q E) (hΓ : Γ.Good) (witness : Ty)
    (inner : Term) (ty : Ty) : RuleSees l infer Γ Q E (.pack witness inner ty s) := by
  refine (resolve_seen witness).bind fun W hW => ?_
  refine (resolve_seen ty).bind fun X hX => ?_
  split
  · refine (meets_instantiate False.elim).bind fun _ _ => ?_
    refine (ih.part hΓ inner).bind fun A hA => ?_
    refine (meets_expect False.elim).bind fun _ _ => ?_
    exact .pure ⟨nofun, by simpa using ⟨⟨W, hW⟩, _, hX⟩, by simpa using hA⟩
  · exact .fail False.elim

/-- The body is checked in a scope and with a variable bound; neither changes what can be resolved.
-/
theorem seen_unpack (ih : SeenParts infer Γ.aliases Γ.limit Q E) (hΓ : Γ.Good)
    (package body : Term) : RuleSees l infer Γ Q E (.unpack package body s) := by
  have hscope : SeenParts infer Γ.openScope.aliases Γ.openScope.limit Q E := ih
  refine (ih.part hΓ package).bind fun X hX => ?_
  split
  · next hidden =>
    refine .bind (.inScope hΓ.balanced (hscope.binding hΓ.openScope [hidden] body)) fun B hB => ?_
    refine (meets_lower False.elim).mono fun _ _ => ?_
    exact ⟨nofun, by simp, by simpa using ⟨hX, hB⟩⟩
  · exact .fail False.elim

/-- A case is accepted only if there are types for each of its arms, so all arms are come to. -/
theorem seen_caseOf (ih : SeenParts infer Γ.aliases Γ.limit Q E) (hΓ : Γ.Good) (scrutinee : Term)
    (arms : List (Arm Term)) : RuleSees l infer Γ Q E (.caseOf scrutinee arms s) := by
  refine (ih.part hΓ scrutinee).bind fun V hV => ?_
  split
  · refine .bind (.ofExcept (fun _ h => h) fun _ _ => False.elim) fun bound hbound => ?_
    refine (armsType_seen ih hΓ).mono fun _ harms => ⟨nofun, by simp, ?_⟩
    have hlen := Coverage.length_check (mapError_eq_ok.1 hbound)
    have hzip : (arms.zip bound).map Prod.fst = arms :=
      List.map_fst_zip (Nat.le_of_eq hlen.symm)
    have hbody : ∀ a ∈ arms, Q a.body := by
      intro a ha
      rw [← hzip] at ha
      obtain ⟨p, hp, rfl⟩ := List.mem_map.1 ha
      exact harms p hp
    simpa using ⟨hV, hbody⟩
  · exact .fail False.elim

/-- A rule succeeds only after it has seen every type and every part of its term. -/
theorem rule_seen (ih : SeenParts infer Γ.aliases Γ.limit Q E) (hΓ : Γ.Good) (t : Term) :
    RuleSees l infer Γ Q E t := by
  cases t with
  | hole => exact .fail False.elim
  | lit value s => exact .pure ⟨nofun, by simp, by simp⟩
  | var i s => exact seen_var i
  | abs param body s => exact seen_abs ih hΓ param body
  | app fn arg s => exact seen_app ih hΓ fn arg
  | fix inner s => exact seen_fix ih hΓ inner
  | ite guard yes no s => exact seen_ite ih hΓ guard yes no
  | inject label payload ty s => exact seen_inject ih hΓ label payload ty
  | proj inner i s => exact seen_proj ih hΓ inner i
  | tuple items s => exact seen_tuple ih hΓ items
  | letIn bound body s => exact seen_letIn ih hΓ bound body
  | tyAbs body s => exact seen_tyAbs ih hΓ body
  | tyApp inner arg s => exact seen_tyApp ih hΓ inner arg
  | roll ty inner s => exact seen_roll ih hΓ ty inner
  | unroll ty inner s => exact seen_unroll ih hΓ ty inner
  | pack witness inner ty s => exact seen_pack ih hΓ witness inner ty
  | unpack package body s => exact seen_unpack ih hΓ package body
  | caseOf scrutinee arms s => exact seen_caseOf ih hΓ scrutinee arms

end Check

namespace Checker

open Check

/-- If inference succeeds, the types in the term can be treated by whatever treats the types that
can be resolved. -/
theorem infer_seen (c : Checker) {aliases : Aliases} {limit : Limit} {onTy : Ty → Except Fault Ty}
    {E : Fault → Prop} (hty : ∀ {T U}, T.resolve aliases limit.levels = .ok U → ∃ V, onTy T = .ok V)
    (n : Nat) :
    SeenParts (c.infer n) aliases limit (fun t => ∃ t', t.mapTypes limit onTy n = .ok t') E := by
  induction n with
  | zero => exact fun _ _ _ _ _ => .fail False.elim
  | succ n ih =>
    rintro t Γ hΓ rfl rfl
    refine meets_infer ((rule_seen ih hΓ t).mono fun _ hseen => ?_)
    refine Term.exists_mapTypes hseen.ne_hole (fun T hT => ?_) hseen.parts
    obtain ⟨U, hU⟩ := hseen.types T hT
    exact hty hU

/-- The expansion of a term succeeds if its check does. -/
theorem exists_expandTerm (c : Checker) {t : Term} {T : Ty}
    (h : (c.typeOfClosed t).result = .ok T) : ∃ t', c.freshContext.expandTerm t = .ok t' := by
  have hty : ∀ {T U}, T.resolve c.aliases c.limit.levels = .ok U →
      ∃ V, c.freshContext.expand T = .ok V := by
    intro T U hU
    obtain ⟨V, hV, -⟩ := bind_eq_ok.1 hU
    exact ⟨V, mapError_eq_ok.2 hV⟩
  have hseen := c.infer_seen (E := fun _ => True) hty c.limit.levels t c.freshContext
    (Context.good_fresh c.aliases c.limit) rfl rfl
  exact hseen.of_ok (typeOf_eq_ok.1 h)

end Checker

/-! ## a check and the check of an expansion -/

/-- A check beside a check without aliases of a term in which the types have been expanded. Where
`cut` holds, types need not have been expanded if levels do not suffice for that; the first check
may then run out of levels alone. -/
def Coupling.expanded (cut : Prop) (l : Limit) (aliases : Aliases) : Coupling l l where
  Contexts Γ Γ' := Γ' = Γ.bare ∧ Γ.Good ∧ Γ.aliases = aliases ∧ Γ.limit = l
  Types _ T := T.Inferred aliases l.levels ∧ T.Inferred ∅ l.levels
  Written _ T T' := T.expand aliases l.levels = .ok T' ∨
    cut ∧ T.expand aliases l.levels = .error .tooDeep
  Spans := Eq
  Fails e r := r = some e ∨ cut ∧ r = none ∧ e.Exhausted
  good := by
    rintro Γ _ ⟨rfl, h, -⟩
    exact ⟨h, h.bare⟩
  openScope := by
    rintro Γ _ ⟨rfl, h, hal, hlim⟩
    exact ⟨rfl, h.openScope, hal, hlim⟩
  push := by
    rintro Γ _ T ⟨rfl, h, rfl, rfl⟩ ⟨hT, -⟩
    rw [Context.resolve_bare hT.resolved.1]
    refine .same (fun U hU => ?_) fun _ _ => .inl rfl
    exact ⟨rfl, h.bindOne (Context.resolve_ok hU).2, rfl, rfl⟩
  inferred := by
    rintro Γ _ T ⟨rfl, -, rfl, rfl⟩ hT
    exact hT
  node hs hc := ⟨.plain hs fun A hA => (hc A hA).1, .plain hs fun A hA => (hc A hA).2⟩
  child h hA := ⟨h.1.child hA, h.2.child hA⟩
  lookUp := by
    rintro Γ _ i s _ ⟨rfl, h, rfl, rfl⟩ rfl
    exact .same (fun T hT => (h.lookUp_inferred hT).both) fun _ _ => .inl rfl
  resolve := by
    rintro Γ _ T T' ⟨rfl, -, rfl, rfl⟩ (hT | ⟨hcut, hT⟩)
    · have hsame : Γ.bare.resolve T' = Γ.resolve T :=
        congrArg (Except.mapError Γ.limit.fault) (resolve_of_expand hT)
      rw [hsame]
      exact .same (fun U hU => (Context.resolve_ok hU).2.inferred.both) fun _ _ => .inl rfl
    · refine .stop (e := Γ.limit.overrun none) ?_ (.inr ⟨hcut, rfl, Γ.limit.overrun_exhausted none⟩)
      exact mapError_eq_error.2 ⟨.tooDeep, bind_eq_error.2 (.inl hT), rfl⟩
  instantiate := by
    rintro Γ _ body A ⟨rfl, -, rfl, rfl⟩ ⟨hb, -⟩ ⟨hA, -⟩
    rw [Context.instantiate_bare hb.resolved.1 hA.resolved.1]
    exact .same (fun U hU => (Context.instantiate_settled hU).inferred.both) fun _ _ => .inl rfl
  lower := by
    rintro d B s _ ⟨hB, -⟩ rfl
    refine .same (fun U hU => ?_) fun _ _ => .inl rfl
    rw [Limit.lower_ok hU] at hB
    exact (inferred_lift.1 hB).both
  mistake := by
    rintro m m' s _ hm rfl
    rw [hm.eq]
    exact .inl rfl
  orElse := @orElse_congr

namespace Checker

/-- The checker without aliases. -/
def bare (c : Checker) : Checker :=
  { c with aliases := ∅ }

/-- Aliases play no part in how a failure is reported. -/
theorem settle_bare (c : Checker) {t t' : Term} (h : t.span = t'.span) (e : Fault) :
    c.bare.settle t' e = c.settle t e := by
  cases e with
  | outOfStack => simp only [settle, bare, h]
  | _ => rfl

/-- Inference in a context of its own, beside inference without aliases. -/
theorem infer_expanded (cut : Prop) (c : Checker) {t t' : Term}
    (ht : (Coupling.expanded cut c.limit c.aliases).Terms 0 t t') :
    (Coupling.expanded cut c.limit c.aliases).Runs (c.infer c.limit.levels t)
      (c.bare.infer c.limit.levels t') c.freshContext c.bare.freshContext := by
  let K : Coupling c.limit c.bare.limit := Coupling.expanded cut c.limit c.aliases
  have hparts : K.Parts (c.infer c.limit.levels) (c.bare.infer c.limit.levels) :=
    K.infer_inStep (Nat.le_refl _) fun ht =>
      .inr ⟨rfl, .inl (congrArg some (ht.overrun_congr c.limit))⟩
  exact hparts ⟨rfl, Context.good_fresh c.aliases c.limit, rfl, rfl⟩ ht

/-- The check of an expansion without aliases ends as the check of the term does. -/
theorem typeOfClosed_bare (c : Checker) {t t' : Term} (h : c.freshContext.expandTerm t = .ok t') :
    (c.bare.typeOfClosed t').result = (c.typeOfClosed t).result := by
  have hterm : (Coupling.expanded False c.limit c.aliases).Terms 0 t t' :=
    Term.mapTypes_alike (fun hT => .inl (mapError_eq_ok.1 hT)) (fun _ => rfl) h
  cases c.infer_expanded False hterm with
  | ok hrun hrun' _ =>
    rw [typeOfClosed, typeOfClosed, run_typeOf_of_ok hrun, run_typeOf_of_ok hrun']
  | stop hrun he =>
    obtain he | ⟨hcut, -⟩ := he
    · contradiction
    · exact hcut.elim
  | @error e e' _ _ hrun hrun' he =>
    obtain he | ⟨hcut, -⟩ := he
    · obtain rfl : e' = e := Option.some.inj he
      obtain ⟨_, htop⟩ := run_typeOf_of_error hrun
      obtain ⟨_, htop'⟩ := run_typeOf_of_error hrun'
      rw [typeOfClosed, typeOfClosed, htop, htop', c.settle_bare hterm.span]
    · exact hcut.elim

/-- Aliases may be expanded beforehand. If a term has a type, its expansion succeeds and has the
same type without aliases; and if a term that can be expanded is refused, its expansion is refused
with the same error at the same place. -/
theorem typeOfClosed_expandTerm (c : Checker) (t : Term) :
    (∀ T, (c.typeOfClosed t).result = .ok T → ∃ t', c.freshContext.expandTerm t = .ok t' ∧
      (c.bare.typeOfClosed t').result = .ok T) ∧
    ∀ t' e, c.freshContext.expandTerm t = .ok t' → (c.typeOfClosed t).result = .error e →
      (c.bare.typeOfClosed t').result = .error e := by
  constructor
  · intro T hT
    obtain ⟨t', ht'⟩ := c.exists_expandTerm hT
    exact ⟨t', ht', (c.typeOfClosed_bare ht').trans hT⟩
  · intro t' e ht' he
    exact (c.typeOfClosed_bare ht').trans he

/-- The place of an argument. -/
def argumentSpan : Span :=
  ⟨⟨1, 16, none⟩, ⟨1, 20, none⟩⟩

/-- The identity on a type, applied to a literal. -/
def applied (T : Ty) (value : Literal) : Term :=
  .app (.abs T (.var 0 none) none) (.lit value (some argumentSpan)) none

/-- The identity on the numbers may be applied to a number. Its application to a truth value is
refused, with the place of the argument. -/
theorem typeOfClosed_expandTerm_applied :
    (∃ t', (freshContext ⟨numbers, ⟨9, none⟩, false⟩).expandTerm (applied (.named "N") (.nat 1)) =
        .ok t' ∧
      ((bare ⟨numbers, ⟨9, none⟩, false⟩).typeOfClosed t').result = .ok .nat) ∧
    ((bare ⟨numbers, ⟨9, none⟩, false⟩).typeOfClosed (applied .nat (.bool true))).result =
      .error (.type ⟨.mismatch .nat .bool (some argumentSpan), none⟩) := by
  constructor
  · exact (typeOfClosed_expandTerm _ _).1 .nat rfl
  · have hrefused : (typeOfClosed ⟨numbers, ⟨9, none⟩, false⟩
        (applied (.named "N") (.bool true))).result =
        .error (.type ⟨.mismatch .nat .bool (some argumentSpan), none⟩) := rfl
    exact (typeOfClosed_expandTerm _ _).2 _ _ rfl hrefused

end Checker

end PolyLambda
