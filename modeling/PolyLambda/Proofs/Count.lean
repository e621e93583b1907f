import PolyLambda.Check.Checker

/-!
# PolyLambda.Proofs.Count

A checker at work counts the levels it is in, and this count decides how far it goes down. The same
can be said without a count: a checker that has a number of levels left goes down as long as there
are any. The two agree, and the count is always taken back.

* `Work.Keeps`: work beside a check that does the same, where the work starts and ends with the same
  count. There is one rule for each way of putting computations together.
* `Checker.synthesize_keeps`: a term is given its type with the levels that are left at a count.
* `Checker.run_typeOf` and `Checker.program_eq` say what this means for a checker that is in no
  level: nothing depends on the count.
-/

namespace PolyLambda

namespace Work

variable {α β : Type} {d : Nat} {x : Work α} {y : Check α}

/-- At this count the work does what the check does, and leaves the count as it is. -/
def Keeps (d : Nat) (x : Work α) (y : Check α) : Prop :=
  ∀ Γ, x.run d Γ = (y.run Γ, d)

/-! ## putting computations together -/

theorem keeps_ofCheck (y : Check α) : Keeps d (ofCheck y) y :=
  fun _ => rfl

/-- One piece of work after another: both keep the count, so the second starts from the same one. -/
theorem Keeps.bind {f : α → Work β} {g : α → Check β} (h : Keeps d x y)
    (hf : ∀ a, Keeps d (f a) (g a)) : Keeps d (x >>= f) (y >>= g) := by
  intro Γ
  change (Work.bind x f).run d Γ = _
  rcases hy : y.run Γ with ⟨e | a, Δ, log⟩
  · rw [Check.run_bind_of_error hy]
    simp only [Work.bind, h Γ, hy]
  · rw [Check.run_bind_of_ok hy]
    simp only [Work.bind, h Γ, hy, hf a Δ]

/-- After a failure there is nothing more to be compared. -/
theorem Keeps.bind_fail {e : Fault} (h : Keeps d x (Check.fail e)) (f : α → Work β) :
    Keeps d (x >>= f) (Check.fail e) := by
  intro Γ
  change (Work.bind x f).run d Γ = _
  simp only [Work.bind, h Γ, Check.fail]

/-- What is done at the end knows nothing of the count. -/
theorem Keeps.ensuring (h : Keeps d x y) (last : Check Unit) :
    Keeps d (ensuring x (ofCheck last)) (Check.ensuring y last) := by
  intro Γ
  simp only [Work.ensuring, h Γ]
  rfl

/-- Work with variables bound around it. -/
theorem Keeps.binding (h : Keeps d x y) (Ts : List Ty) :
    Keeps d (Checks.binding Ts x) (Check.binding Ts y) :=
  (keeps_ofCheck _).bind fun _ => h.ensuring _

/-- Work inside a type scope. -/
theorem Keeps.inScope (h : Keeps d x y) : Keeps d (Checks.inScope x) (Check.inScope y) :=
  (keeps_ofCheck _).bind fun _ => h.ensuring _

theorem Keeps.forM {γ : Type} {f : γ → Work Unit} {g : γ → Check Unit}
    (h : ∀ c, Keeps d (f c) (g c)) (cs : List γ) : Keeps d (cs.forM f) (cs.forM g) := by
  induction cs with
  | nil => exact keeps_ofCheck (pure ())
  | cons c cs ih => exact (h c).bind fun _ => ih

/-- Work on each of a list. It is done with an accumulator, which the statement is generalised over.
-/
theorem Keeps.mapM {γ : Type} {f : γ → Work α} {g : γ → Check α}
    (h : ∀ c, Keeps d (f c) (g c)) (cs : List γ) : Keeps d (cs.mapM f) (cs.mapM g) := by
  have hloop : ∀ acc, Keeps d (List.mapM.loop f cs acc) (List.mapM.loop g cs acc) := by
    induction cs with
    | nil => exact fun acc => keeps_ofCheck _
    | cons c cs ih => exact fun acc => (h c).bind fun a => ih (a :: acc)
  exact hloop []

/-! ## one level down -/

/-- Below the limit the work is done one level down, and one is taken off the count that it leaves.
-/
theorem run_level_of_lt {most : Nat} (h : d < most) (fault : Fault) (x : Work α) (Γ : Context) :
    (level most fault x).run d Γ = ((x.run (d + 1) Γ).1, (x.run (d + 1) Γ).2 - 1) := by
  have hmost : ¬ most < d + 1 := by omega
  rcases hx : x.run (d + 1) Γ with ⟨⟨r, Δ, log⟩, e⟩
  cases r <;> simp only [level, bind, Work.bind, ensuring, enter, count, leave, if_neg hmost, hx,
    List.nil_append, List.append_nil]

/-- At the limit the work is not begun. -/
theorem run_level_of_le {most : Nat} (h : most ≤ d) (fault : Fault) (x : Work α) (Γ : Context) :
    (level most fault x).run d Γ = (⟨.error fault, Γ, []⟩, d) := by
  have hmost : most < d + 1 := by omega
  simp only [level, bind, Work.bind, ensuring, enter, count, leave, if_pos hmost, ofCheck,
    Check.fail, List.append_nil, Nat.add_sub_cancel]

/-- With a level left, the count is one higher inside and the same afterwards. -/
theorem Keeps.level {most : Nat} (hd : d < most) (fault : Fault) (h : Keeps (d + 1) x y) :
    Keeps d (level most fault x) y := by
  intro Γ
  rw [run_level_of_lt hd, h Γ]
  rfl

/-- With no level left, the count is taken back before the work fails. -/
theorem keeps_level_fail {most : Nat} (hd : most ≤ d) (fault : Fault) (x : Work α) :
    Keeps d (Work.level most fault x) (Check.fail fault) :=
  run_level_of_le hd fault x

end Work

/-! ## the rules -/

namespace Check

open Work

variable {d : Nat} {limit : Limit} {infer : Term → Work Ty} {infer' : Term → Check Ty}

/-- The arms are worked on one after another, at the same count. -/
theorem armsType_keeps (h : ∀ t, Keeps d (infer t) (infer' t)) (span : Option Span)
    (arms : List (Arm Term × List Ty)) :
    Keeps d (armsType infer span arms) (armsType infer' span arms) := by
  cases arms with
  | nil => exact keeps_ofCheck _
  | cons first rest =>
    refine ((h first.1.body).binding first.2).bind fun T => ?_
    refine (Keeps.forM (fun b => ?_) rest).bind fun _ => keeps_ofCheck _
    refine ((h b.1.body).binding b.2).bind fun U => ?_
    split
    · exact keeps_ofCheck _
    · exact keeps_ofCheck _

/-- A look-up needs no other work. -/
theorem var_keeps (i : Int) (s : Option Span) :
    Keeps d (rule limit infer (.var i s)) (rule limit infer' (.var i s)) := by
  refine (keeps_ofCheck _).bind fun T => ?_
  split <;> exact keeps_ofCheck _

theorem app_keeps {fn arg : Term} (hf : Keeps d (infer fn) (infer' fn))
    (ha : Keeps d (infer arg) (infer' arg)) (s : Option Span) :
    Keeps d (rule limit infer (.app fn arg s)) (rule limit infer' (.app fn arg s)) := by
  refine hf.bind fun F => ha.bind fun A => ?_
  split
  · exact (keeps_ofCheck _).bind fun _ => keeps_ofCheck _
  · exact keeps_ofCheck _

theorem fix_keeps {inner : Term} (h : Keeps d (infer inner) (infer' inner)) (s : Option Span) :
    Keeps d (rule limit infer (.fix inner s)) (rule limit infer' (.fix inner s)) := by
  refine h.bind fun F => ?_
  split
  · exact (keeps_ofCheck _).bind fun _ => keeps_ofCheck _
  · exact keeps_ofCheck _

theorem ite_keeps {guard yes no : Term} (hg : Keeps d (infer guard) (infer' guard))
    (hy : Keeps d (infer yes) (infer' yes)) (hn : Keeps d (infer no) (infer' no))
    (s : Option Span) :
    Keeps d (rule limit infer (.ite guard yes no s)) (rule limit infer' (.ite guard yes no s)) := by
  refine hg.bind fun G => ?_
  split
  · refine hy.bind fun A => hn.bind fun B => ?_
    split <;> exact keeps_ofCheck _
  · exact keeps_ofCheck _

theorem inject_keeps {payload : Term} (h : Keeps d (infer payload) (infer' payload))
    (label : String) (V : Ty) (s : Option Span) :
    Keeps d (rule limit infer (.inject label payload V s))
      (rule limit infer' (.inject label payload V s)) := by
  refine (keeps_ofCheck _).bind fun V => ?_
  split
  · split
    · exact h.bind fun A => (keeps_ofCheck _).bind fun _ => keeps_ofCheck _
    · exact keeps_ofCheck _
  · exact keeps_ofCheck _

theorem proj_keeps {inner : Term} (h : Keeps d (infer inner) (infer' inner)) (i : Int)
    (s : Option Span) :
    Keeps d (rule limit infer (.proj inner i s)) (rule limit infer' (.proj inner i s)) := by
  refine h.bind fun P => ?_
  split
  · split <;> exact keeps_ofCheck _
  · exact keeps_ofCheck _

theorem tyApp_keeps {inner : Term} (h : Keeps d (infer inner) (infer' inner)) (A : Ty)
    (s : Option Span) :
    Keeps d (rule limit infer (.tyApp inner A s)) (rule limit infer' (.tyApp inner A s)) := by
  refine (keeps_ofCheck _).bind fun A => h.bind fun F => ?_
  split <;> exact keeps_ofCheck _

theorem roll_keeps {inner : Term} (h : Keeps d (infer inner) (infer' inner)) (R : Ty)
    (s : Option Span) :
    Keeps d (rule limit infer (.roll R inner s)) (rule limit infer' (.roll R inner s)) := by
  refine (keeps_ofCheck _).bind fun R => ?_
  split
  · exact (keeps_ofCheck _).bind fun U => h.bind fun A =>
      (keeps_ofCheck _).bind fun _ => keeps_ofCheck _
  · exact keeps_ofCheck _

theorem unroll_keeps {inner : Term} (h : Keeps d (infer inner) (infer' inner)) (R : Ty)
    (s : Option Span) :
    Keeps d (rule limit infer (.unroll R inner s)) (rule limit infer' (.unroll R inner s)) := by
  refine (keeps_ofCheck _).bind fun R => ?_
  split
  · exact h.bind fun A => (keeps_ofCheck _).bind fun _ => keeps_ofCheck _
  · exact keeps_ofCheck _

theorem pack_keeps {inner : Term} (h : Keeps d (infer inner) (infer' inner)) (W X : Ty)
    (s : Option Span) :
    Keeps d (rule limit infer (.pack W inner X s)) (rule limit infer' (.pack W inner X s)) := by
  refine (keeps_ofCheck _).bind fun W => (keeps_ofCheck _).bind fun X => ?_
  split
  · exact (keeps_ofCheck _).bind fun U => h.bind fun A =>
      (keeps_ofCheck _).bind fun _ => keeps_ofCheck _
  · exact keeps_ofCheck _

/-- The body is worked on inside a scope and with a variable bound, at the same count. -/
theorem unpack_keeps {package body : Term} (hp : Keeps d (infer package) (infer' package))
    (hb : Keeps d (infer body) (infer' body)) (s : Option Span) :
    Keeps d (rule limit infer (.unpack package body s))
      (rule limit infer' (.unpack package body s)) := by
  refine hp.bind fun P => ?_
  split
  · exact (hb.binding _).inScope.bind fun B => keeps_ofCheck _
  · exact keeps_ofCheck _

/-- The patterns are checked in between, without any work. -/
theorem caseOf_keeps {scrutinee : Term} (hs : Keeps d (infer scrutinee) (infer' scrutinee))
    (h : ∀ t, Keeps d (infer t) (infer' t)) (arms : List (Arm Term)) (s : Option Span) :
    Keeps d (rule limit infer (.caseOf scrutinee arms s))
      (rule limit infer' (.caseOf scrutinee arms s)) := by
  refine hs.bind fun V => ?_
  split
  · exact (keeps_ofCheck _).bind fun bound => armsType_keeps h s _
  · exact keeps_ofCheck _

/-- A rule is carried out alike where the checks of all terms are. -/
theorem rule_keeps (h : ∀ t, Keeps d (infer t) (infer' t)) (t : Term) :
    Keeps d (rule limit infer t) (rule limit infer' t) := by
  cases t with
  | hole => exact keeps_ofCheck _
  | lit value s => exact keeps_ofCheck _
  | var i s => exact var_keeps i s
  | abs P body s =>
    exact (keeps_ofCheck _).bind fun A => ((h body).binding [A]).bind fun B => keeps_ofCheck _
  | app fn arg s => exact app_keeps (h fn) (h arg) s
  | fix inner s => exact fix_keeps (h inner) s
  | ite guard yes no s => exact ite_keeps (h guard) (h yes) (h no) s
  | inject label payload V s => exact inject_keeps (h payload) label V s
  | proj inner i s => exact proj_keeps (h inner) i s
  | tuple items s => exact (Keeps.mapM h items).bind fun Ts => keeps_ofCheck _
  | letIn bound body s => exact (h bound).bind fun A => (h body).binding [A]
  | tyAbs body s => exact (h body).inScope.bind fun B => keeps_ofCheck _
  | tyApp inner A s => exact tyApp_keeps (h inner) A s
  | roll R inner s => exact roll_keeps (h inner) R s
  | unroll R inner s => exact unroll_keeps (h inner) R s
  | pack W inner X s => exact pack_keeps (h inner) W X s
  | unpack package body s => exact unpack_keeps (h package) (h body) s
  | caseOf scrutinee arms s => exact caseOf_keeps (h scrutinee) h arms s

end Check

/-! ## the checker -/

namespace Checker

open Work

variable {c : Checker}

/-- At a count, a term is given its type as with the levels that are left, unless the recursion is
bounded by fewer. -/
theorem synthesize_keeps (c : Checker) (n d : Nat) (t : Term) :
    Keeps d (c.synthesize n t) (c.infer (min n (c.limit.levels - d)) t) := by
  -- the recursion ends at its bound or when no level is left, whichever comes first
  induction n generalizing d t with
  | zero =>
    rw [Nat.zero_min]
    exact keeps_ofCheck _
  | succ n ih =>
    by_cases hd : d < c.limit.levels
    · have hmin : min (n + 1) (c.limit.levels - d) = min n (c.limit.levels - (d + 1)) + 1 := by
        omega
      rw [hmin]
      refine (Keeps.level hd _ (Check.rule_keeps (ih (d + 1)) t)).bind fun T => ?_
      split
      · exact (keeps_ofCheck _).bind fun _ => keeps_ofCheck _
      · exact keeps_ofCheck _
    · have hmin : min (n + 1) (c.limit.levels - d) = 0 := by omega
      rw [hmin]
      exact (keeps_level_fail (Nat.le_of_not_lt hd) _ _).bind_fail _

/-- A checker in some levels checks a term with the levels that are left, and is in the same levels
afterwards. -/
theorem run_check (c : Checker) (t : Term) (d : Nat) (Γ : Context) :
    (c.check t).run d Γ = (c.conclude t ((c.infer (c.limit.levels - d) t).run Γ), d) := by
  have hmin : min c.limit.levels (c.limit.levels - d) = c.limit.levels - d := by omega
  simp only [check, synthesize_keeps c c.limit.levels d t Γ, hmin]

/-- The check of a term is the inference with all levels, concluded. -/
theorem run_typeOf (c : Checker) (t : Term) (Γ : Context) :
    (c.typeOf t).run Γ = c.conclude t ((c.infer c.limit.levels t).run Γ) := by
  simp only [typeOf, run_check, Nat.sub_zero]

/-- Checks declarations with a checker that is in no level. -/
def declarations (c : Checker) (types : Table Ty) (ds : List Declaration) : Check (Table Ty) :=
  Check.declarations c.typeOf types ds

/-- A name for a type is defined, and the rest is checked. -/
theorem declarations_type (types : Table Ty) (name : String) (ty : Ty) (ds : List Declaration) :
    c.declarations types (.type name ty :: ds) =
      Check.define name ty >>= fun _ => c.declarations types ds := rfl

/-- A term is checked, and its type bound for the rest. -/
theorem declarations_term (types : Table Ty) (name : String) (t : Term) (ds : List Declaration) :
    c.declarations types (.term name t :: ds) =
      c.typeOf t >>= fun T => Check.emit (.declared name T) >>= fun _ =>
        Check.binding [T] (c.declarations (types.insert name T) ds) := rfl

/-- A whole program is checked outside all levels. -/
theorem declarations_keeps (c : Checker) (types : Table Ty) (ds : List Declaration) :
    Keeps 0 (Check.declarations c.check types ds) (c.declarations types ds) := by
  induction ds generalizing types with
  | nil => exact keeps_ofCheck _
  | cons d ds ih =>
    cases d with
    | hole => exact ih types
    | type name ty => exact (keeps_ofCheck _).bind fun _ => ih types
    | term name t =>
      have ht : Keeps 0 (c.check t) (c.typeOf t) := fun Γ => by
        rw [run_check, run_typeOf, Nat.sub_zero]
      exact ht.bind fun T => (keeps_ofCheck _).bind fun _ => (ih _).binding [T]

/-- The check of a program is the same without a count. -/
theorem program_eq (c : Checker) (ds : List Declaration) :
    c.program ds = (c.declarations ∅ ds).run c.freshContext := by
  rw [program, checkAll, declarations_keeps c ∅ ds]

end Checker

end PolyLambda
