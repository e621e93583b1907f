import PolyLambda.Proofs.Height

/-!
# PolyLambda.Proofs.Laws

The laws of shifting and instantiation, for the operations that can run out of levels. The laws of
`PolyLambda.Proofs.Lift` are equations between types. Here both sides are computed in steps, each of
which may fail, and a law has to say more: the two ways of computing fail together.

They do because levels are all that can be missing, and levels are a matter of heights. Lifting does
not change a height, and the instance that comes out last is the same type on both sides.

* `Ty.instantiate_eq_ite`: what an instantiation gives within any number of levels.
* `Ty.instantiate_lift`: instantiation is the same at every depth.
* `Ty.run_instantiate_twice`: two binders can be instantiated in either order.
* `Ty.run_shift_instantiate`: instantiation undoes a lifting, and commutes with shifts.
-/

namespace PolyLambda.Ty

variable {n k c : Nat} {T U A C body : Ty}

/-! ## levels -/

theorem run_shift_of_fits {limit : Limit} (hT : T.WellFormed) (hf : T.Fits limit.levels) :
    (limit.run fun n => T.shift n k) = .ok (T.lift k 0) := by
  rw [Limit.run, shift_of_fits hT hf]
  rfl

theorem height_lift : (T.lift k c).height = T.height := by
  have hle : ∀ n, (T.lift k c).height ≤ n ↔ T.height ≤ n := fun n => by
    rw [← fits_iff, ← fits_iff, fits_lift]
  exact Nat.le_antisymm ((hle _).2 (Nat.le_refl _)) ((hle _).1 (Nat.le_refl _))

/-- An instantiation needs levels for what is put in, for the body and for the instance, and
nothing else. -/
theorem instantiate_eq_ite (hb : body.WellFormed) (hA : A.WellFormed) :
    body.instantiate n A =
      if A.height ≤ n ∧ body.height ≤ n ∧ (body.inst A).height ≤ n then
        .ok (body.inst A)
      else
        .error .tooDeep := by
  split
  · next h => exact (instantiate_eq_ok hb hA).2 h
  · next h =>
    cases hr : body.instantiate n A with
    | ok U =>
      obtain ⟨-, -, rfl⟩ := instantiate_ok hr
      exact absurd ((instantiate_eq_ok hb hA).1 hr) h
    | error e => rw [instantiate_error hb hA hr]

/-- Instantiation is the same at every depth: if the body and what is put in are lifted, so is the
result, and the levels suffice or not as before. -/
theorem instantiate_lift (hb : body.WellFormed) (hA : A.WellFormed) :
    (body.lift k (c + 1)).instantiate n (A.lift k c) =
      (body.instantiate n A).map (·.lift k c) := by
  rw [instantiate_eq_ite (wellFormed_lift.2 hb) (wellFormed_lift.2 hA), instantiate_eq_ite hb hA,
    ← lift_inst, height_lift, height_lift, height_lift]
  split <;> rfl

/-! ## two binders -/

/-- A binder stays when a variable beyond it is replaced, and its body is the one in which the
variable is replaced. -/
theorem instantiate_binder_ok {b : Binder}
    (h : (Ty.binder b T).instantiate n C = .ok (.binder b U)) :
    U = T.instAt 1 C ∧ U.WellFormed ∧ U.Fits n := by
  obtain ⟨hT, hC, hU⟩ := instantiate_ok h
  have hbody : U ∈ (Ty.binder b U).children := by simp [children]
  have hwf : (Ty.binder b U).WellFormed := hU ▸ hT.inst hC
  have hfits : (Ty.binder b U).Fits n := hU ▸ (instantiate_fits h).2.2
  exact ⟨(Ty.binder.inj hU).2, hwf.child hbody, hfits.child hbody⟩

/-- Let the variable of an outer binder be replaced under an inner one, and in what is meant for the
inner one. Then it makes no difference which of the two binders is instantiated first: the same
type comes out, or levels run out in both cases. -/
theorem run_instantiate_twice (limit : Limit) (b : Binder) {T T' B C V W : Ty}
    (hT : (limit.run fun n => (Ty.binder b T).instantiate n C) = .ok (.binder b T'))
    (hV : (limit.run fun n => T.instantiate n B) = .ok V)
    (hW : (limit.run fun n => B.instantiate n C) = .ok W) :
    (limit.run fun n => V.instantiate n C) = limit.run fun n => T'.instantiate n W := by
  have hT := mapError_eq_ok.1 hT
  have hV := mapError_eq_ok.1 hV
  have hW := mapError_eq_ok.1 hW
  obtain ⟨hC, -, hWf⟩ := instantiate_fits hW
  obtain ⟨-, -, hVf⟩ := instantiate_fits hV
  obtain ⟨rfl, hT'wf, hT'f⟩ := instantiate_binder_ok hT
  obtain ⟨hTwf, hBwf, rfl⟩ := instantiate_ok hV
  obtain ⟨-, hCwf, rfl⟩ := instantiate_ok hW
  have hsame : (T.inst B).inst C = (T.instAt 1 C).inst (B.inst C) := instAt_inst T
  -- each way goes over three types, of which the first two fit and the last is the same
  have hinst : (T.inst B).instantiate limit.levels C =
      (T.instAt 1 C).instantiate limit.levels (B.inst C) := by
    rw [instantiate_eq_ite (hTwf.inst hBwf) hCwf, instantiate_eq_ite hT'wf (hBwf.inst hCwf),
      ← hsame]
    simp only [fits_iff.1 hC, fits_iff.1 hVf, fits_iff.1 hWf, fits_iff.1 hT'f, true_and]
  rw [Limit.run, Limit.run, hinst]

/-- Under two binders, a function from the variable of the outer one to a type in which both stand
under a third. -/
def twofold : Ty :=
  .arrow (.var 1) (.binder .ex (.product [.var 0, .var 1, .var 2]))

/-- The type that is put in for the inner variable has the outer one in it, and the one that is put
in for that has a free variable. -/
theorem run_instantiate_twice_twofold :
    (Limit.run ⟨5, none⟩ fun n => (Ty.binder .all twofold).instantiate n (.var 7)) =
        .ok (.binder .all (.arrow (.var 8) (.binder .ex (.product [.var 0, .var 1, .var 9])))) ∧
      (Limit.run ⟨5, none⟩ fun n => twofold.instantiate n (.arrow (.var 0) .nat)) =
        .ok (.arrow (.var 0) (.binder .ex (.product [.var 0, .arrow (.var 1) .nat, .var 1]))) ∧
      (Limit.run ⟨5, none⟩ fun n => (Ty.arrow (.var 0) .nat).instantiate n (.var 7)) =
        .ok (.arrow (.var 7) .nat) ∧
      (Limit.run ⟨5, none⟩ fun n => (Ty.arrow (.var 0)
          (.binder .ex (.product [.var 0, .arrow (.var 1) .nat, .var 1]))).instantiate n (.var 7)) =
        .ok (.arrow (.var 7) (.binder .ex (.product [.var 0, .arrow (.var 8) .nat, .var 8]))) := by
  have houter : (Limit.run ⟨5, none⟩ fun n => (Ty.binder .all twofold).instantiate n (.var 7)) =
      .ok (.binder .all (.arrow (.var 8) (.binder .ex (.product [.var 0, .var 1, .var 9])))) := rfl
  have hinner : (Limit.run ⟨5, none⟩ fun n => twofold.instantiate n (.arrow (.var 0) .nat)) =
      .ok (.arrow (.var 0) (.binder .ex (.product [.var 0, .arrow (.var 1) .nat, .var 1]))) := rfl
  have harg : (Limit.run ⟨5, none⟩ fun n => (Ty.arrow (.var 0) .nat).instantiate n (.var 7)) =
      .ok (.arrow (.var 7) .nat) := rfl
  exact ⟨houter, hinner, harg, run_instantiate_twice _ _ houter hinner harg⟩

/-! ## shifts -/

/-- What has been lifted under a binder is not changed when the binder is instantiated, so that
levels are needed only for the type that is put in. An instance can be shifted before or after: the
same type comes out, or levels run out in both cases. -/
theorem run_shift_instantiate (limit : Limit) :
    (∀ {A T L : Ty}, A.WellFormed → (limit.run fun n => T.shift n 1) = .ok L →
        (limit.run fun n => L.instantiate n A) =
          if A.height ≤ limit.levels then .ok T else .error (limit.overrun none)) ∧
      ∀ (d : Nat) (b : Binder) {A A' B B' : Ty},
        (limit.run fun n => (Ty.binder b B).shift n d) = .ok (.binder b B') →
        (limit.run fun n => A.shift n d) = .ok A' →
        ((limit.run fun n => B.instantiate n A) >>= fun V => limit.run fun n => V.shift n d) =
          limit.run fun n => B'.instantiate n A' := by
  constructor
  · intro A T L hA hL
    obtain ⟨hT, hTf, rfl⟩ := shift_ok (k := 1) (mapError_eq_ok.1 hL)
    rw [Limit.run, instantiate_eq_ite (wellFormed_lift.2 hT) hA, height_lift, inst_lift]
    simp only [fits_iff.1 hTf, and_true]
    split <;> rfl
  · intro d b A A' B B' hB hA
    obtain ⟨hBwf, -, hB'⟩ := shift_ok (k := d) (mapError_eq_ok.1 hB)
    obtain ⟨hAwf, -, rfl⟩ := shift_ok (k := d) (mapError_eq_ok.1 hA)
    have hbody : B.WellFormed := hBwf.child (by simp [children])
    obtain rfl : B' = B.lift d 1 := (Ty.binder.inj hB').2
    rw [Limit.run, Limit.run, instantiate_lift hbody hAwf]
    cases hV : B.instantiate limit.levels A with
    | error e => rfl
    | ok V =>
      obtain ⟨-, -, hVf⟩ := instantiate_fits hV
      obtain ⟨-, -, rfl⟩ := instantiate_ok hV
      exact run_shift_of_fits (hbody.inst hAwf) hVf

/-- A type that is lifted under a binder and taken out again, and one that is instantiated under two
further scopes. -/
theorem run_shift_instantiate_polymorphic :
    stray.WellFormed ∧
      (Limit.run ⟨4, none⟩ fun n => polymorphic.shift n 1) =
        .ok (.binder .all (.arrow (.var 2) (.var 3))) ∧
      (Limit.run ⟨4, none⟩ fun n =>
          (Ty.binder .all (.arrow (.var 2) (.var 3))).instantiate n stray) = .ok polymorphic ∧
      (Limit.run ⟨4, none⟩ fun n => (Ty.binder .ex polymorphic).shift n 2) =
        .ok (.binder .ex (.binder .all (.arrow (.var 1) (.var 4)))) ∧
      (Limit.run ⟨4, none⟩ fun n => stray.shift n 2) = .ok (.arrow (.var 2) (.var (-1))) ∧
      (Limit.run ⟨4, none⟩ fun n =>
          (Ty.binder .all (.arrow (.var 1) (.var 4))).instantiate n (.arrow (.var 2) (.var (-1)))) =
        .ok (.binder .all (.arrow (.arrow (.var 3) (.var (-1))) (.var 3))) := by
  have hstray : stray.WellFormed := (shift_ok (n := 2) (k := 0) rfl).1
  have hlifted : (Limit.run ⟨4, none⟩ fun n => polymorphic.shift n 1) =
      .ok (.binder .all (.arrow (.var 2) (.var 3))) := rfl
  have hbody : (Limit.run ⟨4, none⟩ fun n => (Ty.binder .ex polymorphic).shift n 2) =
      .ok (.binder .ex (.binder .all (.arrow (.var 1) (.var 4)))) := rfl
  have harg : (Limit.run ⟨4, none⟩ fun n => stray.shift n 2) =
      .ok (.arrow (.var 2) (.var (-1))) := rfl
  obtain ⟨hcancel, hcommute⟩ := run_shift_instantiate ⟨4, none⟩
  exact ⟨hstray, hlifted, hcancel hstray hlifted, hbody, harg, (hcommute 2 .ex hbody harg).symm⟩

end PolyLambda.Ty
