import PolyLambda.Ty.Traverse

/-!
# PolyLambda.Ty.Shift

De Bruijn arithmetic on types: shifting free variables, substituting for the variable of the
nearest binder, instantiating a binder, and asking whether a variable is free. A variable
with index `i` under `c` binders is free when `c ≤ i`, and stands for index `i - c` outside.
-/

namespace PolyLambda.Ty

/-- What a shift by `amount` makes of a variable: bound ones stay, and so does every
variable when nothing is added. -/
def shiftVar (amount : Int) (under : Nat) (index : Int) : Except Fault Ty :=
  if index < under ∨ amount = 0 then
    .ok (.var index)
  else if index + amount < 0 then
    .error (.negative index amount)
  else
    .ok (.var (index + amount))

/-- Adds `amount` to every free variable. -/
def shift (levels : Nat) (amount : Int) (T : Ty) : Except Fault Ty :=
  T.mapVars (shiftVar amount) levels 0

/-- What a substitution makes of a variable: the one it replaces gets the replacement,
lifted over the binders that stand between. -/
def substVar (levels : Nat) (A : Ty) (under : Nat) (index : Int) : Except Fault Ty :=
  if index = under then A.shift levels under else .ok (.var index)

/-- Replaces variable `0` of `T` by `A` and leaves every other index as it is. -/
def subst (levels : Nat) (T A : Ty) : Except Fault Ty :=
  T.mapVars (substVar levels A) levels 0

/-- Instantiates the binder over `body` with `A`: `A` is lifted under the binder, put in the
place of its variable, and the binder's index is closed up. -/
def instantiate (levels : Nat) (body A : Ty) : Except Fault Ty := do
  let lifted ← A.shift levels 1
  let opened ← body.subst levels lifted
  opened.shift levels (-1)

/-- Whether variable `index` is free in `T`. The whole type is traversed, so it has to fit
the levels even if an early occurrence settles the question. -/
def occurs (levels : Nat) (index : Int) (T : Ty) : Except Fault Bool :=
  match T.visit levels 0 with
  | ⟨_, some fault⟩ => .error fault
  | ⟨seen, none⟩ => .ok (seen.any fun o => o.index = index + o.under)

end PolyLambda.Ty
