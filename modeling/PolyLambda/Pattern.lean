/-!
# PolyLambda.Pattern

Patterns of case arms: a variable pattern binds what it meets, a constructor pattern asks
for one label of a variant, a product pattern takes a tuple apart.

Main statements: `Pattern.induct` (induction over patterns) and `Pattern.same_iff` (the
comparison decides equality).
-/

namespace PolyLambda

/-- Patterns. -/
inductive Pattern where
  | wild
  | bind
  | product (items : List Pattern)
  | con (label : String) (payload : Pattern)

namespace Pattern

/-- Induction over patterns. -/
@[induction_eliminator]
theorem induct {motive : Pattern → Prop} (wild : motive .wild) (bind : motive .bind)
    (product : ∀ items : List Pattern, (∀ p ∈ items, motive p) → motive (.product items))
    (con : ∀ label payload, motive payload → motive (.con label payload)) (p : Pattern) :
    motive p :=
  @Pattern.rec motive (fun items => ∀ q ∈ items, motive q) wild bind product con
    (fun _ h => nomatch h)
    (fun _ _ first rest _ h => (List.mem_cons.1 h).elim (fun e => e ▸ first) (rest _)) p

mutual
/-- Structural comparison. -/
def same : Pattern → Pattern → Bool
  | .wild, .wild => true
  | .bind, .bind => true
  | .product ps, .product qs => sameItems ps qs
  | .con l p, .con m q => l = m && same p q
  | _, _ => false

/-- Structural comparison of the components of two product patterns. -/
def sameItems : List Pattern → List Pattern → Bool
  | [], [] => true
  | p :: ps, q :: qs => same p q && sameItems ps qs
  | _, _ => false
end

mutual
/-- The comparison decides equality. -/
theorem same_iff : ∀ {p q : Pattern}, same p q = true ↔ p = q
  | .wild, q => by cases q <;> simp [same]
  | .bind, q => by cases q <;> simp [same]
  | .product _, q => by cases q <;> simp [same, sameItems_iff]
  | .con _ _, q => by cases q <;> simp [same, same_iff]

theorem sameItems_iff : ∀ {ps qs : List Pattern}, sameItems ps qs = true ↔ ps = qs
  | [], qs => by cases qs <;> simp [sameItems]
  | _ :: _, qs => by cases qs <;> simp [sameItems, same_iff, sameItems_iff]
end

instance : DecidableEq Pattern := fun _ _ => decidable_of_iff _ same_iff

mutual
/-- The text of a pattern. -/
def render : Pattern → String
  | .wild => "_"
  | .bind => "x"
  | .product items => "(" ++ ", ".intercalate (renderItems items) ++ ")"
  | .con label payload => label ++ " " ++ payload.render

/-- The texts of the components of a product pattern. -/
def renderItems : List Pattern → List String
  | [] => []
  | p :: ps => p.render :: renderItems ps
end

end Pattern

end PolyLambda
