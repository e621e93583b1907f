import PolyLambda.Check.Action
import PolyLambda.Coverage

/-!
# PolyLambda.Check.Rules

The typing rules, one for each form of term. A rule computes the type of a term from the
types of its parts, which it gets from the function `infer` it is given; tying the knot is
left to `PolyLambda.Check.Checker`. Annotations are resolved before they are used, so types
are compared in resolved form.

Declarations are checked in the same way, given the check of a single term.
-/

namespace PolyLambda.Check

/-- Resolves a type in the present context. -/
def resolve (T : Ty) : Check Ty :=
  ask (·.resolve T)

/-- Instantiates a binder and resolves the instance, since an instantiation can give new
work to the normaliser. -/
def instantiate (limit : Limit) (body A : Ty) : Check Ty := do
  resolve (← ofExcept (limit.run fun n => body.instantiate n A))

/-- Refuses a part whose type is not the expected one. -/
def expect (expected actual : Ty) (part whole : Term) : Check Unit :=
  if actual = expected then
    pure ()
  else
    reject (.mismatch expected actual part.span) whole.span

/-- Takes a type out of the scope of a type variable, which may not occur in it. -/
def lower (limit : Limit) (B : Ty) (span : Option Span) : Check Ty := do
  if ← ofExcept (limit.run fun n => B.occurs n 0) then
    reject (.escape B) span
  else
    ofExcept (limit.run fun n => B.shift n (-1))

/-- The type that all arms agree on. Each arm is checked with the types it binds; an arm
that differs from the first is refused at its own place, or at the place of the whole case.
-/
def armsType [Checks m] (infer : Term → m Ty) (span : Option Span) :
    List (Arm Term × List Ty) → m Ty
  | [] => fail .noArm
  | (arm, bound) :: rest => do
    let first ← Checks.binding bound (infer arm.body)
    rest.forM fun (arm, bound) => do
      let other ← Checks.binding bound (infer arm.body)
      if other = first then
        pure ()
      else
        reject (.arms first other) (arm.span <|> span)
    return first

/-- The type of a term, given the types of its parts. -/
def rule [Checks m] (limit : Limit) (infer : Term → m Ty) (t : Term) : m Ty :=
  match t with
  | .hole => fail .termHole
  | .lit value _ => pure value.ty
  | .var index span => do
    match ← ask (·.find index) with
    | some T => pure T
    | none => reject (.unbound index) span
  | .abs param body _ => do
    let A ← resolve param
    let B ← Checks.binding [A] (infer body)
    return .arrow A B
  | .app fn arg span => do
    let F ← infer fn
    let A ← infer arg
    match F with
    | .arrow dom cod => do
      expect dom A arg t
      return cod
    | _ => reject (.notArrow F) span
  | .fix inner span => do
    let F ← infer inner
    match F with
    | .arrow dom cod => do
      expect dom cod inner t
      return dom
    | _ => reject (.notArrow F) span
  | .ite guard yes no span => do
    let G ← infer guard
    if G = .bool then
      let A ← infer yes
      let B ← infer no
      if A = B then return A else reject (.arms A B) span
    else
      reject (.guard G) (guard.span <|> span)
  | .inject label payload ty span => do
    let V ← resolve ty
    match V with
    | .variant fields =>
      match Ty.field? fields label with
      | some T => do
        let A ← infer payload
        expect T A payload t
        return V
      | none => reject (.notVariant V (some label)) span
    | _ => reject (.notVariant V none) span
  | .proj inner index span => do
    let P ← infer inner
    match P with
    | .product Ts =>
      match Ty.item? Ts index with
      | some T => pure T
      | none => reject (.projection index Ts.length) span
    | _ => reject (.notProduct P) span
  | .tuple items _ => do
    return .product (← items.mapM infer)
  | .letIn bound body _ => do
    let A ← infer bound
    Checks.binding [A] (infer body)
  | .tyAbs body _ => do
    return .binder .all (← Checks.inScope (infer body))
  | .tyApp inner arg span => do
    let A ← resolve arg
    let F ← infer inner
    match F with
    | .binder .all body => instantiate limit body A
    | _ => reject (.notUniversal F) span
  | .roll ty inner span => do
    let R ← resolve ty
    match R with
    | .binder .mu body => do
      let unrolled ← instantiate limit body R
      let A ← infer inner
      expect unrolled A inner t
      return R
    | _ => reject (.notRecursive R) span
  | .unroll ty inner span => do
    let R ← resolve ty
    match R with
    | .binder .mu body => do
      let A ← infer inner
      expect R A inner t
      instantiate limit body R
    | _ => reject (.notRecursive R) span
  | .pack witness inner ty span => do
    let W ← resolve witness
    let E ← resolve ty
    match E with
    | .binder .ex body => do
      let expected ← instantiate limit body W
      let A ← infer inner
      expect expected A inner t
      return E
    | _ => reject (.notExistential E) span
  | .unpack package body span => do
    let P ← infer package
    match P with
    | .binder .ex hidden => do
      let B ← Checks.inScope (Checks.binding [hidden] (infer body))
      lower limit B span
    | _ => reject (.notExistential P) span
  | .caseOf scrutinee arms span => do
    let V ← infer scrutinee
    match V with
    | .variant fields => do
      let bound ← ofExcept ((Coverage.check fields span arms).mapError .type)
      armsType infer span (arms.zip bound)
    | _ => reject (.notVariant V none) (scrutinee.span <|> span)

/-- Checks declarations in order, with the check of terms that is given. A named type is known from
there on; a checked term is bound as variable `0` for the declarations after it. -/
def declarations [Checks m] (typeOf : Term → m Ty) (types : Table Ty) :
    List Declaration → m (Table Ty)
  | [] => pure types
  | .hole :: rest => declarations typeOf types rest
  | .type name ty :: rest => do
    Check.define name ty
    declarations typeOf types rest
  | .term name body :: rest => do
    let T ← typeOf body
    Check.emit (.declared name T)
    Checks.binding [T] (declarations typeOf (types.insert name T) rest)

end PolyLambda.Check
