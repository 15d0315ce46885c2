import Gradual.Types.Inference

/-!
# Narrowing

A condition that holds, or fails, says something about the variable it tests. Conditions that name a
type fix the variable's type; their complements leave it as it was.
-/

namespace Gradual

variable {ω : Type}

/-- What a condition says about a variable. -/
inductive Fact where
  | hasType (name : Text)
  | lacksType (name : Text)
  | isUndefined
  | isDefined
  | isNull
  | isNotNull
  | isTruthy
  | isFalsy
deriving DecidableEq, Repr

namespace Fact

/-- What the failing condition says. -/
def complement : Fact → Fact
  | hasType name => lacksType name
  | lacksType name => hasType name
  | isUndefined => isDefined
  | isDefined => isUndefined
  | isNull => isNotNull
  | isNotNull => isNull
  | isTruthy => isFalsy
  | isFalsy => isTruthy

/-- The fact if the test is positive, else its complement. -/
def signed (positive : Bool) (fact : Fact) : Fact := if positive then fact else fact.complement

end Fact

/-- A variable whose type is refined by a fact. -/
structure Refinement (ω : Type) where
  subject : Text
  type : Resolution ω
  fact : Fact

namespace Narrowing

/-! ## Reading conditions -/

/-- Primitive types by their lower-case names. -/
def primitiveNames : List (Text × Primitive) :=
  [("строка", .string), ("string", .string), ("число", .number), ("number", .number),
    ("булево", .boolean), ("boolean", .boolean), ("дата", .date), ("date", .date)]

/-- A type that conditions can name. -/
inductive NamedType where
  | primitive (p : Primitive)
  | platform (name : Text)
deriving DecidableEq, Repr

/-- The concrete type that was named. -/
def NamedType.concrete : NamedType → Concrete ω
  | .primitive p => .primitive p
  | .platform name => .platform name [] []

/-- The type that a name in a condition stands for. -/
def namedType? (name : Text) : Option NamedType :=
  match primitiveNames.find? fun e => e.1 == name.lower with
  | some e => some (.primitive e.2)
  | none => (platformName? name).map .platform

/-- The arguments of a call of one of the names, which are in lower case. -/
def callOf? (names : List Text) : Expr → Option (List Expr)
  | .call (.ident name _) args _ => if names.contains name.lower then some args else none
  | _ => none

/-- The undefined value, as a literal or by name. -/
def isUndefinedValue : Expr → Bool
  | .undefined _ => true
  | .ident name _ => name.lower == "неопределено" || name.lower == "undefined"
  | _ => false

/-- The null value, as a literal or by name. -/
def isNullValue : Expr → Bool
  | .null _ => true
  | .ident name _ => name.lower == "null"
  | _ => false

/-- What an equation (or, if not positive, an inequation) says about a variable. -/
def ofEquation (positive : Bool) (left right : Expr) : Option (Text × Fact) :=
  match callOf? ["типзнч", "typeof"] left, callOf? ["тип", "type"] right with
  | some subject, some type =>
    match subject.head?, type.head? with
    | some (.ident name _), some (.string typeName _) =>
      if (namedType? typeName).isSome then some (name, .signed positive (.hasType typeName))
      else none
    | _, _ => none
  | _, _ =>
    match left with
    | .ident name _ =>
      if isUndefinedValue right then some (name, .signed positive .isUndefined)
      else if isNullValue right then some (name, .signed positive .isNull)
      else none
    | _ => none

/-- What a condition says about a variable when it holds. -/
def ofCondition : Expr → Option (Text × Fact)
  | .binary .eq left right _ => ofEquation true left right
  | .binary .ne left right _ => ofEquation false left right
  | .unary .not (.ident name _) _ => some (name, .isFalsy)
  | .ident name _ => some (name, .isTruthy)
  | _ => none

/-! ## Refined types -/

/-- A type that a condition fixes. -/
def fixed (t : Concrete ω) : Resolution ω :=
  ((Resolution.known t).withSource .inferred).withNote "Type narrowed from condition"

/-- What is known of a value that counts as true. -/
def truthy [Weight ω] : Resolution ω :=
  .make (.ofConfidence (Weight.ofRatio 8 10)) .dynamic .inferred ["Truthy value in condition"]

/-- The type a variable had before the condition. -/
def prior (vars : Variables ω) (name : Text) : Resolution ω :=
  (vars.get? name).getD ((Resolution.unknownBecause "Unknown type").withSource .inferred)

/-- The type of a variable under a fact. -/
def typeUnder [Weight ω] (vars : Variables ω) (name : Text) : Fact → Resolution ω
  | .hasType typeName =>
    match namedType? typeName with
    | some t => fixed t.concrete
    | none => prior vars name
  | .isUndefined => fixed (.special .undefined)
  | .isNull => fixed (.special .null)
  | .isTruthy => truthy
  | .isFalsy => fixed (.primitive .boolean)
  | .lacksType _ | .isDefined | .isNotNull => prior vars name

/-- The refinement of a variable by a fact. -/
def refinement [Weight ω] (vars : Variables ω) (name : Text) (fact : Fact) : Refinement ω :=
  ⟨name, typeUnder vars name fact, fact⟩

/-- The refinements that hold where a condition does. -/
def refinements [Weight ω] (vars : Variables ω) (condition : Expr) : List (Refinement ω) :=
  (ofCondition condition).toList.map fun r => refinement vars r.1 r.2

/-- The refinements that hold where the condition fails. -/
def invert [Weight ω] (vars : Variables ω) (rs : List (Refinement ω)) : List (Refinement ω) :=
  rs.map fun r => refinement vars r.subject r.fact.complement

/-- The variables with their refined types. -/
def apply (vars : Variables ω) (rs : List (Refinement ω)) : Variables ω :=
  vars.insertAll (rs.map fun r => (r.subject, r.type))

end Narrowing

end Gradual
