import Gradual.Types.Resolution

/-!
# Names and keys of types

Every concrete type has a name for messages and a key that spells out its structure. Two concrete
types count as equal when their keys are equal.
-/

namespace Gradual

variable {ω : Type}

/-! ## Keys -/

/-- The key of a method parameter. -/
def MethodParam.key (p : MethodParam) : Text :=
  (if p.byValue then "val " else "") ++ p.name ++ (if p.optional then "?" else "") ++ ":" ++
    p.type.getD ""

/-- The key of a method. -/
def Method.key (m : Method) : Text :=
  m.name ++ "(" ++ Text.join "," (m.params.map MethodParam.key) ++ ")" ++
    (if m.isFunction then ":" ++ m.returns.getD "" else "")

/-- The key of a property. -/
def Property.key (p : Property) : Text :=
  (if p.readOnly then "ro " else "") ++ p.name ++ ":" ++ p.type

/-- The key of an attribute. -/
def Attribute.key (a : Attribute) : Text := a.name ++ ":" ++ a.type

/-- The key of a table. -/
def TabularSection.key (s : TabularSection) : Text :=
  s.name ++ "[" ++ Text.join "|" (s.attributes.map Attribute.key) ++ "]"

/-- The key of a parameter of a global function. -/
def GlobalParam.key (p : GlobalParam ω) : Text := p.name ++ (if p.optional then "?" else "")

namespace Concrete

/-- The key of a concrete type. -/
def key : Concrete ω → Text
  | primitive p => "prim:" ++ p.name
  | special s => "special:" ++ s.name
  | platform name methods properties =>
    "platform:" ++ name ++ ":" ++ Text.join "|" (methods.map Method.key) ++ ":" ++
      Text.join "|" (properties.map Property.key)
  | configuration kind name attributes sections =>
    "config:" ++ kind.name ++ ":" ++ name ++ ":" ++
      Text.join "|" (attributes.map Attribute.key) ++ ":" ++
      Text.join "|" (sections.map TabularSection.key)
  | function f =>
    "fn:" ++ f.name ++ "/" ++ f.englishName ++ ":" ++
      Text.join "," (f.params.map GlobalParam.key) ++ ":" ++
      (if f.polymorphic then "poly" else "mono")

/-- Equality of structure. -/
def same (a b : Concrete ω) : Bool := a.key == b.key

/-! ## Names -/

/-- The name in messages. -/
def name : Concrete ω → Text
  | platform name _ _ => name
  | configuration _ name _ _ => name
  | function f => f.name
  | primitive p => p.title
  | special s => s.title

end Concrete

namespace Shape

/-- The alternatives of a shape, separated by bars. -/
def format : Shape ω → Text
  | concrete t => t.name
  | union members => Text.join " | " (members.map fun m => m.1.name)
  | conditional _ a b => a.format ++ " | " ++ b.format
  | contextual base _ _ => base.format
  | dynamic => "Произвольный"

end Shape

namespace Certainty

/-- The kind of certainty, with two places of confidence if it is inferred. -/
def format [Weight ω] : Certainty ω → Text
  | known => "known"
  | inferred c => "inferred " ++ Weight.fixed c
  | unknown => "unknown"

end Certainty

namespace Resolution

/-- A shape and its certainty, such as `Строка | Число [inferred 0.90]`. -/
def format [Weight ω] (r : Resolution ω) : Text :=
  r.shape.format ++ " [" ++ r.certainty.format ++ "]"

/-- The name of a concrete type, unless it is a special one. -/
def name? (r : Resolution ω) : Option Text :=
  match r.shape with
  | .concrete (.special _) => none
  | .concrete t => some t.name
  | _ => none

end Resolution

end Gradual
