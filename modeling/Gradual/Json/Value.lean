import Gradual.Table.KeyOrder

/-!
# JSON values

Numbers are doubles. An object is kept as it was written, a list of fields; its meaning is a table
in listing order in which the last of several fields with one name counts.
-/

namespace Gradual

/-- A value that a JSON text stands for. -/
inductive Json where
  | null
  | boolean (value : Bool)
  | number (value : Float)
  | string (value : Text)
  | array (items : List Json)
  | object (fields : List (Text × Json))

namespace Json

/-- The meaning of the fields of an object. -/
def members (fields : List (Text × Json)) : List (Text × Json) := (Table.ofList fields).listing

/-- The value of a field. -/
def field? (fields : List (Text × Json)) (name : Text) : Option Json :=
  (Table.ofList fields).get? name

end Json

end Gradual
