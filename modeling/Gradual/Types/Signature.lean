import Gradual.Text.Lower
import Gradual.Types.Union

/-!
# Signatures and contexts

Names of routines are compared without regard to case, and an exact match wins. A context holds what
is known at a place of the module: variables, signatures of routines, and the scope with those
around it.
-/

namespace Gradual

namespace Table

/-- The entry of a name: that of the exact spelling if present, else the first whose key is the same
word. -/
def findEntry? {α : Type} (t : Table Text α) (name : Text) : Option (Text × α) :=
  match t.get? name with
  | some a => some (name, a)
  | none => t.entries.find? fun e => e.1.lower == name.lower

/-- The value of a name in any case. -/
def findWord? {α : Type} (t : Table Text α) (name : Text) : Option α :=
  (t.findEntry? name).map Prod.snd

/-- The spelling under which a name is listed. -/
def findKey? {α : Type} (t : Table Text α) (name : Text) : Option Text :=
  (t.findEntry? name).map Prod.fst

end Table

variable {ω : Type}

/-- A parameter of a signature; an optional one has a default value. -/
structure SignatureParam (ω : Type) where
  name : Text
  type : Resolution ω
  optional : Bool

/-- What callers see of a routine. -/
structure Signature (ω : Type) where
  params : List (SignatureParam ω)
  returns : Resolution ω
  exported : Bool

namespace Signature

/-- The fewest arguments a call can pass. -/
def required (s : Signature ω) : Nat := s.params.countP fun p => !p.optional

/-- Parameters with a mark on optional ones, and the result: `(а, б?): Число [known]`. -/
def format [Weight ω] (s : Signature ω) : Text :=
  "(" ++ Text.join ", " (s.params.map fun p => p.name ++ (if p.optional then "?" else "")) ++
    "): " ++ s.returns.format

end Signature

/-- Signatures by the names of their routines. -/
abbrev Signatures (ω : Type) := Table Text (Signature ω)

/-- A region of names. -/
inductive Scope where
  | global
  | module (name : Text)
  | function (name : Text)
  | block (owner : Text) (id : Nat)
deriving DecidableEq, Repr

namespace Scope

/-- The text that identifies a scope. -/
def key : Scope → Text
  | global => "global"
  | module name => "module:" ++ name
  | function name => "function:" ++ name
  | block owner id => "local:" ++ owner ++ "#" ++ Text.ofNat id

end Scope

/-- What is known at a place of the module. -/
structure Context (ω : Type) where
  vars : Variables ω
  functions : Signatures ω
  scope : Scope
  /-- The scopes around the current one, the innermost last. -/
  outer : List Scope

namespace Context

/-- A context without variables. -/
def make (scope : Scope) (functions : Signatures ω) : Context ω := ⟨.empty, functions, scope, []⟩

/-- Replaces the variables. -/
def withVariables (c : Context ω) (vars : Variables ω) : Context ω := { c with vars := vars }

/-- Adds or replaces a signature. -/
def withFunction (c : Context ω) (name : Text) (s : Signature ω) : Context ω :=
  { c with functions := c.functions.insert name s }

/-- Goes into a scope. -/
def enter (c : Context ω) (scope : Scope) : Context ω :=
  { c with scope := scope, outer := c.outer ++ [c.scope] }

/-- Goes back to the scope around; without one the context stays as it is. -/
def exit (c : Context ω) : Context ω :=
  match c.outer.getLast? with
  | some scope => { c with scope := scope, outer := c.outer.dropLast }
  | none => c

end Context

end Gradual
