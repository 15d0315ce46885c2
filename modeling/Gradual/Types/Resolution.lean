import Gradual.Types.Weight

/-!
# Resolutions

A resolution is not a type but what is known about the type of a value: how certain it is, what
shape it has, where the knowledge comes from. Types that are fully named are concrete; a union lists
several with their weights.

Two resolutions that look alike are not always the same piece of knowledge: two calls of unknown
functions give two values of which nothing is known, and nothing says that they agree. A resolution
therefore carries its origin, the place where it was first recorded, and only a resolution that was
read back from such a place has one.
-/

namespace Gradual

/-! ## Vocabulary -/

/-- The primitive types. -/
inductive Primitive where
  | string | number | boolean | date
deriving DecidableEq, Repr

namespace Primitive

/-- All primitive types. -/
def all : List Primitive := [string, number, boolean, date]

/-- The English name. -/
def name : Primitive → Text
  | string => "String" | number => "Number" | boolean => "Boolean" | date => "Date"

/-- The name in messages. -/
def title : Primitive → Text
  | string => "Строка" | number => "Число" | boolean => "Булево" | date => "Дата"

/-- The primitive type of an English name. -/
def ofName? (t : Text) : Option Primitive := all.find? fun p => p.name == t

end Primitive

/-- The types of single values. -/
inductive Special where
  | undefined | null | type
deriving DecidableEq, Repr

namespace Special

/-- All special types. -/
def all : List Special := [undefined, null, type]

/-- The English name. -/
def name : Special → Text
  | undefined => "Undefined" | null => "Null" | type => "Type"

/-- The name in messages. -/
def title : Special → Text
  | undefined => "Неопределено" | null => "Null" | type => "Тип"

/-- The special type of an English name. -/
def ofName? (t : Text) : Option Special := all.find? fun s => s.name == t

end Special

/-- The kinds of objects that a configuration defines. -/
inductive MetadataKind where
  | catalog | document | register | report | dataProcessor | enumeration | chartOfAccounts
  | chartOfCharacteristicTypes
deriving DecidableEq, Repr

namespace MetadataKind

/-- All kinds. -/
def all : List MetadataKind :=
  [catalog, document, register, report, dataProcessor, enumeration, chartOfAccounts,
    chartOfCharacteristicTypes]

/-- The English name. -/
def name : MetadataKind → Text
  | catalog => "Catalog" | document => "Document" | register => "Register" | report => "Report"
  | dataProcessor => "DataProcessor" | enumeration => "Enum" | chartOfAccounts => "ChartOfAccounts"
  | chartOfCharacteristicTypes => "ChartOfCharacteristicTypes"

/-- The kind of an English name. -/
def ofName? (t : Text) : Option MetadataKind := all.find? fun k => k.name == t

end MetadataKind

/-- The views under which a configuration object can be used. -/
inductive Facet where
  | manager | object | reference | metadata | constructor | collection | singleton
deriving DecidableEq, Repr

namespace Facet

/-- All facets. -/
def all : List Facet := [manager, object, reference, metadata, constructor, collection, singleton]

/-- The name. -/
def name : Facet → Text
  | manager => "manager" | object => "object" | reference => "reference" | metadata => "metadata"
  | constructor => "constructor" | collection => "collection" | singleton => "singleton"

/-- The facet of a name. -/
def ofName? (t : Text) : Option Facet := all.find? fun f => f.name == t

end Facet

/-- Where code can run. -/
inductive Venue where
  | server | client | thickClient | webClient | mobileClient | externalConnection
deriving DecidableEq, Repr

namespace Venue

/-- All venues. -/
def all : List Venue := [server, client, thickClient, webClient, mobileClient, externalConnection]

/-- The name. -/
def name : Venue → Text
  | server => "server" | client => "client" | thickClient => "thickClient"
  | webClient => "webClient"
  | mobileClient => "mobileClient" | externalConnection => "externalConnection"

/-- The venue of a name. -/
def ofName? (t : Text) : Option Venue := all.find? fun v => v.name == t

end Venue

/-- Where knowledge about a type comes from. -/
inductive Source where
  | static | inferred | annotated | runtime | predicted
deriving DecidableEq, Repr

namespace Source

/-- All sources. -/
def all : List Source := [static, inferred, annotated, runtime, predicted]

/-- The name. -/
def name : Source → Text
  | static => "static" | inferred => "inferred" | annotated => "annotated" | runtime => "runtime"
  | predicted => "predicted"

/-- The source of a name. -/
def ofName? (t : Text) : Option Source := all.find? fun s => s.name == t

end Source

/-! ## Descriptions of named types -/

/-- A parameter of a platform method. -/
structure MethodParam where
  name : Text
  type : Option Text
  optional : Bool
  byValue : Bool
deriving DecidableEq, Repr

/-- A method of a platform type. -/
structure Method where
  name : Text
  params : List MethodParam
  returns : Option Text
  isFunction : Bool
deriving DecidableEq, Repr

/-- A property of a platform type. -/
structure Property where
  name : Text
  type : Text
  readOnly : Bool
deriving DecidableEq, Repr

/-- An attribute of a configuration object; its written type may name several. -/
structure Attribute where
  name : Text
  type : Text
  types : List Text
deriving DecidableEq, Repr

/-- A table inside a configuration object. -/
structure TabularSection where
  name : Text
  synonym : Option Text
  attributes : List Attribute
deriving DecidableEq, Repr

/-- What using a value can entail. -/
inductive Effect where
  | mayBeNull
  | requiresTransaction
  | requiresLock (lock : Text)
  | requiresVenue (venue : Venue)
  | modifiedByExtension (extension : Text)
deriving DecidableEq, Repr

/-- Where a resolution was noted, and remarks on how it came about. -/
structure Metadata where
  file : Option Text
  line : Option Nat
  column : Option Nat
  notes : List Text
deriving DecidableEq, Repr

namespace Metadata

/-- Remarks without a place. -/
def ofNotes (notes : List Text) : Metadata := ⟨none, none, none, notes⟩

end Metadata

/-! ## Origins -/

/-- The place where a resolution was first recorded. Resolutions with the same recorded origin are
one and the same. -/
inductive Origin where
  /-- Just made, not recorded anywhere. -/
  | fresh
  /-- Handed in from outside under a number. -/
  | given (tag : Nat)
  /-- First held by a variable in a flow state. -/
  | held (state : Nat) (name : Text)
  /-- First held by a variable while the body of a routine was read. -/
  | bound (routine : Text) (step : Nat) (name : Text)
  /-- The declared type of a parameter. -/
  | parameter (routine : Text) (index : Nat)
  /-- The result of a routine. -/
  | result (routine : Text)
  /-- The result of a routine of another module. -/
  | externalResult (routine : Text)
  /-- The parameter of a routine of another module. -/
  | externalParameter (routine : Text) (index : Nat)
deriving DecidableEq, Repr

/-! ## Resolutions -/

/-- How certain a type is. -/
inductive Certainty (ω : Type) where
  | known
  | inferred (confidence : ω)
  | unknown

mutual

/-- A parameter of a function of the global context. -/
structure GlobalParam (ω : Type) where
  name : Text
  type : Option (Resolution ω)
  optional : Bool

/-- A function of the global context. -/
structure GlobalFunction (ω : Type) where
  name : Text
  englishName : Text
  params : List (GlobalParam ω)
  returns : Option (Resolution ω)
  /-- Without side effects. -/
  isPure : Bool
  /-- The result follows the arguments. -/
  polymorphic : Bool
  venues : List Venue

/-- A fully named type. -/
inductive Concrete (ω : Type) where
  | platform (name : Text) (methods : List Method) (properties : List Property)
  | configuration (kind : MetadataKind) (name : Text) (attributes : List Attribute)
      (sections : List TabularSection)
  | primitive (kind : Primitive)
  | special (kind : Special)
  | function (f : GlobalFunction ω)

/-- What is known of a type. -/
inductive Shape (ω : Type) where
  | concrete (type : Concrete ω)
  | union (members : List (Concrete ω × ω))
  | conditional (condition : Text) (whenTrue whenFalse : Shape ω)
  | contextual (base : Shape ω) (effects : List Effect) (venue : Venue)
  | dynamic

/-- What is known of the type of a value, and how. -/
structure Resolution (ω : Type) where
  certainty : Certainty ω
  shape : Shape ω
  source : Source
  metadata : Metadata
  activeFacet : Option Facet
  facets : List Facet
  origin : Origin

end

variable {ω : Type}

namespace Certainty

/-- The confidence as a number: one when known, zero when unknown. -/
def confidence [Weight ω] : Certainty ω → ω
  | known => Weight.ofNat 1
  | inferred c => c
  | unknown => Weight.ofNat 0

/-- An inferred certainty, with its confidence between zero and one. -/
def ofConfidence [Weight ω] (c : ω) : Certainty ω := inferred (Weight.clamp c)

/-- Whether two certainties are of one kind. -/
def sameKind : Certainty ω → Certainty ω → Bool
  | known, known | inferred _, inferred _ | unknown, unknown => true
  | _, _ => false

end Certainty

namespace Resolution

/-! ## Making resolutions -/

/-- A resolution without place and facets. -/
def make (certainty : Certainty ω) (shape : Shape ω) (source : Source) (notes : List Text) :
    Resolution ω :=
  ⟨certainty, shape, source, .ofNotes notes, none, [], .fresh⟩

/-- A type that is known. -/
def known (t : Concrete ω) : Resolution ω := make .known (.concrete t) .static []

/-- A type of which nothing is known. -/
def unknown : Resolution ω := make .unknown .dynamic .static []

/-- A type of which nothing is known, with a remark unless it is empty. -/
def unknownBecause (note : Text) : Resolution ω :=
  make .unknown .dynamic .static (if note.isEmpty then [] else [note])

/-- A shape that was inferred. -/
def inferred [Weight ω] (confidence : ω) (shape : Shape ω) : Resolution ω :=
  make (.ofConfidence confidence) shape .inferred []

/-- A known primitive type. -/
def primitive (p : Primitive) : Resolution ω := known (.primitive p)

/-- A known special type. -/
def special (s : Special) : Resolution ω := known (.special s)

/-- A known platform type without a description. -/
def platform (name : Text) : Resolution ω := known (.platform name [] [])

/-- What a routine without a value gives. -/
def void : Resolution ω := make .known .dynamic .static ["Void type (procedure)"]

/-- What a union without members says. -/
def never : Resolution ω := make .unknown .dynamic .inferred ["Never type (empty union)"]

/-- Adds a remark. -/
def withNote (r : Resolution ω) (note : Text) : Resolution ω :=
  { r with metadata := { r.metadata with notes := r.metadata.notes ++ [note] }, origin := .fresh }

/-- Changes the source. -/
def withSource (r : Resolution ω) (source : Source) : Resolution ω :=
  { r with source := source, origin := .fresh }

/-- Records where a resolution is first held; one that already has an origin keeps it. -/
def recordAt (r : Resolution ω) (origin : Origin) : Resolution ω :=
  if r.origin = .fresh then { r with origin := origin } else r

/-! ## Questions -/

/-- Whether the type is known. -/
def isKnown (r : Resolution ω) : Bool :=
  match r.certainty with
  | .known => true
  | _ => false

/-- Whether nothing is certain about the type. -/
def isUnknown (r : Resolution ω) : Bool :=
  match r.certainty with
  | .unknown => true
  | _ => false

/-- The concrete type, unless nothing is certain. -/
def concrete? (r : Resolution ω) : Option (Concrete ω) :=
  match r.certainty, r.shape with
  | .unknown, _ => none
  | _, .concrete t => some t
  | _, _ => none

/-- Whether the type is a given primitive one. -/
def isPrimitive (r : Resolution ω) (p : Primitive) : Bool :=
  match r.concrete? with
  | some (.primitive q) => q == p
  | _ => false

/-- Whether the type is a number. -/
def isNumber (r : Resolution ω) : Bool := r.isPrimitive .number

/-- Whether the type is a string. -/
def isString (r : Resolution ω) : Bool := r.isPrimitive .string

/-- Whether the type is a boolean. -/
def isBoolean (r : Resolution ω) : Bool := r.isPrimitive .boolean

/-- Whether the type is a date. -/
def isDate (r : Resolution ω) : Bool := r.isPrimitive .date

end Resolution

end Gradual
