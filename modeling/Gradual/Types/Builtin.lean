import Gradual.Types.Signature

/-!
# The global context

Functions and types that every module can use, under a Russian and an English name each.
-/

namespace Gradual

variable {ω : Type}

namespace GlobalFunction

/-- A parameter whose type is open. -/
def param (name : Text) (optional : Bool) : GlobalParam ω := ⟨name, none, optional⟩

/-- A function without side effects and with a fixed result. -/
def plain (name englishName : Text) (params : List (GlobalParam ω)) (returns : Resolution ω) :
    GlobalFunction ω :=
  ⟨name, englishName, params, some returns, true, false, []⟩

/-- All functions of the global context. -/
def all : List (GlobalFunction ω) :=
  [plain "Строка" "String" [param "Значение" false] (.primitive .string),
    plain "Число" "Number" [param "Значение" false] (.primitive .number),
    plain "Булево" "Boolean" [param "Значение" false] (.primitive .boolean),
    plain "Дата" "Date"
      [param "Год" false, param "Месяц" true, param "День" true, param "Час" true,
        param "Минута" true, param "Секунда" true]
      (.primitive .date),
    plain "ТипЗнч" "TypeOf" [param "Значение" false] (.special .type),
    plain "Тип" "Type" [param "ИмяТипа" false] (.special .type),
    plain "СтрДлина" "StrLen" [param "Строка" false] (.primitive .number),
    ⟨"Мин", "Min", [param "Значение1" false, param "Значение2" true], none, true, true, []⟩,
    ⟨"Макс", "Max", [param "Значение1" false, param "Значение2" true], none, true, true, []⟩,
    plain "Формат" "Format" [param "Значение" false, param "ФорматнаяСтрока" true]
      (.primitive .string),
    ⟨"ТекущаяДата", "CurrentDate", [], some (.primitive .date), false, false, []⟩,
    ⟨"Сообщить", "Message", [param "ТекстСообщения" false, param "Статус" true], none,
      false, false, []⟩]

/-- The function of a name in either language. -/
def find? (name : Text) : Option (GlobalFunction ω) :=
  all.find? fun f => f.name.lower == name.lower || f.englishName.lower == name.lower

/-- The fewest arguments a call can pass. -/
def required (f : GlobalFunction ω) : Nat := f.params.countP fun p => !p.optional

/-- The result of a call. A polymorphic function gives the type of its first argument: surely when
that is primitive, with half confidence otherwise. -/
def resultOf [Weight ω] (f : GlobalFunction ω) (args : List (Resolution ω)) : Resolution ω :=
  if f.polymorphic then
    match args.head? with
    | none => .unknown
    | some first =>
      match first.shape with
      | .concrete (.primitive p) => .primitive p
      | shape => .inferred (Weight.ofRatio 1 2) shape
  else f.returns.getD .unknown

end GlobalFunction

/-- Platform types that can be constructed, by their lower-case names. -/
def platformNames : List (Text × Text) :=
  [("массив", "Массив"), ("array", "Массив"), ("соответствие", "Соответствие"),
    ("map", "Соответствие"),
    ("структура", "Структура"), ("structure", "Структура"), ("таблицазначений", "ТаблицаЗначений"),
    ("valuetable", "ТаблицаЗначений")]

/-- The Russian name of a platform type that is named in either language. -/
def platformName? (name : Text) : Option Text :=
  (platformNames.find? fun e => e.1 == name.lower).map Prod.snd

/-- The type that a constructor of the given name makes; an unlisted one stays unknown. -/
def constructedType (name : Text) : Resolution ω :=
  match platformName? name with
  | some canonical => .platform canonical
  | none => .unknown

/-- The result of a call of a routine with a signature, else of a global function. -/
def knownCall? [Weight ω] (functions : Signatures ω) (name : Text) (args : List (Resolution ω)) :
    Option (Resolution ω) :=
  match functions.findWord? name with
  | some signature => some signature.returns
  | none => (GlobalFunction.find? name).map fun f => f.resultOf args

/-- The result of a call, unknown when nothing is declared under the name. -/
def callResult [Weight ω] (functions : Signatures ω) (name : Text) (args : List (Resolution ω)) :
    Resolution ω :=
  (knownCall? functions name args).getD (.unknownBecause "Unknown function")

end Gradual
