import Gradual.Text.Lower

/-!
# Keywords

Every keyword has a Russian and an English spelling, and both are read without regard to case. The
English spelling in lower case is the canonical one.
-/

namespace Gradual

/-- The reserved words. -/
inductive Keyword where
  | kwIf | kwThen | kwElsif | kwElse | kwEndIf
  | kwFor | kwEach | kwIn | kwTo | kwDo | kwEndDo | kwWhile
  | kwProcedure | kwEndProcedure | kwFunction | kwEndFunction | kwReturn
  | kwVar | kwExport | kwVal | kwNew
  | kwTry | kwExcept | kwEndTry | kwRaise
  | kwBreak | kwContinue
  | kwAnd | kwOr | kwNot
  | kwTrue | kwFalse | kwUndefined | kwNull
deriving DecidableEq, Repr

namespace Keyword

/-- The canonical spelling. -/
def name : Keyword → Text
  | kwIf => "if" | kwThen => "then" | kwElsif => "elsif" | kwElse => "else" | kwEndIf => "endif"
  | kwFor => "for" | kwEach => "each" | kwIn => "in" | kwTo => "to" | kwDo => "do"
  | kwEndDo => "enddo"
  | kwWhile => "while"
  | kwProcedure => "procedure" | kwEndProcedure => "endprocedure"
  | kwFunction => "function" | kwEndFunction => "endfunction" | kwReturn => "return"
  | kwVar => "var" | kwExport => "export" | kwVal => "val" | kwNew => "new"
  | kwTry => "try" | kwExcept => "except" | kwEndTry => "endtry" | kwRaise => "raise"
  | kwBreak => "break" | kwContinue => "continue"
  | kwAnd => "and" | kwOr => "or" | kwNot => "not"
  | kwTrue => "true" | kwFalse => "false" | kwUndefined => "undefined" | kwNull => "null"

/-- The Russian spelling, as messages show it. -/
def russian : Keyword → Text
  | kwIf => "Если" | kwThen => "Тогда" | kwElsif => "ИначеЕсли" | kwElse => "Иначе"
  | kwEndIf => "КонецЕсли"
  | kwFor => "Для" | kwEach => "Каждого" | kwIn => "Из" | kwTo => "По" | kwDo => "Цикл"
  | kwEndDo => "КонецЦикла"
  | kwWhile => "Пока"
  | kwProcedure => "Процедура" | kwEndProcedure => "КонецПроцедуры"
  | kwFunction => "Функция" | kwEndFunction => "КонецФункции" | kwReturn => "Возврат"
  | kwVar => "Перем" | kwExport => "Экспорт" | kwVal => "Знач" | kwNew => "Новый"
  | kwTry => "Попытка" | kwExcept => "Исключение" | kwEndTry => "КонецПопытки"
  | kwRaise => "ВызватьИсключение"
  | kwBreak => "Прервать" | kwContinue => "Продолжить"
  | kwAnd => "И" | kwOr => "Или" | kwNot => "Не"
  | kwTrue => "Истина" | kwFalse => "Ложь" | kwUndefined => "Неопределено" | kwNull => "Null"

/-- All keywords. -/
def all : List Keyword :=
  [kwIf, kwThen, kwElsif, kwElse, kwEndIf, kwFor, kwEach, kwIn, kwTo, kwDo, kwEndDo, kwWhile,
    kwProcedure, kwEndProcedure, kwFunction, kwEndFunction, kwReturn, kwVar, kwExport, kwVal, kwNew,
    kwTry, kwExcept, kwEndTry, kwRaise, kwBreak, kwContinue, kwAnd, kwOr, kwNot,
    kwTrue, kwFalse, kwUndefined, kwNull]

/-- The lower-case spellings of all keywords, in both languages. -/
def spellings : List (Text × Keyword) := all.flatMap fun k => [(k.russian.lower, k), (k.name, k)]

/-- The keyword that a lower-case word spells. -/
def ofLower? (word : Text) : Option Keyword := (spellings.find? fun e => e.1 == word).map Prod.snd

/-- The keyword that a word spells in any case. -/
def ofWord? (word : Text) : Option Keyword := ofLower? word.lower

end Keyword

end Gradual
