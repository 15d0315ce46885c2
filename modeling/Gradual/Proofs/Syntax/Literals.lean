import Gradual.Proofs.Syntax.Layout

/-!
# String literals

Every text can be written as a string literal: between quotes, with each quote doubled and with a
bar behind each line feed. The bar stands directly behind the line feed, so the blanks that may come
between the two are never in question, and blanks and bars of the text itself are read as they are.

Main statement: `Lexer.tokenize_literal`.
-/

namespace Gradual

namespace Lexer

open Text

/-- How a unit is written inside a string literal. -/
def writtenUnit (c : CodeUnit) : Text :=
  if c = doubleQuote then [doubleQuote, doubleQuote]
  else if c = newline then [newline, bar] else [c]

/-- The string literal of a text. -/
def literal (value : Text) : Text := doubleQuote :: (value.flatMap writtenUnit ++ [doubleQuote])

/-- A written unit is read back, whatever follows it. -/
theorem stringRest_writtenUnit (c : CodeUnit) (rest : Text) :
    stringRest false (writtenUnit c ++ rest) =
      (stringRest false rest).map fun r => (c :: r.1, r.2 + (writtenUnit c).length) := by
  unfold writtenUnit
  by_cases hquote : c = doubleQuote
  · simp [hquote, stringRest]
  · by_cases hline : c = newline
    · -- The line feed opens the margin, and the bar closes it at once.
      have hbar : isIndent bar = false := by decide
      have hne : newline ≠ doubleQuote := by decide
      cases hrest : stringRest false rest <;> simp [hline, hne, stringRest, hbar, hrest]
    · have hother : stringRest false (c :: rest) = (stringRest false rest).map fun r =>
          (c :: r.1, r.2 + 1) := by
        rw [stringRest.eq_def]
        simp [hquote, hline]
      simpa [hquote, hline] using hother

/-- A written value is read back up to its closing quote. -/
theorem stringRest_written (value : Text) {rest : Text} (hrest : rest.head? ≠ some doubleQuote) :
    stringRest false (value.flatMap writtenUnit ++ doubleQuote :: rest) =
      some (value, (value.flatMap writtenUnit).length + 1) := by
  induction value with
  | nil =>
    cases rest with
    | nil => simp [stringRest]
    | cons d rest =>
      have hd : d ≠ doubleQuote := by simpa using hrest
      simp [stringRest, hd]
  | cons c value ih =>
    rw [List.flatMap_cons, List.append_assoc, stringRest_writtenUnit, ih, Option.map_some,
      List.length_append]
    congr 2
    omega

/-- A literal in front of anything but a quote is one lexeme. -/
theorem lexeme_literal (value : Text) {rest : Text} (hrest : rest.head? ≠ some doubleQuote) :
    lexeme doubleQuote (value.flatMap writtenUnit ++ [doubleQuote] ++ rest) =
      .ok (.string value, (value.flatMap writtenUnit ++ [doubleQuote]).length + 1) := by
  have hword : isWordStart doubleQuote = false := by decide
  have hdigit : isDigit doubleQuote = false := by decide
  rw [List.append_assoc, List.singleton_append]
  unfold lexeme
  rw [hword, hdigit, if_neg Bool.false_ne_true, if_neg Bool.false_ne_true,
    if_pos (beq_self_eq_true _), stringRest_written value hrest]
  simp

/-- **Every text has a string literal.** The literal of a text is read as one string token that has
the text for its value and is written as the literal, at the start of the source, and nothing is
left. -/
theorem tokenize_literal (value : Text) :
    tokenize (literal value) =
      .ok (.next ⟨.string value, literal value, ⟨1, 1⟩⟩ (.finish (.behind (literal value)))) := by
  have hgap : gap? true (doubleQuote ::
    (value.flatMap writtenUnit ++ [doubleQuote] ++ ([] ++ []))) = none := rfl
  have hreads : Reads [] true .start (literal value ++ [])
      [⟨.string value, literal value, .start⟩] false :=
    .token (by decide) hgap (lexeme_literal value (by simp)) .nil
  have hscan := hreads.scan_eq
  rw [List.append_nil, List.append_nil, Position.start_after] at hscan
  exact hscan

/-- Two quotes around a line break, with blanks and a bar on the new line. -/
example : literal [0x22, 0x0A, 0x20, 0x7C, 0x22] =
    [0x22, 0x22, 0x22, 0x0A, 0x7C, 0x20, 0x7C, 0x22, 0x22, 0x22] := by decide

end Lexer

end Gradual
