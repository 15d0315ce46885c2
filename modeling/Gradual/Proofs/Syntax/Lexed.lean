import Gradual.Proofs.Syntax.Expressible

/-!
# What the lexer makes

Identifiers are words that are no keywords, keywords are words that spell them, and numbers are
written in digits.

Main statement: `Stream.lexed_of_ofSource`.
-/

namespace Gradual

namespace Lexer

open Text

/-! ## Single lexemes -/

theorem isWordPart_of_isWordStart {c : CodeUnit} (h : isWordStart c = true) :
    isWordPart c = true := by
  rw [isWordStart, Bool.or_eq_true] at h
  rcases h with h | h <;> simp [isWordPart, h]

/-- The longest run of word units from a word's start is a word. -/
theorem isWord_takeWhile {c : CodeUnit} (h : isWordStart c = true) (rest : Text) :
    IsWord ((c :: rest).takeWhile isWordPart) := by
  rw [List.takeWhile_cons, if_pos (isWordPart_of_isWordStart h)]
  exact ⟨h, List.all_eq_true.1 List.all_takeWhile⟩

theorem isDigits_takeWhile {c : CodeUnit} (h : isDigit c = true) (rest : Text) :
    IsDigits ((c :: rest).takeWhile isDigit) := by
  constructor
  · simp [h]
  · exact List.all_eq_true.1 List.all_takeWhile

/-- What is read as a numeral is one. -/
theorem isNumeral_numeral {c : CodeUnit} (h : isDigit c = true) (rest : Text) :
    IsNumeral (numeral (c :: rest)) := by
  have whole := isDigits_takeWhile h rest
  rw [numeral]
  split
  · next p d more _ =>
    split
    · next hp =>
      rw [Bool.and_eq_true, beq_iff_eq] at hp
      exact .inr ⟨_, _, whole, isDigits_takeWhile hp.2 more, by rw [hp.1]⟩
    · exact .inl whole
  · exact .inl whole

/-- A word is written as it is read. -/
theorem lexed_ofWord {word : Text} (h : word.IsWord) (p : Position) :
    (Token.mk (ofWord word) word p).Lexed := by
  rw [ofWord]
  split
  · next k hk => exact ⟨h, hk⟩
  · next hk => exact ⟨⟨h, hk⟩, rfl⟩

/-- A lexeme is written as its kind is. -/
theorem lexed_of_lexeme {c : CodeUnit} {rest : Text} {l : Lexeme} {n : Nat} (p : Position)
    (h : lexeme c rest = .ok (l, n)) : (Token.mk l ((c :: rest).take n) p).Lexed := by
  rw [lexeme] at h
  split at h
  · next hc =>
    cases h
    have hword : (c :: rest).take ((c :: rest).takeWhile isWordPart).length =
        (c :: rest).takeWhile isWordPart :=
      (List.prefix_iff_eq_take.1 (List.takeWhile_prefix _)).symm
    rw [hword]
    exact lexed_ofWord (isWord_takeWhile hc rest) p
  · split at h
    · next hc =>
      cases h
      exact isNumeral_numeral hc rest
    · -- Strings, dates and marks may be anything.
      split at h
      · split at h
        · cases h
          trivial
        · cases h
      · split at h
        · split at h
          · cases h
            trivial
          · cases h
        · split at h
          · cases h
            trivial
          · cases h

/-! ## The whole source -/

/-- All tokens of a scan are written as their kinds are, by induction on the scan. -/
theorem lexed_of_scan {lineStart : Bool} {p : Position} {skip : Nat} {source : Text} {s : Stream}
    (h : scan lineStart p skip source = .ok s) : ∀ t ∈ s.tokens, t.Lexed := by
  induction source generalizing lineStart p skip s with
  | nil =>
    rw [scan] at h
    cases h
    simp [Stream.tokens]
  | cons c rest ih =>
    cases skip with
    | succ n => exact ih h
    | zero =>
      rw [scan] at h
      split at h
      · exact ih h
      · split at h
        · exact ih h
        · split at h
          · next l n hl =>
            cases hs : scan false (p.advance c) (n - 1) rest with
            | error e => simp [hs, Except.map] at h
            | ok s' =>
              simp only [hs, Except.map, Except.ok.injEq] at h
              subst h
              rintro t (_ | ⟨_, ht⟩)
              · exact lexed_of_lexeme p hl
              · exact ih hs t ht
          · cases h

end Lexer

/-- Every token of a module is as the lexer makes it. -/
theorem Stream.lexed_of_ofSource {source : Text} {s : Stream} (h : Stream.ofSource source = .ok s) :
    ∀ t ∈ s.tokens, t.Lexed := by
  rw [Stream.ofSource] at h
  split at h
  · next s' hs =>
    cases h
    exact Lexer.lexed_of_scan hs
  · cases h

end Gradual
