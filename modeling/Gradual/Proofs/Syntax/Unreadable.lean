import Gradual.Proofs.Syntax.Layout

/-!
# Where a source cannot be read

A source that cannot be read is read up to one unit. There, either nothing starts at all, or a quote
opens a literal that is not closed. What stands in front of the unit is read in the same way without
the rest of the source, and where nothing starts the rest plays no part in the error.

Main statement: `Lexer.error_located`.
-/

namespace Gradual

/-! ## Positions -/

namespace Position

/-- The line counts the line feeds that were passed. -/
theorem line_after (p : Position) (t : Text) :
    (p.after t).line = p.line + t.count Text.newline := by
  induction t generalizing p with
  | nil => rfl
  | cons c t ih =>
    rw [after_cons, ih, advance, List.count_cons]
    by_cases hc : c = Text.newline
    · simp [hc]
      omega
    · simp [hc]

/-- Within a line the column counts the units that were passed. -/
theorem column_after {p : Position} {t : Text} (h : Text.newline ∉ t) :
    (p.after t).column = p.column + t.length := by
  induction t generalizing p with
  | nil => rfl
  | cons c t ih =>
    rw [List.mem_cons, not_or] at h
    rw [after_cons, ih h.2, advance, if_neg (by simpa using fun hc => h.1 hc.symm),
      List.length_cons]
    dsimp only
    omega

/-- Every unit leads to another position. -/
theorem eq_nil_of_after_eq {p : Position} {t : Text} (h : p.after t = p) : t = [] := by
  have hline : t.count Text.newline = 0 := by
    have hcount := p.line_after t
    rw [h] at hcount
    omega
  have hcolumn := column_after (p := p) (List.count_eq_zero.1 hline)
  rw [h] at hcolumn
  exact List.eq_nil_of_length_eq_zero (by omega)

/-- A position belongs to one unit of a source. -/
theorem behind_inj_of_prefix {source t u : Text} (ht : t <+: source) (hu : u <+: source)
    (h : behind t = behind u) : t = u := by
  have shorter : ∀ {t u : Text}, t <+: u → behind t = behind u → t = u := by
    rintro t _ ⟨v, rfl⟩ h
    rw [← start_after, ← start_after, after_append] at h
    rw [eq_nil_of_after_eq h.symm, List.append_nil]
  rcases List.prefix_or_prefix_of_prefix ht hu with hp | hp
  · exact shorter hp h
  · exact (shorter hp h.symm).symm

end Position

theorem Location.ofPosition_injective (file : Text) :
    Function.Injective (Location.ofPosition file) := by
  rintro ⟨line, column⟩ ⟨line', column'⟩ h
  cases h
  rfl

/-- Only gaps stand in front of the position on its line: every token ends on a line before it. -/
def Stream.ClearsLine (s : Stream) (p : Position) : Prop :=
  ∀ t ∈ s.tokens, (t.position.after t.raw).line < p.line

theorem Mark.mem_all (m : Mark) : m ∈ Mark.all := by
  cases m <;> decide

/-- The first unit of a mark is a mark by itself. -/
theorem Mark.exists_single {m : Mark} {c : CodeUnit} (h : m.text.head? = some c) : ∃ k :
    Mark, k.text = [c] := by
  by_cases hlen : m.text.length = 1
  · obtain ⟨d, hd⟩ := List.length_eq_one_iff.1 hlen
    rw [hd] at h
    cases h
    exact ⟨m, hd⟩
  · cases m with
    | notEqual | lessEqual => cases h; exact ⟨.less, rfl⟩
    | greaterEqual => cases h; exact ⟨.greater, rfl⟩
    | _ => exact absurd rfl hlen

namespace Lexer

open Text

/-! ## Units that start nothing -/

/-- The unit starts neither a token nor a gap. A comment starts with a slash, which is a mark as
well; a directive starts only where the line is clear in front of it. -/
structure StartsNothing (clear : Prop) (c : CodeUnit) : Prop where
  newline : c ≠ Text.newline
  blank : isBlank c = false
  directive : clear → isDirective c = false
  word : isWordStart c = false
  digit : isDigit c = false
  doubleQuote : c ≠ Lexer.doubleQuote
  singleQuote : c ≠ Lexer.singleQuote
  mark : ∀ m : Mark, m.text.head? ≠ some c

/-- No mark is read where none starts with the unit. -/
theorem mark?_eq_none_iff {c : CodeUnit} {rest : Text} :
    mark? (c :: rest) = none ↔ ∀ m : Mark, m.text.head? ≠ some c := by
  unfold mark?
  rw [List.find?_eq_none]
  constructor
  · intro h m hm
    obtain ⟨k, htext⟩ := Mark.exists_single hm
    refine h k k.mem_all ?_
    rw [htext]
    simp
  · intro h m _ hm
    have hne : m.text ≠ [] := List.length_pos_iff.1 m.length_text.1
    obtain ⟨d, r, htext⟩ := List.exists_cons_of_ne_nil hne
    rw [List.isPrefixOf_iff_prefix, htext, List.cons_prefix_cons] at hm
    exact h m (by rw [htext, List.head?_cons, hm.1])

/-- What can be wrong where a lexeme should start. -/
theorem lexeme_error_cases {c : CodeUnit} {rest : Text} {fault : LexicalFault}
    (h : lexeme c rest = .error fault) :
    (fault = .unexpectedCharacter c ∧ isWordStart c = false ∧ isDigit c = false ∧ c ≠ doubleQuote ∧
      c ≠ singleQuote ∧
        ∀ m : Mark, m.text.head? ≠ some c) ∨
      (fault = .unterminatedString ∧ c = doubleQuote ∧ stringRest false rest = none) ∨
      (fault = .unterminatedDate ∧ c = singleQuote ∧ dateRest rest = none) := by
  unfold lexeme at h
  dsimp only at h
  split at h
  · cases h
  · next hword =>
    split at h
    · cases h
    · next hdigit =>
      split at h
      · next hc =>
        split at h
        · cases h
        · next hs =>
          cases h
          exact .inr (.inl ⟨rfl, beq_iff_eq.1 hc, hs⟩)
      · next hdouble =>
        split at h
        · next hc =>
          split at h
          · cases h
          · next hs =>
            cases h
            exact .inr (.inr ⟨rfl, beq_iff_eq.1 hc, hs⟩)
        · next hsingle =>
          split at h
          · cases h
          · next hm =>
            cases h
            exact .inl ⟨rfl, by simpa using hword, by simpa using hdigit, by simpa using hdouble,
              by simpa using hsingle, mark?_eq_none_iff.1 hm⟩

namespace StartsNothing

variable {clear : Prop} {c : CodeUnit}

theorem imp {clear' : Prop} (h : StartsNothing clear c) (hclear : clear' → clear) :
    StartsNothing clear' c :=
  { h with directive := fun h' => h.directive (hclear h') }

/-- Whatever follows the unit, no lexeme starts with it. -/
theorem lexeme_eq (h : StartsNothing clear c) (rest : Text) :
    lexeme c rest = .error (.unexpectedCharacter c) := by
  unfold lexeme
  rw [h.word, h.digit, if_neg Bool.false_ne_true, if_neg Bool.false_ne_true,
    if_neg (by simpa using h.doubleQuote),
    if_neg (by simpa using h.singleQuote), mark?_eq_none_iff.2 h.mark]

/-- Whatever follows the unit, no gap starts with it. -/
theorem gap?_eq {b : Bool} (h : StartsNothing (b = true) c) (rest : Text) :
    gap? b (c :: rest) = none := by
  refine gap?_eq_none_iff.2 ⟨h.blank, ?_, ?_⟩
  · rintro ⟨rfl, -⟩
    exact h.mark .slash rfl
  · rintro ⟨hb, hd⟩
    rw [h.directive hb] at hd
    cases hd

/-- Such a unit does not extend what is in front of it more than any other text that starts with it
does. -/
theorem tame (h : StartsNothing clear c) (rest rest' : Text) : Tame (c :: rest) (c :: rest') where
  continuing := fun _ _ hp => hp
  point := by
    intro hc
    cases hc
    exact h.mark .dot rfl

end StartsNothing

/-! ## Literals that are not closed -/

/-- The text behind the opening quote of a string literal that is not closed: in front of the first
quote that is not doubled, it ends, or a line of it starts, behind an indent, with something else
than a bar. -/
inductive UnclosedString : Text → Prop where
  | finish : UnclosedString []
  | unit {c : CodeUnit} {t : Text} : c ≠ doubleQuote → c ≠ newline → UnclosedString t →
    UnclosedString (c :: t)
  | quotes {t : Text} : UnclosedString t → UnclosedString (doubleQuote :: doubleQuote :: t)
  | line {indent t : Text} :
      (∀ c ∈ indent, isIndent c = true) → UnclosedString t →
        UnclosedString (newline :: (indent ++ bar :: t))
  | broken {indent t : Text} :
      (∀ c ∈ indent, isIndent c = true) → (∀ c ∈ t.head?, isIndent c = false ∧ c ≠ bar) →
      UnclosedString (newline :: (indent ++ t))

/-- The text behind the opening quote of a date literal that is not closed: the line ends before a
quote. -/
def UnclosedDate (t : Text) : Prop :=
  ∃ value rest, t = value ++ rest ∧ singleQuote ∉ value ∧ newline ∉ value ∧ EndsLine rest

/-- Behind a line feed a string goes on in the next line. -/
theorem stringRest_newline (t : Text) :
    stringRest false (newline :: t) = (stringRest true t).map fun r => (r.1, r.2 + 1) := by
  have hne : newline ≠ doubleQuote := by decide
  rw [stringRest.eq_def]
  simp [hne]

/-- The indent of a continued line does not decide whether the string is closed. -/
theorem stringRest_indent {indent : Text} (h : ∀ c ∈ indent, isIndent c = true) (t : Text) :
    stringRest true (indent ++ t) = none ↔ stringRest true t = none := by
  induction indent with
  | nil => exact Iff.rfl
  | cons c indent ih =>
    rw [List.cons_append, stringRest, if_pos (h c List.mem_cons_self), Option.map_eq_none_iff]
    exact ih fun d hd => h d (List.mem_cons_of_mem c hd)

/-- Where the rest of a string is not read, the string is not closed. -/
theorem unclosedString_of_stringRest {m : Bool} {t : Text} (h : stringRest m t = none) :
    if m then ∀ indent : Text, (∀ c ∈ indent, isIndent c = true) →
      UnclosedString (newline :: (indent ++ t))
    else UnclosedString t := by
  fun_induction stringRest m t with
  | case1 m =>
    cases m with
    | false => exact .finish
    | true => exact fun indent hi => .broken hi (by simp)
  | case2 c rest hc ih =>
    -- The indent grows by one unit.
    intro indent hi
    have hrest := ih (Option.map_eq_none_iff.1 h) (indent ++ [c])
    rw [List.append_assoc, List.singleton_append] at hrest
    refine hrest fun d hd => ?_
    rcases List.mem_append.1 hd with hd | hd
    · exact hi d hd
    · rw [List.mem_singleton.1 hd]
      exact hc
  | case3 c rest _ hb ih =>
    intro indent hi
    rw [beq_iff_eq.1 hb]
    exact .line hi (ih (Option.map_eq_none_iff.1 h))
  | case4 c rest hc hb =>
    intro indent hi
    refine .broken hi ?_
    rintro d ⟨⟩
    exact ⟨by simpa using hc, by simpa using hb⟩
  | case5 c hc d rest hd ih =>
    rw [beq_iff_eq.1 hc, beq_iff_eq.1 hd]
    exact .quotes (ih (Option.map_eq_none_iff.1 h))
  | case6 => cases h
  | case7 => cases h
  | case8 c rest _ hn ih =>
    rw [beq_iff_eq.1 hn]
    exact ih (Option.map_eq_none_iff.1 h) [] (by simp)
  | case9 c rest hc hn ih =>
    exact .unit (by simpa using hc) (by simpa using hn) (ih (Option.map_eq_none_iff.1 h))

/-- A string literal is not read exactly when it is not closed. -/
theorem stringRest_eq_none_iff {t : Text} : stringRest false t = none ↔ UnclosedString t := by
  refine ⟨unclosedString_of_stringRest, fun h => ?_⟩
  induction h with
  | finish => rfl
  | unit hc hn _ ih =>
    rw [stringRest.eq_def]
    simp [hc, hn, ih]
  | quotes _ ih => simp [stringRest, ih]
  | @line indent t hi _ ih =>
    have hbar : isIndent bar = false := by decide
    have hmargin : stringRest true (bar :: t) = none := by simp [stringRest, hbar, ih]
    rw [stringRest_newline, Option.map_eq_none_iff]
    exact (stringRest_indent hi _).2 hmargin
  | @broken indent t hi ht =>
    have hmargin : stringRest true t = none := by
      cases t with
      | nil => rfl
      | cons c t => simp [stringRest, ht c rfl]
    rw [stringRest_newline, Option.map_eq_none_iff]
    exact (stringRest_indent hi _).2 hmargin

/-- A date literal is read where its value ends at a quote and not at the end of the line. -/
theorem dateRest_append {value rest : Text} (hquote : singleQuote ∉ value) (hline : newline ∉ value)
    (hrest : ∀ c ∈ rest.head?, c = singleQuote ∨ c = newline) :
    dateRest (value ++ rest) = if rest.head? == some singleQuote then some value else none := by
  have hvalue : ∀ c ∈ value, (c != singleQuote && inLine c) = true := by
    intro c hc
    have hne : c ≠ singleQuote := fun h => hquote (h ▸ hc)
    have hin : c ≠ newline := fun h => hline (h ▸ hc)
    simp [inLine, hne, hin]
  have hstop : rest.takeWhile (fun c => c != singleQuote && inLine c) = [] := by
    cases rest with
    | nil => rfl
    | cons c rest => rcases hrest c rfl with rfl | rfl <;> simp [inLine]
  unfold dateRest
  dsimp only
  rw [List.takeWhile_append_of_pos hvalue, hstop, List.append_nil, List.drop_left]

/-- A date literal is not read exactly when it is not closed. -/
theorem dateRest_eq_none_iff {t : Text} : dateRest t = none ↔ UnclosedDate t := by
  constructor
  · intro h
    -- The value is as long as can be: it ends at a quote or with the line.
    let inValue : CodeUnit → Bool := fun c => c != singleQuote && inLine c
    have hvalue : ∀ c ∈ t.takeWhile inValue, c ≠ singleQuote ∧ c ≠ newline := by
      intro c hc
      simpa [inValue, inLine] using List.all_eq_true.1 List.all_takeWhile c hc
    have hrest : ∀ c ∈ (t.dropWhile inValue).head?, c = singleQuote ∨ c = newline := by
      intro c hc
      have hstop := List.head?_dropWhile_not inValue t
      rw [hc] at hstop
      by_cases hq : c = singleQuote
      · exact .inl hq
      · exact .inr (by simpa [inValue, inLine, hq] using hstop)
    have hquote : singleQuote ∉ t.takeWhile inValue := fun hc => (hvalue _ hc).1 rfl
    have hline : newline ∉ t.takeWhile inValue := fun hc => (hvalue _ hc).2 rfl
    rw [← List.takeWhile_append_dropWhile (p := inValue) (l := t),
      dateRest_append hquote hline hrest] at h
    refine ⟨_, _, List.takeWhile_append_dropWhile.symm, hquote, hline, ?_⟩
    intro c hc
    refine (hrest c hc).resolve_left ?_
    rintro rfl
    rw [if_pos (beq_iff_eq.2 hc)] at h
    cases h
  · rintro ⟨value, rest, rfl, hquote, hline, hends⟩
    rw [dateRest_append hquote hline fun c hc => .inr (hends c hc), if_neg]
    intro hq
    have hnew := hends singleQuote (beq_iff_eq.1 hq)
    cases hnew

/-! ## Clear lines -/

/-- Apart from line feeds, gaps stay on their line. -/
theorem newline_not_mem_of_gap {b : Bool} {c : CodeUnit} {g z : Text}
    (h : gap? b (c :: (g ++ z)) = some (g.length + 1)) : newline ∉ c :: g := by
  rcases gap?_cases h with ⟨hc, hn⟩ | ⟨-, hn⟩
  · rw [List.eq_nil_of_length_eq_zero (Nat.succ.inj hn), List.mem_singleton]
    rintro rfl
    cases hc
  · exact (endsLine_of_takeWhile (x := c :: g) (z := z) hn).1

/-- The scanner takes a line for clear exactly where it is. -/
theorem Reads.clear_iff {rest x : Text} {b b' : Bool} {p : Position} {ts : List Token}
    (h : Reads rest b p x ts b') : b' = true ↔
      (∀ t ∈ ts, (t.position.after t.raw).line < (p.after x).line) ∧
        (b = true ∨ p.line < (p.after x).line) := by
  induction h with
  | nil => simp
  | @newline b b' p x ts _ ih =>
    have hline : p.line < ((p.advance Text.newline).after x).line := by
      rw [Position.line_after]
      exact Nat.lt_add_right _ (Nat.lt_succ_self _)
    rw [ih, Position.after_cons]
    simp [hline]
  | @gap b b' p c g x ts hgap _ ih =>
    have hline : (p.after (c :: g)).line = p.line := by
      rw [Position.line_after, List.count_eq_zero.2 (newline_not_mem_of_gap hgap), Nat.add_zero]
    rw [ih, hline, ← Position.after_append, List.cons_append]
  | @token b b' p c r x l ts _ _ _ _ ih =>
    have hline : p.line ≤ (p.after (c :: r)).line := by
      rw [Position.line_after]
      exact Nat.le_add_right _ _
    rw [ih, ← Position.after_append, List.cons_append, List.forall_mem_cons]
    constructor
    · rintro ⟨hts, hlt | hlt⟩
      · cases hlt
      · exact ⟨⟨hlt, hts⟩, .inr (Nat.lt_of_le_of_lt hline hlt)⟩
    · rintro ⟨⟨hlt, hts⟩, -⟩
      exact ⟨hts, .inr hlt⟩

/-! ## The whole source -/

/-- What is read in front of anything is a source that can be read. -/
theorem Reads.tokenize_eq {rest x : Text} {b : Bool} {ts : List Token}
    (h : Reads rest true .start x ts b) :
    tokenize x = .ok (.prepend ts (.finish (.behind x))) := by
  have hnil : Tame rest [] := ⟨fun p _ hp => absurd hp (by simp), by simp⟩
  have hscan := (h.follow hnil).scan_eq
  rw [List.append_nil, Position.start_after] at hscan
  exact hscan

/-- A source ends in an error at the first unit where neither a gap nor a lexeme starts. -/
theorem Reads.ofSource_eq {x rest : Text} {b : Bool} {c : CodeUnit} {ts : List Token}
    {fault : LexicalFault} (h : Reads (c :: rest) true .start x ts b) (hc : c ≠ Text.newline)
    (hg : gap? b (c :: rest) = none) (hl : lexeme c rest = .error fault) :
    Stream.ofSource (x ++ c :: rest) = .error ⟨.lexical fault, .behind x⟩ := by
  have hscan := h.scan_eq
  rw [scan_fault hc hg hl, Position.start_after] at hscan
  unfold Stream.ofSource tokenize
  rw [hscan]
  rfl

/-- **Lexical errors are located exactly.** Where the tokens of a source cannot be read, the
reported place is that of one unit, and no other unit has it. What stands in front of the unit is
read without an error. Either the unit starts nothing, the message names it, and every source that
is the same up to and including it has the same error; or it is the quote in front of a literal that
is not closed. -/
theorem error_located (file : Text) {source : Text} {e : SyntaxError}
    (h : Stream.ofSource source = .error e) : let d := e.toDiagnostic file
    ∃ (before : Text) (c : CodeUnit) (after : Text) (s : Stream),
      source = before ++ c :: after ∧
      (∀ t, t <+: source → (d.location = some (.ofPosition file (.behind t)) ↔ t = before)) ∧
      tokenize before = .ok s ∧
      ((d.code.name = "BSL1001" ∧ d.message = ("Unexpected character '" : Text) ++ [c] ++ "'" ∧
          StartsNothing (s.ClearsLine (.behind before)) c ∧
          ∀ after', Stream.ofSource (before ++ c :: after') = .error e) ∨
        (d.code.name = "BSL1002" ∧
          ((d.message = "Unterminated string literal" ∧ c = doubleQuote ∧ UnclosedString after) ∨
            (d.message = "Unterminated date literal" ∧ c = singleQuote ∧
              UnclosedDate after)))) := by
  intro d
  obtain ⟨before, y, ts, b, rfl, hr, hstop⟩ := reads_until true .start source
  cases hstop with
  | finish =>
    rw [List.append_nil] at h
    unfold Stream.ofSource at h
    rw [hr.tokenize_eq] at h
    cases h
  | @fault c after fault hc hg hl =>
    rw [hr.ofSource_eq hc hg hl] at h
    cases h
    refine ⟨before, c, after, _, rfl, ?_, hr.tokenize_eq, ?_⟩
    · intro t ht
      constructor
      · intro hplace
        have hbehind := Location.ofPosition_injective file (Option.some.inj hplace)
        exact Position.behind_inj_of_prefix ht (List.prefix_append _ _) hbehind.symm
      · rintro rfl
        rfl
    · rcases lexeme_error_cases hl with
        ⟨rfl, hword, hdigit, hdouble, hsingle, hmark⟩ | ⟨rfl, rfl, hs⟩ | ⟨rfl, rfl, hd⟩
      · have hgap := gap?_eq_none_iff.1 hg
        have hnothing : StartsNothing (b = true) c :=
          ⟨hc, hgap.1, fun hb => by simpa [hb] using hgap.2.2, hword, hdigit, hdouble,
            hsingle, hmark⟩
        refine .inl ⟨rfl, rfl, hnothing.imp fun hclear => ?_, fun after' => ?_⟩
        · refine hr.clear_iff.2 ⟨fun t ht => ?_, .inl rfl⟩
          rw [Position.start_after]
          exact hclear t (by simpa [Stream.tokens] using ht)
        · have hr' := hr.follow (hnothing.tame after after')
          exact hr'.ofSource_eq hc (hnothing.gap?_eq after') (hnothing.lexeme_eq after')
      · exact .inr ⟨rfl, .inl ⟨rfl, rfl, stringRest_eq_none_iff.1 hs⟩⟩
      · exact .inr ⟨rfl, .inr ⟨rfl, rfl, dateRest_eq_none_iff.1 hd⟩⟩

set_option maxRecDepth 10000 in
/-- `x="a`, then ` |"""#` on the next line: the number sign starts no directive behind the string,
which ends on its line. -/
theorem error_located_numberSign :
    ∃ (file source : Text) (e : SyntaxError),
      source = [0x78, 0x3D, 0x22, 0x61, 0x0A, 0x20, 0x7C, 0x22, 0x22, 0x22, 0x23] ∧
      e = ⟨.lexical (.unexpectedCharacter 0x23), ⟨2, 6⟩⟩ ∧ Stream.ofSource source = .error e ∧
      let d := e.toDiagnostic file
      ∃ (before : Text) (c : CodeUnit) (after : Text) (s : Stream),
        source = before ++ c :: after ∧
        (∀ t, t <+: source → (d.location = some (.ofPosition file (.behind t)) ↔ t = before)) ∧
        tokenize before = .ok s ∧
        ((d.code.name = "BSL1001" ∧ d.message = ("Unexpected character '" : Text) ++ [c] ++ "'" ∧
            StartsNothing (s.ClearsLine (.behind before)) c ∧
            ∀ after', Stream.ofSource (before ++ c :: after') = .error e) ∨
          (d.code.name = "BSL1002" ∧
            ((d.message = "Unterminated string literal" ∧ c = doubleQuote ∧ UnclosedString after) ∨
              (d.message = "Unterminated date literal" ∧ c = singleQuote ∧ UnclosedDate after)))) :=
  ⟨[], _, _, rfl, rfl, rfl, error_located [] rfl⟩

end Lexer

end Gradual
