import Gradual.Proofs.Syntax.Scanning

/-!
# The layout of a source

A source that is read consists of its tokens, as they are written, and of the gaps in front of,
between and behind them. Nothing is lost and nothing is rebuilt: the texts of gaps and tokens in
order are the source. Positions are those of the units at which tokens start, counted in line feeds
and in units since the last line feed.

Main statement: `Lexer.tokenize_layout`.
-/

namespace Gradual

namespace Position

/-- The position behind a text at the start of a module: a new line for each line feed, and a new
column for each unit behind the last of them. -/
def behind (t : Text) : Position :=
  ⟨t.count Text.newline + 1, (t.reverse.takeWhile Lexer.inLine).length + 1⟩

/-- Counting unit by unit leads to the position behind a text. -/
theorem start_after (t : Text) : start.after t = behind t := by
  -- Both sides look at the last unit first, so the induction is on the reversed text.
  suffices h : ∀ u : Text, start.after u.reverse =
      ⟨u.count Text.newline + 1, (u.takeWhile Lexer.inLine).length + 1⟩ by
    have ht := h t.reverse
    rw [List.reverse_reverse, List.count_reverse] at ht
    exact ht
  intro u
  induction u with
  | nil => rfl
  | cons c u ih =>
    rw [List.reverse_cons, after_append, ih, after_cons, after_nil, advance, List.count_cons,
      List.takeWhile_cons]
    by_cases hc : c = Text.newline
    · simp [hc, Lexer.inLine]
    · simp [hc, Lexer.inLine]

end Position

namespace Lexer

open Text

/-! ## Gaps -/

/-- Nothing of the line is left. -/
def EndsLine (t : Text) : Prop := ∀ c ∈ t.head?, c = newline

/-- The texts that stand between tokens: blanks, line feeds, comments up to the end of their line
and, where nothing but blanks is in front of them on their line, directives up to the end of their
line. The truth value tells whether the gap starts at such a place, and `following` is the source
behind the gap. -/
inductive Gap (following : Text) : Bool → Text → Prop where
  | nil {b : Bool} : Gap following b []
  | blank {b : Bool} {c : CodeUnit} {g : Text} : isBlank c = true → Gap following b g →
    Gap following b (c :: g)
  | newline {b : Bool} {g : Text} : Gap following true g → Gap following b (newline :: g)
  | comment {b : Bool} {line g : Text} :
      Text.newline ∉ line → EndsLine (g ++ following) → Gap following b g →
      Gap following b (slash :: slash :: (line ++ g))
  | directive {c : CodeUnit} {line g : Text} :
      isDirective c = true → Text.newline ∉ line → EndsLine (g ++ following) →
      Gap following true g →
      Gap following true (c :: (line ++ g))

/-- A stretch of units of one class, up to where the text goes on with a unit of another class. -/
theorem of_length_takeWhile {f : CodeUnit → Bool} {x z : Text}
    (h : x.length = ((x ++ z).takeWhile f).length) :
    (∀ c ∈ x, f c = true) ∧ ∀ c ∈ z.head?, f c = false := by
  induction x with
  | nil =>
    refine ⟨fun _ hc => absurd hc List.not_mem_nil, ?_⟩
    intro c hc
    obtain ⟨z, rfl⟩ := List.head?_eq_some_iff.1 hc
    rw [List.nil_append, List.takeWhile_cons] at h
    cases hf : f c with
    | false => rfl
    | true => simp [hf] at h
  | cons d x ih =>
    rw [List.cons_append, List.takeWhile_cons] at h
    cases hf : f d with
    | false => simp [hf] at h
    | true =>
      rw [hf, if_pos rfl, List.length_cons, List.length_cons, Nat.add_right_cancel_iff] at h
      obtain ⟨hx, hz⟩ := ih h
      refine ⟨?_, hz⟩
      intro c hc
      rcases List.mem_cons.1 hc with rfl | hc
      · exact hf
      · exact hx c hc

/-- A stretch of a line that is as long as can be holds no line feed, and the line ends behind
it. -/
theorem endsLine_of_takeWhile {x z : Text} (h : x.length = ((x ++ z).takeWhile inLine).length) :
    newline ∉ x ∧ EndsLine z := by
  obtain ⟨hx, hz⟩ := of_length_takeWhile h
  constructor
  · intro hm
    have := hx newline hm
    cases this
  · intro c hc
    simpa [inLine] using hz c hc

/-- What is read without a token is a gap. -/
theorem Reads.isGap {rest g : Text} {b b' : Bool} {p : Position} (h : Reads rest b p g [] b') :
    Gap rest b g := by
  generalize hts : ([] : List Token) = ts at h
  induction h with
  | nil => exact .nil
  | newline hr ih => exact .newline (ih hts)
  | @gap b b' p c g x ts hgap hr ih =>
    rcases gap?_cases hgap with ⟨hc, hn⟩ | ⟨hc, hn⟩
    · obtain rfl : g = [] := List.eq_nil_of_length_eq_zero (by omega)
      exact .blank hc (ih hts)
    · -- A comment or directive takes the rest of the line.
      obtain ⟨hline, hends⟩ := endsLine_of_takeWhile (x := c :: g) (z := x ++ rest)
        (by simpa using hn)
      rw [List.mem_cons, not_or] at hline
      rcases hc with ⟨rfl, hslash⟩ | ⟨rfl, hd⟩
      · cases g with
        | cons d line =>
          cases hslash
          exact .comment (fun hm => hline.2 (List.mem_cons_of_mem _ hm)) hends (ih hts)
        | nil =>
          -- The second slash is part of the line.
          have hnew := hends _ hslash
          cases hnew
      · exact .directive hd hline.2 hends (ih hts)
  | token => cases hts

/-! ## Gaps and tokens -/

/-- The text of tokens, each with the gap in front of it. -/
def written (chunks : List (Text × Token)) : Text :=
  chunks.flatMap fun chunk => chunk.1 ++ chunk.2.raw

theorem written_cons (g : Text) (t : Token) (chunks : List (Text × Token)) :
    written ((g, t) :: chunks) = g ++ (t.raw ++ written chunks) := by
  unfold written
  rw [List.flatMap_cons, List.append_assoc]

/-- What is read consists of the tokens with gaps in front of them, and of a last gap. -/
theorem Reads.layout {rest x : Text} {b b' : Bool} {p : Position} {ts : List Token}
    (h : Reads rest b p x ts b') :
    ∃ (chunks : List (Text × Token)) (last : Text),
      chunks.map Prod.snd = ts ∧ x = written chunks ++ last ∧ Gap rest (b && chunks.isEmpty) last ∧
      ∀ xs gap t ys, chunks = xs ++ (gap, t) :: ys →
        t.raw ≠ [] ∧ Gap (t.raw ++ (written ys ++ (last ++ rest))) (b && xs.isEmpty) gap ∧
          t.position = p.after (written xs ++ gap) := by
  induction ts generalizing b p x with
  | nil =>
    refine ⟨[], x, rfl, rfl, by simpa using h.isGap, ?_⟩
    intro xs gap t ys hsplit
    simp at hsplit
  | cons t ts ih =>
    obtain ⟨g, c, r, y, b₁, rfl, hg, -, -, -, hraw, hp, hr⟩ := h.first
    obtain ⟨chunks, last, rfl, rfl, hlast, hchunks⟩ := ih hr
    refine ⟨(g, t) :: chunks, last, rfl, by simp [written_cons, hraw], by simpa using hlast, ?_⟩
    intro xs gap u ys hsplit
    cases xs with
    | nil =>
      cases hsplit
      refine ⟨by simp [hraw], ?_, by simpa [written] using hp⟩
      simpa [hraw] using hg.isGap
    | cons chunk xs =>
      rw [List.cons_append, List.cons.injEq] at hsplit
      obtain ⟨rfl, hsplit⟩ := hsplit
      obtain ⟨hne, hgap, hpos⟩ := hchunks xs gap u ys hsplit
      refine ⟨hne, by simpa using hgap, ?_⟩
      rw [hpos, written_cons, hraw]
      simp

/-- **Reading tokens loses nothing.** A source that is read is, in order, its tokens as they are
written, each behind a gap, and a last gap. No token is empty; the end, which is not written, stands
behind all of them. Every token stands at the position behind what is written in front of it, and so
does the end. -/
theorem tokenize_layout {source : Text} {s : Stream} (h : tokenize source = .ok s) :
    ∃ (chunks : List (Text × Token)) (last : Text),
      chunks.map Prod.snd = s.tokens ∧ source = written chunks ++ last ∧
      Gap [] chunks.isEmpty last ∧
      s.finishPosition = .behind source ∧
      ∀ xs gap t ys, chunks = xs ++ (gap, t) :: ys →
        t.raw ≠ [] ∧ Gap (t.raw ++ (written ys ++ last)) xs.isEmpty gap ∧
          t.position = .behind (written xs ++ gap) := by
  obtain ⟨b', hr, hp⟩ := reads_of_scan h
  rw [List.take_zero, List.drop_zero, Position.after_nil] at hr
  obtain ⟨chunks, last, hts, hsource, hlast, hchunks⟩ := hr.layout
  refine ⟨chunks, last, hts, hsource, hlast, ?_, ?_⟩
  · rw [hp, Position.start_after]
  · intro xs gap t ys hsplit
    obtain ⟨hne, hgap, hpos⟩ := hchunks xs gap t ys hsplit
    rw [List.append_nil] at hgap
    exact ⟨hne, hgap, by rw [hpos, Position.start_after]⟩

set_option maxRecDepth 10000 in
/-- A directive in front of `x`, a string on two lines, a comment behind it and a directive at the
end. -/
theorem tokenize_layout_string :
    ∃ (source : Text) (s : Stream),
      source = [0x26, 0x41, 0x0A, 0x78, 0x20, 0x3D, 0x22, 0x61, 0x0A, 0x7C, 0x22, 0x3B, 0x2F, 0x2F,
        0x0A, 0x09, 0x23] ∧
      tokenize source = .ok s ∧
      s = .next ⟨.identifier [0x78], [0x78], ⟨2, 1⟩⟩ (.next ⟨.mark .equal, [0x3D], ⟨2, 3⟩⟩
        (.next ⟨.string [0x61, 0x0A], [0x22, 0x61, 0x0A, 0x7C, 0x22], ⟨2, 4⟩⟩
        (.next ⟨.mark .semicolon, [0x3B], ⟨3, 3⟩⟩ (.finish ⟨4, 3⟩)))) ∧
      ∃ (chunks : List (Text × Token)) (last : Text),
        chunks.map Prod.snd = s.tokens ∧ source = written chunks ++ last ∧
        Gap [] chunks.isEmpty last ∧
        s.finishPosition = .behind source ∧
        ∀ xs gap t ys, chunks = xs ++ (gap, t) :: ys →
          t.raw ≠ [] ∧ Gap (t.raw ++ (written ys ++ last)) xs.isEmpty gap ∧
            t.position = .behind (written xs ++ gap) :=
  ⟨_, _, rfl, rfl, rfl, tokenize_layout rfl⟩

end Lexer

end Gradual
