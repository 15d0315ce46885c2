import Gradual.Syntax.Parser.Basic

/-!
# Streams in front of streams

What the functions on single tokens do to a stream, said as equations between streams: a token that
was taken stood in front of what is left.
-/

namespace Gradual

/-- A sequence of two steps succeeds exactly when both do. -/
theorem bind_eq_ok {ε α β : Type} {x : Except ε α} {f : α → Except ε β} {b : β} :
    (x >>= f) = .ok b ↔ ∃ a, x = .ok a ∧ f a = .ok b := by
  cases x with
  | error e => simp [bind, Except.bind]
  | ok a => simp [bind, Except.bind]

namespace Stream

/-! ## Tokens in front -/

/-- The stream that starts with the given tokens. -/
def prepend : List Token → Stream → Stream
  | [], s => s
  | t :: ts, s => next t (prepend ts s)

@[simp] theorem prepend_nil (s : Stream) : prepend [] s = s := rfl

@[simp] theorem prepend_cons (t : Token) (ts : List Token) (s : Stream) :
    prepend (t :: ts) s = next t (prepend ts s) := rfl

/-- Tokens in two parts are put in front part by part. -/
theorem prepend_append (xs ys : List Token) (s : Stream) :
    prepend (xs ++ ys) s = prepend xs (prepend ys s) := by
  induction xs with
  | nil => rfl
  | cons x xs ih => rw [List.cons_append, prepend_cons, prepend_cons, ih]

/-- The tokens of a stream with tokens in front. -/
@[simp] theorem tokens_prepend (ts : List Token) (s : Stream) :
    (prepend ts s).tokens = ts ++ s.tokens := by
  induction ts with
  | nil => rfl
  | cons t ts ih => rw [prepend_cons, tokens, ih, List.cons_append]

/-- Tokens in front do not move the end. -/
@[simp] theorem finishPosition_prepend (ts : List Token) (s : Stream) :
    (prepend ts s).finishPosition = s.finishPosition := by
  induction ts with
  | nil => rfl
  | cons t ts ih => rw [prepend_cons, finishPosition, ih]

/-- Each token in front counts one. -/
theorem length_prepend (ts : List Token) (s : Stream) :
    (prepend ts s).length = ts.length + s.length := by
  induction ts with
  | nil => exact (Nat.zero_add _).symm
  | cons t ts ih => rw [prepend_cons, length, ih, List.length_cons, Nat.add_right_comm]

/-- Tokens in front make a stream no shorter. -/
theorem length_le_prepend (ts : List Token) (s : Stream) : s.length ≤ (prepend ts s).length := by
  rw [length_prepend]
  exact Nat.le_add_left _ _

/-! ## Optional tokens

Marks and keywords are taken in the same way: the first token goes when its lexeme is the wanted
one. -/

/-- A lexeme is taken exactly where the stream starts with it. -/
theorem take_eq_true {s rest : Stream} {l : Lexeme} :
    (if s.lexeme? == some l then (true, s.tail) else (false, s)) = (true, rest) ↔
      ∃ t, t.lexeme = l ∧ s = next t rest := by
  cases s with
  | finish p => simp [lexeme?]
  | next t s =>
    constructor
    · intro h
      by_cases hl : t.lexeme = l
      · simp only [lexeme?, hl, beq_self_eq_true, if_true, tail, Prod.mk.injEq, true_and] at h
        exact ⟨t, hl, by rw [h]⟩
      · simp [lexeme?, hl] at h
    · rintro ⟨u, hu, h⟩
      cases h
      simp [lexeme?, tail, hu]

/-- Nothing is taken exactly where the stream starts with something else. -/
theorem take_eq_false {s rest : Stream} {l : Lexeme} :
    (if s.lexeme? == some l then (true, s.tail) else (false, s)) = (false, rest) ↔
      s.lexeme? ≠ some l ∧ rest = s := by
  by_cases h : s.lexeme? = some l
  · simp [h]
  · rw [if_neg (by simpa using h)]
    exact ⟨fun h' => ⟨h, (congrArg Prod.snd h').symm⟩, fun h' => by rw [h'.2]⟩

/-- A mark is not taken exactly where it does not come first. -/
theorem takeMark_eq_false {s rest : Stream} {m : Mark} :
    s.takeMark m = (false, rest) ↔ s.lexeme? ≠ some (.mark m) ∧ rest = s := take_eq_false

/-- A keyword is taken exactly where it comes first. -/
theorem takeWord_eq_true {s rest : Stream} {k : Keyword} :
    s.takeWord k = (true, rest) ↔ ∃ t, t.lexeme = .keyword k ∧ s = next t rest := take_eq_true

/-- A keyword is not taken exactly where it does not come first. -/
theorem takeWord_eq_false {s rest : Stream} {k : Keyword} :
    s.takeWord k = (false, rest) ↔ s.lexeme? ≠ some (.keyword k) ∧ rest = s := take_eq_false

/-! ## Required tokens -/

/-- A stream starts with a mark when its first token is that mark. -/
theorem startsWithMark_iff {s : Stream} {m : Mark} :
    s.startsWithMark m = true ↔ ∃ t, t.lexeme = .mark m ∧ s = next t s.tail := by
  rw [startsWithMark, beq_iff_eq]
  cases s with
  | finish p => simp [lexeme?]
  | next t rest => simp [lexeme?, tail]

/-- An expected keyword is there exactly where it comes first. -/
theorem expectWord_eq_ok {s rest : Stream} {k : Keyword} :
    s.expectWord k = .ok rest ↔ ∃ t, t.lexeme = .keyword k ∧ s = next t rest := by
  rw [← takeWord_eq_true, expectWord, takeWord]
  split
  · simp
  · simp [fail]

/-! ## Semicolons -/

/-- What is skipped are semicolons, and none is left in front. -/
theorem skipSemicolons_spec (s : Stream) :
    (∃ ts : List Token, (∀ t ∈ ts, t.lexeme = .mark .semicolon) ∧ s = prepend ts s.skipSemicolons) ∧
      s.skipSemicolons.lexeme? ≠ some (.mark .semicolon) := by
  induction s with
  | finish p => exact ⟨⟨[], by simp, rfl⟩, by simp [skipSemicolons, lexeme?]⟩
  | next t rest ih =>
    rw [skipSemicolons]
    split
    · next h =>
      obtain ⟨⟨ts, hts, hrest⟩, hne⟩ := ih
      refine ⟨⟨t :: ts, ?_, ?_⟩, hne⟩
      · simpa using ⟨h, hts⟩
      · rw [prepend_cons, ← hrest]
    · next h => exact ⟨⟨[], by simp, rfl⟩, by simpa [lexeme?] using h⟩

/-- Semicolons in front of a stream are skipped with those that it begins with. -/
theorem skipSemicolons_prepend {semicolons : List Token}
    (hsemi : ∀ t ∈ semicolons, t.lexeme = .mark .semicolon) (s : Stream) :
    (prepend semicolons s).skipSemicolons = s.skipSemicolons := by
  induction semicolons with
  | nil => rfl
  | cons t semicolons ih =>
    rw [prepend_cons, skipSemicolons, if_pos (hsemi t List.mem_cons_self)]
    exact ih fun u hu => hsemi u (List.mem_cons_of_mem t hu)

end Stream

end Gradual
