import Gradual.Proofs.Syntax.Printer
import Gradual.Proofs.Syntax.Stream

/-!
# Reading written expressions

The reader of expressions, run on the pieces of an expressible tree at any positions, gives back the
tree up to positions.

An expression is read by a loop at its level, which goes on while operators of the level follow.
What has been read when the loop is entered depends on the tokens so far only, so the induction is
on statements of the form "whatever the loop makes of the operand `e'` and the tokens behind it, the
reader makes of the whole" (`Opens`). The depth is kept explicit: sixteen for every token, and a
little more for the levels that are passed without reading a token.
-/

namespace Gradual

namespace Stream

/-! ## Streams that spell pieces -/

/-- The stream starts with tokens for the pieces, and `rest` is what follows them. -/
def Spells : List Piece → Stream → Stream → Prop
  | [], s, rest => s = rest
  | p :: ps, s, rest => ∃ pos s', s = next ⟨p.lexeme, p.raw, pos⟩ s' ∧ Spells ps s' rest

/-- Pieces one after another are spelled one after another. -/
theorem spells_append {ps qs : List Piece} {s rest : Stream} :
    Spells (ps ++ qs) s rest ↔ ∃ s', Spells ps s s' ∧ Spells qs s' rest := by
  induction ps generalizing s with
  | nil => simp [Spells]
  | cons p ps ih =>
    constructor
    · rintro ⟨pos, s', rfl, h⟩
      obtain ⟨s'', h₁, h₂⟩ := ih.1 h
      exact ⟨s'', ⟨pos, s', rfl, h₁⟩, h₂⟩
    · rintro ⟨s'', ⟨pos, s', rfl, h₁⟩, h₂⟩
      exact ⟨pos, s', rfl, ih.2 ⟨s'', h₁, h₂⟩⟩

theorem spells_singleton {p : Piece} {s rest : Stream} :
    Spells [p] s rest ↔ ∃ pos, s = next ⟨p.lexeme, p.raw, pos⟩ rest := by
  constructor
  · rintro ⟨pos, s', rfl, rfl⟩
    exact ⟨pos, rfl⟩
  · rintro ⟨pos, rfl⟩
    exact ⟨pos, rest, rfl, rfl⟩

/-- A spelled piece is one token. -/
theorem Spells.length_eq {ps : List Piece} {s rest : Stream} (h : Spells ps s rest) :
    s.length = ps.length + rest.length := by
  induction ps generalizing s with
  | nil =>
    cases h
    simp
  | cons p ps ih =>
    obtain ⟨pos, s', rfl, h⟩ := h
    rw [length, ih h, List.length_cons]
    omega

/-- Pieces with commas between them start with the first of them. -/
theorem Spells.commas_head {ps : List Piece} {pss : List (List Piece)} {s rest : Stream}
    (h : Spells (Printer.commas (ps :: pss)) s rest) : ∃ s', Spells ps s s' := by
  cases pss with
  | nil => exact ⟨rest, h⟩
  | cons qs pss =>
    obtain ⟨s', h, -⟩ := spells_append.1 h
    exact ⟨s', h⟩

/-- The pieces of all tokens of a stream. -/
theorem spells_of_tokens {s : Stream} {ps : List Piece} (h : s.tokens.map Token.piece = ps) :
    Spells ps s (.finish s.finishPosition) := by
  induction s generalizing ps with
  | finish p =>
    subst h
    rfl
  | next t s ih =>
    subst h
    exact ⟨t.position, s, rfl, ih rfl⟩

/-- All pieces can be written one after the other. -/
theorem exists_tokens (ps : List Piece) : ∃ s : Stream, s.tokens.map Token.piece = ps := by
  induction ps with
  | nil => exact ⟨.finish ⟨1, 1⟩, rfl⟩
  | cons p ps ih =>
    obtain ⟨s, rfl⟩ := ih
    exact ⟨.next ⟨p.lexeme, p.raw, ⟨1, 1⟩⟩ s, rfl⟩

end Stream

namespace Parser

open Gradual.Stream

/-! ## What can follow an expression -/

/-- The level at which a lexeme goes on with an expression that stands before it. -/
def continues : Lexeme → Option Level
  | .keyword .kwOr => some .disjunction
  | .keyword .kwAnd => some .conjunction
  | .mark .equal | .mark .notEqual | .mark .less | .mark .lessEqual | .mark .greater
  | .mark .greaterEqual =>
    some .comparison
  | .mark .plus | .mark .minus => some .sum
  | .mark .star | .mark .slash | .mark .percent => some .product
  | .mark .dot | .mark .openParen | .mark .openBracket => some .access
  | _ => none

/-- Nothing follows that goes on with an expression at a level tighter than the given one. -/
def Admits (level : Level) (rest : Stream) : Prop :=
  ∀ l ∈ rest.lexeme?, ∀ k ∈ continues l, k.strength ≤ level.strength

/-- Nothing follows that goes on with an expression at the given level or a tighter one. -/
def Closes (level : Level) (rest : Stream) : Prop :=
  ∀ l ∈ rest.lexeme?, ∀ k ∈ continues l, k.strength < level.strength

/-- A binary operator goes on with an expression at its own level. -/
theorem continues_of_operator? {level : Level} {l : Lexeme} {op : BinaryOp}
    (h : level.operator? l = some op) :
    continues l = some level := by
  rw [Level.operator?.eq_def] at h
  split at h <;> first | rfl | cases h

/-- At its level an operator is read back from its lexeme. -/
theorem operator?_lexeme (op : BinaryOp) : op.level.operator? op.lexeme = some op := by
  cases op <;> rfl

/-- What closes a level is admitted behind it. -/
theorem Closes.admits {level : Level} {rest : Stream} (h : Closes level rest) : Admits level rest :=
  fun l hl k hk => Nat.le_of_lt (h l hl k hk)

/-- What is admitted behind a tight level is admitted behind a looser bound. -/
theorem Admits.mono {level level' : Level} {rest : Stream} (hle : level.strength ≤ level'.strength)
    (h : Admits level rest) : Admits level' rest :=
  fun l hl k hk => Nat.le_trans (h l hl k hk) hle

/-- What is admitted behind a level closes all tighter ones. -/
theorem Admits.closes_tighter {level : Level} {rest : Stream} (hne : level ≠ .access)
    (h : Admits level rest) :
    Closes level.tighter rest := by
  intro l hl k hk
  rw [Level.strength_tighter hne]
  exact Nat.lt_succ_of_le (h l hl k hk)

/-- After a token that goes on with no expression, everything is closed. -/
theorem closes_next {level : Level} {t : Token} {s : Stream} (h : continues t.lexeme = none) :
    Closes level (.next t s) := by
  intro l hl k hk
  cases hl
  rw [h] at hk
  cases hk

/-! ## The loop of a level -/

/-- What the loop of a level makes of an operand and the tokens behind it. The levels of prefix
operators have no loop. -/
def Loop (level : Level) (e : Expr) (s : Stream) (r : Expr × Stream) : Prop :=
  match level with
  | .negation | .sign => r = (e, s)
  | .access => ∀ n, 16 * s.length + 1 ≤ n → accesses n e s = .ok r
  | level => ∀ n, 16 * s.length + 1 ≤ n → operations n level e s = .ok r

/-- The reader of a level makes the result of the stream, given enough depth. -/
def Reads (level : Level) (s : Stream) (r : Expr × Stream) : Prop :=
  ∀ n, 16 * s.length + (9 - level.strength) ≤ n → expression n level s = .ok r

/-- The tokens up to `rest` are an operand of the level, the given one up to positions: what the
loop goes on to make of it is what the reader makes. -/
def Opens (level : Level) (e : Expr) (s rest : Stream) : Prop :=
  ∃ e', e'.unlocated = e.unlocated ∧ ∀ r, Loop level e' rest r → Reads level s r

/-- Where nothing goes on at the level, the loop of binary operators stops at once. -/
theorem Closes.operations_eq {level : Level} {rest : Stream} (h : Closes level rest)
    (e : Expr) (n : Nat) :
    operations (n + 1) level e rest = .ok (e, rest) := by
  cases rest with
  | finish p => rw [operations]
  | next t s =>
    rw [operations]
    split
    · next op hop =>
      exact absurd (h _ rfl _ (continues_of_operator? hop)) (Nat.lt_irrefl _)
    · rfl

/-- Where nothing goes on, the loop of accesses stops at once. -/
theorem Closes.accesses_eq {rest : Stream} (h : Closes .access rest) (e : Expr) (n : Nat) :
    accesses (n + 1) e rest = .ok (e, rest) := by
  rw [accesses.eq_def]
  dsimp only
  split
  · exact absurd (h _ rfl _ rfl) (Nat.lt_irrefl _)
  · exact absurd (h _ rfl _ rfl) (Nat.lt_irrefl _)
  · exact absurd (h _ rfl _ rfl) (Nat.lt_irrefl _)
  · rfl

/-- The loop stops where nothing goes on. -/
theorem Closes.loop {level : Level} {rest : Stream} (h : Closes level rest) (e : Expr) :
    Loop level e rest (e, rest) := by
  have depth : ∀ n, 16 * rest.length + 1 ≤ n → ∃ m, n = m + 1 := fun n hn => ⟨n - 1, by omega⟩
  cases level with
  | negation | sign => rfl
  | access =>
    intro n hn
    obtain ⟨m, rfl⟩ := depth n hn
    exact h.accesses_eq e m
  | disjunction | conjunction | comparison | sum | product =>
    intro n hn
    obtain ⟨m, rfl⟩ := depth n hn
    exact h.operations_eq e m

/-- An operand that nothing goes on with is read. -/
theorem Opens.reads {level : Level} {e : Expr} {s rest : Stream} (h : Opens level e s rest)
    (hc : Closes level rest) : ∃ e', e'.unlocated = e.unlocated ∧ Reads level s (e', rest) := by
  obtain ⟨e', he, h⟩ := h
  exact ⟨e', he, h _ (hc.loop e')⟩

/-! ## From tight levels to loose ones -/

/-- The first token is no prefix operator of the level. -/
def NoPrefix (level : Level) (s : Stream) : Prop :=
  match level with
  | .negation => s.lexeme? ≠ some (.keyword .kwNot)
  | .sign => s.lexeme? ≠ some (.mark .minus) ∧ s.lexeme? ≠ some (.mark .plus)
  | _ => True

/-- An operand of the next tighter level is one of the level. -/
theorem Opens.looser {level : Level} {e : Expr} {s rest : Stream} (hne : level ≠ .access)
    (h : Opens level.tighter e s rest) (ha : Admits level rest) (hp : NoPrefix level s)
    (hlen : rest.length ≤ s.length) : Opens level e s rest := by
  obtain ⟨e', he, hr⟩ := h
  have hread := hr _ ((ha.closes_tighter hne).loop e')
  refine ⟨e', he, fun r hl n hn => ?_⟩
  have hstrength := Level.strength_le level
  obtain ⟨m, rfl⟩ : ∃ m, n = m + 1 := ⟨n - 1, by omega⟩
  have hm : 16 * s.length + (9 - level.tighter.strength) ≤ m := by
    rw [Level.strength_tighter hne]
    omega
  cases level with
  | access => exact absurd rfl hne
  | negation =>
    cases hl
    rw [expression.eq_def]
    dsimp only
    split
    · exact absurd rfl hp
    · exact hread m hm
  | sign =>
    cases hl
    rw [expression.eq_def]
    dsimp only
    split
    · exact absurd rfl hp.1
    · exact absurd rfl hp.2
    · exact hread m hm
  | disjunction | conjunction | comparison | sum | product =>
    show (expression m _ s >>= fun r => operations m _ r.1 r.2) = .ok r
    rw [hread m hm]
    exact hl m (by omega)

/-- The tightest level of an expression that can start with a lexeme. -/
def begins : Lexeme → Option Level
  | .keyword .kwNot => some .negation
  | .mark .minus => some .sign
  | .number _ | .string _ | .date _ | .identifier _ => some .access
  | .keyword .kwTrue | .keyword .kwFalse | .keyword .kwUndefined | .keyword .kwNull
  | .keyword .kwNew => some .access
  | .mark .openParen | .mark .question => some .access
  | _ => none

/-- The stream starts with an expression of the level, as far as its first token can tell. -/
def Begins (level : Level) (s : Stream) : Prop :=
  ∃ l k, s.lexeme? = some l ∧ begins l = some k ∧ level.strength ≤ k.strength

/-- An expression of a tight level does not start with a prefix operator of a looser one. -/
theorem Begins.noPrefix {level level' : Level} {s : Stream} (h : Begins level s)
    (hlt : level'.strength < level.strength) : NoPrefix level' s := by
  obtain ⟨l, k, hl, hk, hle⟩ := h
  cases level' with
  | negation =>
    intro hnot
    cases hl.symm.trans hnot
    cases hk
    exact absurd (Nat.lt_of_lt_of_le hlt hle) (Nat.lt_irrefl _)
  | sign =>
    constructor
    · intro hminus
      cases hl.symm.trans hminus
      cases hk
      exact absurd (Nat.lt_of_lt_of_le hlt hle) (Nat.lt_irrefl _)
    · intro hplus
      cases hl.symm.trans hplus
      cases hk
  | _ => trivial

/-- An operand of a level is one of every looser level. -/
theorem Opens.loosen {own level : Level} {e : Expr} {s rest : Stream} (h : Opens own e s rest)
    (hle : level.strength ≤ own.strength) (hb : Begins own s) (ha : Admits level rest)
    (hlen : rest.length ≤ s.length) : Opens level e s rest := by
  induction hd : own.strength - level.strength generalizing level with
  | zero =>
    cases Level.eq_of_strength_eq (show level.strength = own.strength by omega)
    exact h
  | succ d ih =>
    have hlt : level.strength < own.strength := by omega
    have hne : level ≠ .access := by
      rintro rfl
      cases own <;> exact absurd hlt (by decide)
    have hstrength := Level.strength_tighter hne
    have htighter : Opens level.tighter e s rest :=
      ih (by omega) (ha.mono (by omega)) (by omega)
    exact htighter.looser hne ha (hb.noPrefix hlt) hlen

/-! ## The first piece of an expression -/

variable {style : NumberStyle}

/-- An expression in its place starts as that place needs: it does so by itself, or stands in
parentheses. -/
theorem begins_place {level own : Level} {ps : List Piece} {s rest : Stream}
    (h : Spells (Printer.place level own ps) s rest)
    (hps : ∀ s', Spells ps s s' → Begins own s) : Begins level s := by
  rw [Printer.place] at h
  split at h
  · obtain ⟨pos, s', rfl, -⟩ := h
    exact ⟨_, _, rfl, rfl, Level.strength_le level⟩
  · next hle =>
    obtain ⟨l, k, hl, hk, hstrength⟩ := hps rest h
    exact ⟨l, k, hl, hk, by omega⟩

/-- A written expression starts with a lexeme that can start it. -/
theorem begins_print {e : Expr} (he : e.Expressible) {s rest : Stream}
    (h : Spells (e.print style) s rest) : Begins e.level s := by
  induction he generalizing s rest with
  | @boolean b l =>
    obtain ⟨pos, s', rfl, -⟩ := h
    cases b <;> exact ⟨_, _, rfl, rfl, Nat.le_refl _⟩
  | number | string | date | undefined | null | ident | new | choice =>
    obtain ⟨pos, s', rfl, -⟩ := h
    exact ⟨_, _, rfl, rfl, Nat.le_refl _⟩
  | @unary op e l he ih =>
    obtain ⟨pos, s', rfl, -⟩ := h
    cases op <;> exact ⟨_, _, rfl, rfl, Nat.le_refl _⟩
  | member he hn ih =>
    obtain ⟨s', h, -⟩ := spells_append.1 h
    exact begins_place h fun s' hs => ih hs
  | index he hk ihe ihk =>
    obtain ⟨s', h, -⟩ := spells_append.1 h
    exact begins_place h fun s' hs => ihe hs
  | call he ha ihe iha =>
    obtain ⟨s', h, -⟩ := spells_append.1 h
    exact begins_place h fun s' hs => ihe hs
  | binary hl hr ihl ihr =>
    obtain ⟨s', h, -⟩ := spells_append.1 h
    exact begins_place h fun s' hs => ihl hs

/-! ## Operands at their own levels -/

/-- The reader of operands without operators makes the result of the stream, given enough depth. -/
def ReadsPrimary (s : Stream) (r : Expr × Stream) : Prop :=
  ∀ n, 16 * s.length + 1 ≤ n → primary n s = .ok r

/-- An operand without operators that is read is an operand of the tightest level. -/
theorem ReadsPrimary.opens {e e' : Expr} {s rest : Stream} (h : ReadsPrimary s (e', rest))
    (he : e'.unlocated = e.unlocated) (hlen : rest.length < s.length) : Opens .access e s rest := by
  refine ⟨e', he, fun r hl n hn => ?_⟩
  rw [Level.strength] at hn
  obtain ⟨m, rfl⟩ : ∃ m, n = m + 1 := ⟨n - 1, by omega⟩
  rw [expression, h m (by omega)]
  exact hl m (by omega)

/-- An expression in parentheses is an operand of the tightest level. -/
theorem Opens.parentheses {e : Expr} {raw raw' : Text} {p p' : Position} {s rest : Stream}
    (h : Opens .disjunction e s (.next ⟨.mark .closeParen, raw', p'⟩ rest))
    (hlen : rest.length < s.length) :
    Opens .access e (.next ⟨.mark .openParen, raw, p⟩ s) rest := by
  obtain ⟨e', he, hread⟩ := h.reads (closes_next rfl)
  have hprimary : ReadsPrimary (.next ⟨.mark .openParen, raw, p⟩ s) (e', rest) := by
    intro n hn
    rw [length] at hn
    obtain ⟨m, rfl⟩ : ∃ m, n = m + 1 := ⟨n - 1, by omega⟩
    rw [primary, hread m (by rw [Level.strength]; omega)]
    rfl
  exact hprimary.opens he (by rw [length]; omega)

/-- Wherever the pieces of the expression stand, they are an operand. -/
def Readable (style : NumberStyle) (e : Expr) : Prop :=
  ∀ level s rest, Spells (e.printAt style level) s rest → Admits level rest → Opens level e s rest

/-- It is enough to read an expression at its own level. -/
theorem readable_of_own {e : Expr} (he : e.Expressible)
    (own : ∀ s rest, Spells (e.print style) s rest → Admits e.level rest → Opens e.level e s rest) :
    Readable style e := by
  intro level s rest hs ha
  rw [Expr.printAt, Printer.place] at hs
  split at hs
  · -- The level binds too loosely, and the expression is in parentheses.
    have hlen := hs.length_eq
    obtain ⟨o, s', rfl, hs⟩ := hs
    obtain ⟨s'', hs, hc⟩ := spells_append.1 hs
    obtain ⟨c, rfl⟩ := spells_singleton.1 hc
    have hlen' := hs.length_eq
    rw [length] at hlen'
    have hinner : Opens .disjunction e s' _ :=
      (own s' _ hs (closes_next rfl).admits).loosen (Nat.zero_le _)
      (begins_print he hs) (closes_next rfl).admits (by rw [length]; omega)
    refine (Opens.parentheses hinner (by omega)).loosen (Level.strength_le level) ?_ ha
      (by rw [length]; omega)
    exact ⟨_, _, rfl, rfl, Nat.le_refl _⟩
  · next hle =>
    have hlen := hs.length_eq
    exact (own s rest hs (ha.mono (by omega))).loosen (by omega) (begins_print he hs) ha (by omega)

/-- A readable expression is an operand wherever it is written and nothing tighter follows. -/
theorem Readable.opens {e : Expr} {level : Level} {s rest : Stream} (h : Readable style e)
    (hs : Spells (Printer.place level e.level (e.print style)) s rest) (ha : Admits level rest) :
    Opens level e s rest := h level s rest hs ha

/-- A whole expression is read up to a token that does not go on with it. -/
theorem Readable.reads {e : Expr} {t : Token} {s rest : Stream} (h : Readable style e)
    (hs : Spells (e.print style) s (.next t rest)) (ht : continues t.lexeme = none) :
    ∃ e', e'.unlocated = e.unlocated ∧ Reads .disjunction s (e', .next t rest) :=
  (h .disjunction s _ hs (closes_next ht).admits).reads (closes_next ht)

/-- An atom is read as an operand of its own. -/
theorem readsPrimary_atom {l : Lexeme} {make : Option Position → Expr} (h : l.atom? = some make)
    (raw : Text) (p : Position) (rest : Stream) :
    ReadsPrimary (.next ⟨l, raw, p⟩ rest) (make (some p), rest) := by
  intro n hn
  obtain ⟨m, rfl⟩ : ∃ m, n = m + 1 := ⟨n - 1, by omega⟩
  rw [Lexeme.atom?.eq_def] at h
  split at h <;> cases h <;> rfl

/-- A literal or a name is an operand of the tightest level. -/
theorem opens_atom {e : Expr} {l : Lexeme} {s rest : Stream} (make : Option Position → Expr)
    (h : l.atom? = some make) (he : ∀ p, (make p).unlocated = e.unlocated)
    (hs : Spells [.ofLexeme l] s rest) : Opens .access e s rest := by
  obtain ⟨p, rfl⟩ := spells_singleton.1 hs
  exact (readsPrimary_atom h _ p rest).opens (he _) (by rw [length]; omega)

/-! ## Arguments -/

/-- An expression does not start with a mark that no expression starts with. -/
theorem Begins.startsWithMark_eq {s : Stream} {level : Level} {m : Mark} (h : Begins level s)
    (hm : begins (.mark m) = none) : s.startsWithMark m = false := by
  obtain ⟨l, k, hl, hk, -⟩ := h
  rw [startsWithMark, hl, beq_eq_false_iff_ne]
  rintro ⟨⟩
  rw [hm] at hk
  cases hk

/-- An argument that starts like an expression is read as one; it is not an omitted argument. -/
theorem argument_eq {s : Stream} (h : Begins .disjunction s) (n : Nat) :
    argument (n + 1) s = expression n .disjunction s := by
  rw [argument, h.startsWithMark_eq rfl, h.startsWithMark_eq rfl]
  rfl

/-- What is written for an expression starts like one. -/
theorem begins_expression {e : Expr} (he : e.Expressible) {s rest : Stream}
    (h : Spells (e.print style) s rest) : Begins .disjunction s := by
  obtain ⟨l, k, hl, hk, -⟩ := begins_print he h
  exact ⟨l, k, hl, hk, Nat.zero_le _⟩

/-- Arguments written between commas are read back as a list, up to positions. -/
theorem reads_argumentList {e : Expr} {es : List Expr}
    (h : ∀ a ∈ e :: es, a.Expressible ∧ Readable style a) {s rest : Stream}
    (hs : Spells (Printer.commas ((e :: es).map (Expr.print style)) ++ [.ofMark .closeParen])
      s rest) :
    ∃ args, args.map Expr.unlocated = (e :: es).map Expr.unlocated ∧
      ∀ n, 16 * s.length + 11 ≤ n → argumentList n s = .ok (args, rest) := by
  obtain ⟨hexp, hread⟩ := h e (by simp)
  induction es generalizing e s with
  | nil =>
    obtain ⟨s', hs, hc⟩ := spells_append.1 hs
    obtain ⟨c, rfl⟩ := spells_singleton.1 hc
    obtain ⟨e', he, hr⟩ := hread.reads hs rfl
    refine ⟨[e'], by simp [he], fun n hn => ?_⟩
    obtain ⟨m, rfl⟩ : ∃ m, n = m + 2 := ⟨n - 2, by omega⟩
    rw [argumentList, argument_eq (begins_expression hexp hs), hr m (by rw [Level.strength]; omega)]
    rfl
  | cons a es ih =>
    rw [List.map_cons, List.map_cons, Printer.commas, List.append_assoc] at hs
    obtain ⟨s', hs, d, s'', rfl, hs'⟩ := spells_append.1 hs
    obtain ⟨e', he, hr⟩ := hread.reads hs rfl
    obtain ⟨haexp, haread⟩ := h a (by simp)
    obtain ⟨args, hargs, hl⟩ := ih (fun b hb => h b (List.mem_cons_of_mem _ hb)) hs' haexp haread
    have hlen := hs.length_eq
    rw [length] at hlen
    refine ⟨e' :: args, by simp [he, hargs], fun n hn => ?_⟩
    obtain ⟨m, rfl⟩ : ∃ m, n = m + 2 := ⟨n - 2, by omega⟩
    rw [argumentList, argument_eq (begins_expression hexp hs), hr m (by rw [Level.strength]; omega)]
    show (argumentList (m + 1) s'' >>= fun r => .ok (e' :: r.1, r.2)) = _
    rw [hl (m + 1) (by omega)]
    rfl

/-- Written arguments are read, with the closing parenthesis. -/
theorem reads_arguments {es : List Expr} (h : ∀ a ∈ es, a.Expressible ∧ Readable style a)
    {s rest : Stream}
    (hs : Spells (Printer.commas (Expr.printAll style es) ++ [.ofMark .closeParen]) s rest) :
    ∃ args, Expr.unlocatedAll args = Expr.unlocatedAll es ∧
      ∀ n, 16 * s.length + 12 ≤ n → arguments n s = .ok (args, rest) := by
  rw [Expr.printAll_eq_map] at hs
  simp only [Expr.unlocatedAll_eq_map]
  cases es with
  | nil =>
    obtain ⟨c, rfl⟩ := spells_singleton.1 hs
    refine ⟨[], rfl, fun n hn => ?_⟩
    obtain ⟨m, rfl⟩ : ∃ m, n = m + 1 := ⟨n - 1, by omega⟩
    rfl
  | cons e es =>
    obtain ⟨args, hargs, hl⟩ := reads_argumentList h hs
    refine ⟨args, hargs, fun n hn => ?_⟩
    obtain ⟨m, rfl⟩ : ∃ m, n = m + 1 := ⟨n - 1, by omega⟩
    have hbegins : Begins .disjunction s := by
      obtain ⟨s', hs, -⟩ := spells_append.1 hs
      obtain ⟨s'', hs⟩ := hs.commas_head
      exact begins_expression (h e (by simp)).1 hs
    rw [arguments, hbegins.startsWithMark_eq rfl]
    exact hl m (by omega)

/-! ## Expressions -/

/-- Everything is admitted behind the tightest level. -/
theorem admits_access (rest : Stream) : Admits .access rest := fun _ _ k _ => Level.strength_le k

/-- One turn of a loop: an operand and what follows it are an operand again. -/
theorem Opens.turn {level : Level} {e f : Expr} {s mid rest : Stream} (h : Opens level e s mid)
    (make : Expr → Expr) (hf : ∀ e', e'.unlocated = e.unlocated → (make e').unlocated = f.unlocated)
    (hturn : ∀ e' r, Loop level (make e') rest r → Loop level e' mid r) : Opens level f s rest := by
  obtain ⟨e', he, hr⟩ := h
  exact ⟨make e', hf e' he, fun r hl => hr r (hturn e' r hl)⟩

/-- The loop of an operator's level is the loop of binary operators. -/
theorem loop_operator {op : BinaryOp} {e : Expr} {s : Stream} {r : Expr × Stream} :
    Loop op.level e s r ↔ ∀ n, 16 * s.length + 1 ≤ n → operations n op.level e s = .ok r := by
  cases op <;> rfl

/-- An operator is admitted behind an operand of its own level. -/
theorem admits_operator (op : BinaryOp) (raw : Text) (p : Position) (s : Stream) :
    Admits op.level (.next ⟨op.lexeme, raw, p⟩ s) := by
  rintro _ ⟨⟩ k hk
  rw [continues_of_operator? (operator?_lexeme op)] at hk
  cases hk
  exact Nat.le_refl _

/-- After a point any word is the name of a member. -/
theorem accesses_member (n : Nat) (e : Expr) (raw name : Text) (p q : Position) (rest : Stream) :
    accesses (n + 1) e (.next ⟨.mark .dot, raw, p⟩ (.next ⟨Lexer.ofWord name, name, q⟩ rest)) =
      accesses n (.member e name (some p)) rest := by
  rw [accesses.eq_def, Lexer.ofWord]
  cases Keyword.ofWord? name <;> rfl

/-- An access to a member is read back when its object is. -/
theorem opens_member {e : Expr} {name : Text} {l : Option Position} {s rest : Stream}
    (h : Readable style e) (hs : Spells ((Expr.member e name l).print style) s rest) :
    Opens .access (.member e name l) s rest := by
  obtain ⟨mid, hs, d, s', rfl, hn⟩ := spells_append.1 hs
  obtain ⟨q, rfl⟩ := spells_singleton.1 hn
  refine (h.opens hs (admits_access _)).turn (.member · name (some d)) ?_ ?_
  · intro e' he
    rw [Expr.unlocated, he, Expr.unlocated]
  · intro e' r hl n hn
    rw [length, length] at hn
    obtain ⟨m, rfl⟩ : ∃ m, n = m + 1 := ⟨n - 1, by omega⟩
    rw [← hl m (by omega)]
    exact accesses_member m e' _ name d q rest

/-- An access by index is read back when its object and its key are. -/
theorem opens_index {e key : Expr} {l : Option Position} {s rest : Stream} (h : Readable style e)
    (hk : Readable style key) (hs : Spells ((Expr.index e key l).print style) s rest) :
    Opens .access (.index e key l) s rest := by
  obtain ⟨mid, hs, o, s', rfl, hkey⟩ := spells_append.1 hs
  obtain ⟨s'', hkey, hc⟩ := spells_append.1 hkey
  obtain ⟨c, rfl⟩ := spells_singleton.1 hc
  obtain ⟨key', heq, hr⟩ := hk.reads hkey rfl
  have hlen := hkey.length_eq
  rw [length] at hlen
  refine (h.opens hs (admits_access _)).turn (.index · key' (some o)) ?_ ?_
  · intro e' he
    rw [Expr.unlocated, he, heq, Expr.unlocated]
  · intro e' r hl n hn
    rw [length] at hn
    obtain ⟨m, rfl⟩ : ∃ m, n = m + 1 := ⟨n - 1, by omega⟩
    show (expression m .disjunction s' >>= _) = _
    rw [hr m (by rw [Level.strength]; omega)]
    exact hl m (by omega)

/-- A call is read back when its callee and its arguments are. -/
theorem opens_call {e : Expr} {args : List Expr} {l : Option Position} {s rest : Stream}
    (h : Readable style e) (ha : ∀ a ∈ args, a.Expressible ∧ Readable style a)
    (hs : Spells ((Expr.call e args l).print style) s rest) :
    Opens .access (.call e args l) s rest := by
  obtain ⟨mid, hs, o, s', rfl, hargs⟩ := spells_append.1 hs
  obtain ⟨args', heq, hr⟩ := reads_arguments ha hargs
  have hlen := hargs.length_eq
  refine (h.opens hs (admits_access _)).turn (fun e' => .call e' args' e'.loc) ?_ ?_
  · intro e' he
    rw [Expr.unlocated, he, heq, Expr.unlocated]
  · intro e' r hl n hn
    rw [length] at hn
    obtain ⟨m, rfl⟩ : ∃ m, n = m + 1 := ⟨n - 1, by omega⟩
    show (arguments m s' >>= _) = _
    rw [hr m (by omega)]
    exact hl m (by omega)

/-- A construction is read back when its arguments are. -/
theorem opens_new {name : Text} {args : List Expr} {l : Option Position} {s rest : Stream}
    (ha : ∀ a ∈ args, a.Expressible ∧ Readable style a)
    (hs : Spells ((Expr.new name args l).print style) s rest) :
    Opens .access (.new name args l) s rest := by
  obtain ⟨p, s₁, rfl, q, s₂, rfl, o, s₃, rfl, hargs⟩ := hs
  obtain ⟨args', heq, hr⟩ := reads_arguments ha hargs
  have hlen := hargs.length_eq
  rw [List.length_append, List.length_singleton] at hlen
  have hunlocated : (Expr.new name args' (some p)).unlocated =
      (Expr.new name args l).unlocated := by
    rw [Expr.unlocated, heq, Expr.unlocated]
  refine ReadsPrimary.opens (fun n hn => ?_) hunlocated (by simp only [length]; omega)
  simp only [length] at hn
  obtain ⟨m, rfl⟩ : ∃ m, n = m + 1 := ⟨n - 1, by omega⟩
  show (arguments m s₃ >>= _) = _
  rw [hr m (by omega)]
  rfl

/-- A choice is read back when its three parts are. -/
theorem opens_choice {c t f : Expr} {l : Option Position} {s rest : Stream} (hc : Readable style c)
    (ht : Readable style t) (hf : Readable style f)
    (hs : Spells ((Expr.choice c t f l).print style) s rest) :
    Opens .access (.choice c t f l) s rest := by
  obtain ⟨p, s₁, rfl, o, s₂, rfl, hs⟩ := hs
  obtain ⟨s₃, hs, hclose⟩ := spells_append.1 hs
  obtain ⟨q, rfl⟩ := spells_singleton.1 hclose
  obtain ⟨s₄, hcs, d₁, s₅, rfl, hs⟩ := spells_append.1 hs
  obtain ⟨s₆, hts, d₂, s₇, rfl, hfs⟩ := spells_append.1 hs
  obtain ⟨c', hc, hrc⟩ := hc.reads hcs rfl
  obtain ⟨t', ht, hrt⟩ := ht.reads hts rfl
  obtain ⟨f', hf, hrf⟩ := hf.reads hfs rfl
  have hlc := hcs.length_eq
  have hlt := hts.length_eq
  have hlf := hfs.length_eq
  rw [length] at hlc hlt hlf
  have hunlocated : (Expr.choice c' t' f' (some p)).unlocated =
      (Expr.choice c t f l).unlocated := by
    rw [Expr.unlocated, hc, ht, hf, Expr.unlocated]
  refine ReadsPrimary.opens (fun n hn => ?_) hunlocated (by simp only [length]; omega)
  simp only [length] at hn
  obtain ⟨m, rfl⟩ : ∃ m, n = m + 1 := ⟨n - 1, by omega⟩
  show (expression m .disjunction s₂ >>= _) = _
  rw [hrc m (by rw [Level.strength]; omega)]
  show (expression m .disjunction s₅ >>= _) = _
  rw [hrt m (by rw [Level.strength]; omega)]
  show (expression m .disjunction s₇ >>= _) = _
  rw [hrf m (by rw [Level.strength]; omega)]
  rfl

/-- A prefix operator has no loop: what it makes is complete. -/
theorem opens_unary {op : UnaryOp} {e : Expr} {l : Option Position} {s rest : Stream}
    (h : Readable style e) (hs : Spells ((Expr.unary op e l).print style) s rest)
    (ha : Admits op.level rest) :
    Opens op.level (.unary op e l) s rest := by
  obtain ⟨p, s', rfl, hs⟩ := hs
  obtain ⟨e', he, hr⟩ := h.opens hs ha
  refine ⟨.unary op e' (some p), by rw [Expr.unlocated, he, Expr.unlocated], fun r hl n hn => ?_⟩
  rw [length] at hn
  obtain ⟨m, rfl⟩ : ∃ m, n = m + 1 := ⟨n - 1, by omega⟩
  cases op with
  | not =>
    cases hl
    have hread : expression m .negation s' = .ok (e', rest) := hr _ rfl m (by omega)
    show (expression m .negation s' >>= _) = _
    rw [hread]
    rfl
  | neg =>
    cases hl
    have hread : expression m .sign s' = .ok (e', rest) := hr _ rfl m (by omega)
    show (expression m .sign s' >>= _) = _
    rw [hread]
    rfl

/-- A binary operation is read back when its operands are: the left one goes through the loop, the
right one is tighter. -/
theorem opens_binary {op : BinaryOp} {left right : Expr} {l : Option Position} {s rest : Stream}
    (hl : Readable style left) (hr : Readable style right)
    (hs : Spells ((Expr.binary op left right l).print style) s rest) (ha : Admits op.level rest) :
    Opens op.level (.binary op left right l) s rest := by
  obtain ⟨mid, hleft, p, s', rfl, hright⟩ := spells_append.1 hs
  have hclosed := ha.closes_tighter (BinaryOp.level_ne_access op)
  obtain ⟨right', heq, hr⟩ := (hr.opens hright hclosed.admits).reads hclosed
  have hlen := hright.length_eq
  refine (hl.opens hleft (admits_operator op _ p s')).turn (.binary op · right' (some p)) ?_ ?_
  · intro e' he
    rw [Expr.unlocated, he, heq, Expr.unlocated]
  · intro e' r hloop
    rw [loop_operator] at hloop ⊢
    intro n hn
    rw [length] at hn
    obtain ⟨m, rfl⟩ : ∃ m, n = m + 1 := ⟨n - 1, by omega⟩
    have hop : op.level.operator? (Piece.ofLexeme op.lexeme).lexeme = some op := operator?_lexeme op
    rw [operations]
    simp only [hop]
    rw [hr m (by omega)]
    exact hloop m (by omega)

/-- **Written expressions are read back**, at every level and up to positions. -/
theorem readable {e : Expr} (he : e.Expressible) : Readable style e := by
  induction he with
  | @number t l ht =>
    refine readable_of_own (.number ht) fun s rest hs _ =>
      opens_atom (.number _) rfl (fun _ => ?_) hs
    rw [Expr.unlocated, style.toFloat_digits t ht, Expr.unlocated]
  | string =>
    exact readable_of_own .string fun s rest hs _ => opens_atom (.string _) rfl (fun _ => rfl) hs
  | @boolean b l =>
    refine readable_of_own .boolean fun s rest hs _ => opens_atom (.boolean b) ?_ (fun _ => rfl) hs
    cases b <;> rfl
  | date =>
    exact readable_of_own .date fun s rest hs _ => opens_atom (.date _) rfl (fun _ => rfl) hs
  | undefined =>
    exact readable_of_own .undefined fun s rest hs _ => opens_atom .undefined rfl (fun _ => rfl) hs
  | null => exact readable_of_own .null fun s rest hs _ => opens_atom .null rfl (fun _ => rfl) hs
  | ident hn =>
    exact readable_of_own (.ident hn) fun s rest hs _ => opens_atom (.ident _) rfl (fun _ => rfl) hs
  | member he hn ih => exact readable_of_own (.member he hn) fun s rest hs _ => opens_member ih hs
  | index he hk ihe ihk =>
    exact readable_of_own (.index he hk) fun s rest hs _ => opens_index ihe ihk hs
  | call he ha ihe iha =>
    exact readable_of_own (.call he ha) fun s rest hs _ =>
      opens_call ihe (fun a hm => ⟨ha a hm, iha a hm⟩) hs
  | new hn ha iha =>
    exact readable_of_own (.new hn ha) fun s rest hs _ =>
      opens_new (fun a hm => ⟨ha a hm, iha a hm⟩) hs
  | binary hl hr ihl ihr =>
    exact readable_of_own (.binary hl hr) fun s rest hs ha => opens_binary ihl ihr hs ha
  | unary he ih => exact readable_of_own (.unary he) fun s rest hs ha => opens_unary ih hs ha
  | choice hc ht hf ihc iht ihf =>
    exact readable_of_own (.choice hc ht hf) fun s rest hs _ => opens_choice ihc iht ihf hs

end Parser

end Gradual
