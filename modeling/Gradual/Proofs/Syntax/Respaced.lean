import Gradual.Proofs.Syntax.Respelling

/-!
# Other spacing

A token is read in the same way wherever it stands, as long as a blank, a line feed or the end
follows it: nothing that it is told by lies outside of it. So the gaps of a source, with all their
comments and directives, can be replaced by blanks and line feeds, and the tokens stay as they are,
apart from their positions. In particular the written forms of the tokens say all that a parse
depends on.

Main statement: `Lexer.tokenize_respaced`.
-/

namespace Gradual

namespace Lexer

open Text

/-! ## Blanks and line feeds -/

/-- Whether a text consists of blanks and line feeds. -/
def isSpacing (t : Text) : Bool := t.all fun c => isBlank c || c == newline

theorem isSpacing_cons {c : CodeUnit} {t : Text} (h : isSpacing (c :: t) = true) :
    (isBlank c = true ∨ c = newline) ∧ isSpacing t = true := by
  unfold isSpacing at h ⊢
  rw [List.all_cons, Bool.and_eq_true, Bool.or_eq_true, beq_iff_eq] at h
  exact h

/-- Blanks and line feeds are read without a token. -/
theorem reads_spacing {g : Text} (h : isSpacing g = true) (rest : Text) (b : Bool) (p : Position) :
    ∃ b', Reads rest b p g [] b' := by
  induction g generalizing b p with
  | nil => exact ⟨b, .nil⟩
  | cons c g ih =>
    obtain ⟨hc, hg⟩ := isSpacing_cons h
    rcases hc with hc | rfl
    · obtain ⟨b', hr⟩ := ih hg b (p.advance c)
      have hgap : gap? b (c :: ([] ++ (g ++ rest))) = some 1 := if_pos hc
      exact ⟨b', .gap hgap hr⟩
    · obtain ⟨b', hr⟩ := ih hg true (p.advance newline)
      exact ⟨b', .newline hr⟩

/-- The units of spacing. -/
def spacingUnits : List CodeUnit := [0x20, 0x09, 0x0D, 0xFEFF, newline]

theorem mem_spacingUnits {c : CodeUnit} (h : isBlank c = true ∨ c = newline) :
    c ∈ spacingUnits := by
  unfold spacingUnits
  rcases h with h | rfl
  · simp only [isBlank, isIndent, Bool.or_eq_true, beq_iff_eq] at h
    rcases h with ((rfl | rfl) | rfl) | rfl <;> simp
  · simp

/-- What follows a token is nothing, or starts with a blank or a line feed. -/
def Spaced (y : Text) : Prop := ∀ c ∈ y.head?, isBlank c = true ∨ c = newline

/-- Spacing in front of a text leaves it spaced. -/
theorem spaced_of_isSpacing {g y : Text} (h : isSpacing g = true) (hy : g = [] → Spaced y) :
    Spaced (g ++ y) := by
  cases g with
  | nil => exact hy rfl
  | cons c g =>
    intro d hd
    cases hd
    exact (isSpacing_cons h).1

/-- No lexeme goes on with a blank or a line feed. -/
theorem Spaced.calm {y' : Text} (h : Spaced y') (y : Text) : Calm y y' := by
  cases y' with
  | nil => exact ⟨fun p _ hp => absurd hp (by simp), by simp⟩
  | cons c y' =>
    have hc := mem_spacingUnits (h c rfl)
    constructor
    · intro p hp hpc
      have hnone : (spacingUnits.all fun c => extending.all fun p => !p c) = true := by
        decide +kernel
      have hnot := List.all_eq_true.1 (List.all_eq_true.1 hnone c hc) p hp
      simp only [List.head?_cons, Option.any_some] at hpc
      simp [hpc] at hnot
    · have hnone : (spacingUnits.all fun c => c != point) = true := by decide
      have hne := List.all_eq_true.1 hnone c hc
      simpa using hne

theorem Spaced.head?_ne_slash {y : Text} (h : Spaced y) : y.head? ≠ some slash := by
  intro hy
  rcases h slash hy with hs | hs
  · exact absurd hs (by decide)
  · exact absurd hs (by decide)

/-! ## Tokens that stand alone -/

/-- A unit that starts directives starts no lexeme. -/
theorem not_isDirective_of_lexeme {c : CodeUnit} {rest : Text} {r : Lexeme × Nat}
    (h : lexeme c rest = .ok r) : isDirective c = false := by
  rw [Bool.eq_false_iff]
  intro hc
  unfold isDirective at hc
  rw [Bool.or_eq_true, beq_iff_eq, beq_iff_eq] at hc
  rcases hc with rfl | rfl
  · cases h
  · cases h

/-- The token is read from its written form wherever it stands, if spacing or nothing follows. -/
def StandsAlone (t : Token) : Prop :=
  ∃ c r, t.raw = c :: r ∧ c ≠ newline ∧
    ∀ (b : Bool) (y : Text), Spaced y →
      gap? b (c :: (r ++ y)) = none ∧ lexeme c (r ++ y) = .ok (t.lexeme, r.length + 1)

/-- What a token is told by lies inside of it. -/
theorem standsAlone_of_lexeme {b : Bool} {c : CodeUnit} {r y : Text} {t : Token}
    (hraw : t.raw = c :: r) (hc : c ≠ newline) (hgap : gap? b (c :: (r ++ y)) = none)
    (hl : lexeme c (r ++ y) = .ok (t.lexeme, r.length + 1)) : StandsAlone t := by
  refine ⟨c, r, hraw, hc, ?_⟩
  intro b' y' hy'
  obtain ⟨hblank, hslash, -⟩ := gap?_eq_none_iff.1 hgap
  refine ⟨gap?_eq_none_iff.2 ⟨hblank, ?_, ?_⟩, lexeme_follow (hy'.calm y) hl (Nat.le_refl _)⟩
  · -- A second slash would stand in the token or directly behind it, where spacing is.
    cases r with
    | nil => exact fun h => hy'.head?_ne_slash h.2
    | cons d r => exact hslash
  · rw [not_isDirective_of_lexeme hl]
    simp

/-- Tokens that are read from a text can stand alone. -/
theorem Reads.standsAlone {rest x : Text} {b b' : Bool} {p : Position} {ts : List Token}
    (h : Reads rest b p x ts b') : ∀ t ∈ ts, StandsAlone t := by
  induction h with
  | nil => simp
  | newline _ ih => exact ih
  | gap _ _ ih => exact ih
  | token hc hgap hl _ ih => exact List.forall_mem_cons.2 ⟨standsAlone_of_lexeme rfl hc hgap hl, ih⟩

/-- Tokens of a source can stand alone. -/
theorem standsAlone_of_tokenize {source : Text} {s : Stream} (h : tokenize source = .ok s) :
    ∀ t ∈ s.tokens, StandsAlone t := by
  obtain ⟨b', hr, -⟩ := reads_of_scan h
  exact hr.standsAlone

/-! ## New gaps -/

/-- Whether all gaps consist of blanks and line feeds, and none but the first is empty. -/
def areSpaced (chunks : List (Text × Token)) : Bool :=
  (chunks.all fun chunk => isSpacing chunk.1) && chunks.tail.all fun chunk => !chunk.1.isEmpty

/-- Chunks are spaced when all gaps are spacing and none behind the first is empty. -/
theorem areSpaced_iff {chunks : List (Text × Token)} :
    areSpaced chunks = true ↔
      (∀ chunk ∈ chunks, isSpacing chunk.1 = true) ∧ ∀ chunk ∈ chunks.tail, chunk.1 ≠ [] := by
  unfold areSpaced
  rw [Bool.and_eq_true, List.all_eq_true, List.all_eq_true]
  simp only [Bool.not_eq_true', List.isEmpty_eq_false_iff]

/-- Behind each token comes the gap of the next one, or the last gap. -/
theorem spaced_written {chunks : List (Text × Token)} {last : Text}
    (h : ∀ chunk ∈ chunks, isSpacing chunk.1 = true) (hne : ∀ chunk ∈ chunks, chunk.1 ≠ [])
    (hlast : isSpacing last = true) : Spaced (written chunks ++ last) := by
  cases chunks with
  | nil =>
    have hspaced := spaced_of_isSpacing (y := []) hlast fun _ c hc => by cases hc
    rw [List.append_nil] at hspaced
    exact hspaced
  | cons chunk chunks =>
    obtain ⟨g, t⟩ := chunk
    rw [written_cons, List.append_assoc]
    exact spaced_of_isSpacing (h (g, t) List.mem_cons_self) fun hg =>
      absurd hg (hne (g, t) List.mem_cons_self)

/-- Tokens that stand alone are read behind new gaps. -/
theorem reads_written {chunks : List (Text × Token)} {last : Text}
    (halone : ∀ chunk ∈ chunks, StandsAlone chunk.2) (hspaced : areSpaced chunks = true)
    (hlast : isSpacing last = true) (b : Bool) (p : Position) :
    ∃ ts b', ts.map Token.piece = (chunks.map Prod.snd).map Token.piece ∧
      Reads last b p (written chunks) ts b' := by
  induction chunks generalizing b p with
  | nil => exact ⟨[], b, rfl, .nil⟩
  | cons chunk chunks ih =>
    obtain ⟨g, t⟩ := chunk
    obtain ⟨hspacing, hne⟩ := areSpaced_iff.1 hspaced
    rw [List.forall_mem_cons] at halone hspacing
    obtain ⟨c, r, hraw, hc, htoken⟩ := halone.1
    obtain ⟨b₁, hg⟩ := reads_spacing hspacing.1 ((c :: (r ++ written chunks)) ++ last) b p
    obtain ⟨hgap, hl⟩ := htoken b₁ _ (spaced_written hspacing.2 hne hlast)
    obtain ⟨ts, b', hts, hr⟩ := ih halone.2
      (areSpaced_iff.2 ⟨hspacing.2, fun chunk h => hne chunk (List.mem_of_mem_tail h)⟩) false
        ((p.after g).after (c :: r))
    refine ⟨⟨t.lexeme, c :: r, p.after g⟩ :: ts, b', ?_, ?_⟩
    · rw [List.map_cons, hts, Token.piece, ← hraw]
      rfl
    · rw [written_cons, hraw]
      exact hg.append (.token hc hgap hl hr)

/-- New gaps leave the tokens as they are. -/
theorem tokenize_written {source : Text} {s : Stream} {chunks : List (Text × Token)}
    (h : tokenize source = .ok s) (hchunks : chunks.map Prod.snd = s.tokens)
    (hspaced : areSpaced chunks = true) {last : Text} (hlast : isSpacing last = true) :
    ∃ s', tokenize (written chunks ++ last) = .ok s' ∧
      s'.tokens.map Token.piece = s.tokens.map Token.piece := by
  have halone : ∀ chunk ∈ chunks, StandsAlone chunk.2 := by
    intro chunk hchunk
    apply standsAlone_of_tokenize h
    rw [← hchunks]
    exact List.mem_map_of_mem hchunk
  obtain ⟨ts, b', hts, hr⟩ := reads_written halone hspaced hlast true .start
  obtain ⟨b'', hend⟩ := reads_spacing hlast [] b' (Position.start.after (written chunks))
  have hwhole := hr.scan_eq
  have hfinish := hend.scan_eq
  rw [List.append_nil] at hfinish
  rw [hfinish] at hwhole
  refine ⟨_, hwhole, ?_⟩
  rw [Stream.tokens_prepend, Stream.prepend_nil, Stream.tokens, List.append_nil, hts, hchunks]

/-- Tokens that are written alike are alike. -/
theorem pieces_of_raws {source source' : Text} {s s' : Stream} (h : tokenize source = .ok s)
    (h' : tokenize source' = .ok s') (hraws : s'.tokens.map Token.raw = s.tokens.map Token.raw) :
    s'.tokens.map Token.piece = s.tokens.map Token.piece := by
  -- Both are read from their written forms with a line feed in front of each.
  have hread : ∀ {source : Text} {s : Stream}, tokenize source = .ok s →
      ∃ u, tokenize ((s.tokens.map Token.raw).flatMap fun raw => [newline] ++ raw) = .ok u ∧
        u.tokens.map Token.piece = s.tokens.map Token.piece := by
    intro source s h
    have hspaced : areSpaced (s.tokens.map fun t => ([newline], t)) = true := by
      refine areSpaced_iff.2 ⟨?_, ?_⟩
      · intro chunk hchunk
        obtain ⟨t, -, rfl⟩ := List.mem_map.1 hchunk
        rfl
      · intro chunk hchunk
        obtain ⟨t, -, rfl⟩ := List.mem_map.1 (List.mem_of_mem_tail hchunk)
        simp
    have hchunks : (s.tokens.map fun t => ([newline], t)).map Prod.snd = s.tokens := by
      rw [List.map_map]
      exact List.map_id _
    obtain ⟨u, hu, hpieces⟩ :=
      tokenize_written h hchunks hspaced (show isSpacing [] = true from rfl)
    refine ⟨u, ?_, hpieces⟩
    rw [← hu, List.append_nil, written, List.flatMap_map, List.flatMap_map]
  obtain ⟨u, hu, hpieces⟩ := hread h
  obtain ⟨u', hu', hpieces'⟩ := hread h'
  rw [hraws, hu] at hu'
  cases hu'
  rw [← hpieces, ← hpieces']

end Lexer

/-! ## Trees -/

/-- A stream with the same written tokens has them at its own positions. -/
theorem Stream.follows_of_pieces {s s' : Stream}
    (h : s'.tokens.map Token.piece = s.tokens.map Token.piece) {g : Guise} (i : Nat)
    (hp : ∀ j, g.move ⟨i + j, 0⟩ = s'.positionAt j) : g.Follows (numbered i s) s' := by
  induction s generalizing s' i with
  | finish p =>
    cases s' with
    | finish p' =>
      rw [numbered, show Stream.finish p' = Stream.finish (g.move ⟨i, 0⟩) from
        congrArg _ (hp 0).symm]
      exact .finish
    | next t' s' => cases h
  | next t s ih =>
    cases s' with
    | finish p' => cases h
    | next t' s' =>
      obtain ⟨ht, hs⟩ := List.cons.inj h
      obtain ⟨l, raw, q⟩ := t
      obtain ⟨l', raw', q'⟩ := t'
      cases ht
      rw [numbered, show q' = g.move ⟨i, 0⟩ from (hp 0).symm]
      refine .next rfl (fun _ word hw => ?_) (ih hs (i + 1) fun j => ?_)
      · rw [raw?_of_pieces hs, ← raw?_numbered (i + 1)]
        exact hw
      · rw [Nat.add_assoc, Nat.add_comm 1 j]
        exact hp (j + 1)

/-- The same written tokens give the same tree apart from positions, or the same fault. -/
theorem Parser.program_of_pieces {s s' : Stream}
    (h : s'.tokens.map Token.piece = s.tokens.map Token.piece) :
    (∃ p p', program s = .ok p ∧ program s' = .ok p' ∧ p'.unlocated = p.unlocated) ∨
      ∃ e e', program s = .error e ∧ program s' = .error e' ∧ e'.fault = e.fault := by
  -- Both runs are compared with the one on the numbered tokens.
  have hcases : ∀ u : Stream, u.tokens.map Token.piece = s.tokens.map Token.piece → _ := fun u hu =>
    Guise.program_cases (Stream.follows_of_pieces hu
      (g := ⟨fun p => u.positionAt p.line, id, false⟩) 0
      fun j => by rw [Nat.zero_add]) rfl
  rcases hcases s rfl with ⟨p, hp, hs⟩ | ⟨e, e₁, he, hs, -, hfault⟩
  · rcases hcases s' h with ⟨q, hq, hs'⟩ | ⟨e, -, he, -⟩
    · rw [hp] at hq
      cases hq
      refine .inl ⟨_, _, hs, hs', ?_⟩
      unfold Program.unlocated
      rw [← Stmt.unlocatedAll_eq_map, ← Stmt.unlocatedAll_eq_map, Stmt.unlocatedAll_relocatedAll,
        Stmt.unlocatedAll_relocatedAll]
    · rw [hp] at he
      cases he
  · rcases hcases s' h with ⟨q, hq, -⟩ | ⟨e', e₂, he', hs', -, hfault'⟩
    · rw [he] at hq
      cases hq
    · rw [he] at he'
      cases he'
      change e₁.fault.viewed id = e.fault.viewed id at hfault
      change e₂.fault.viewed id = e.fault.viewed id at hfault'
      rw [SyntaxFault.viewed_id, SyntaxFault.viewed_id] at hfault hfault'
      exact .inr ⟨e₁, e₂, hs, hs', hfault'.trans hfault.symm⟩

namespace Lexer

/-- **Tokens survive re-spacing.** The tokens of a source stay as they are, in kind, text and
written form, when all that stands between them is replaced by blanks and line feeds; a gap must
remain between each two of them, and there may be one in front of the first and behind the last. And
whatever their layout and comments, sources whose tokens are written alike have the same tree apart
from positions, or all have none, for the same reason. -/
theorem tokenize_respaced {source : Text} {s : Stream} (h : tokenize source = .ok s) :
    (∀ (chunks : List (Text × Token)) (last : Text), chunks.map Prod.snd = s.tokens →
      areSpaced chunks = true → isSpacing last = true →
      ∃ s', tokenize (written chunks ++ last) = .ok s' ∧
        s'.tokens.map Token.piece = s.tokens.map Token.piece) ∧
    ∀ (file source' : Text) (s' : Stream), tokenize source' = .ok s' →
      s'.tokens.map Token.raw = s.tokens.map Token.raw →
      (∃ p p', Program.parse file source = .ok p ∧ Program.parse file source' = .ok p' ∧
        p'.unlocated = p.unlocated) ∨
      ∃ d d', Program.parse file source = .error d ∧ Program.parse file source' = .error d' ∧
        d'.code = d.code ∧ d'.message = d.message := by
  refine ⟨fun chunks last hchunks hspaced hlast => tokenize_written h hchunks hspaced hlast, ?_⟩
  intro file source' s' h' hraws
  rw [Program.parse_of_tokenize h, Program.parse_of_tokenize h']
  rcases Parser.program_of_pieces (pieces_of_raws h h' hraws) with
    ⟨p, p', hp, hp', htree⟩ | ⟨e, e', he, he', hfault⟩
  · rw [hp, hp']
    exact .inl ⟨p, p', rfl, rfl, htree⟩
  · rw [he, he']
    refine .inr ⟨e.toDiagnostic file, e'.toDiagnostic file, rfl, rfl, ?_, ?_⟩
    · exact congrArg SyntaxFault.code hfault
    · exact congrArg SyntaxFault.message hfault

set_option maxRecDepth 10000 in
/-- A directive and a comment go and every token gets a gap of its own, also the string on two
lines; and a comment comes in between other tokens. -/
theorem tokenize_respaced_string :
    let source : Text :=
      [0x26, 0x41, 0x0A, 0x78, 0x3D, 0x22, 0x61, 0x0A, 0x7C, 0x22, 0x2B, 0x31, 0x2F, 0x2F, 0x63]
    let source' : Text := [0x78, 0x3D, 0x2F, 0x2F, 0x0A, 0x22, 0x61, 0x0A, 0x7C, 0x22, 0x2B, 0x31]
    let string : Lexeme := .string [0x61, 0x0A]
    let raw : Text := [0x22, 0x61, 0x0A, 0x7C, 0x22]
    let s : Stream := .prepend
      [⟨.identifier [0x78], [0x78], ⟨2, 1⟩⟩, ⟨.mark .equal, [0x3D], ⟨2, 2⟩⟩,
      ⟨string, raw, ⟨2, 3⟩⟩, ⟨.mark .plus, [0x2B], ⟨3, 3⟩⟩,
      ⟨.number [0x31], [0x31], ⟨3, 4⟩⟩] (.finish ⟨3, 8⟩)
    let s' : Stream := .prepend
      [⟨.identifier [0x78], [0x78], ⟨1, 1⟩⟩, ⟨.mark .equal, [0x3D], ⟨1, 2⟩⟩,
      ⟨string, raw, ⟨2, 1⟩⟩, ⟨.mark .plus, [0x2B], ⟨3, 3⟩⟩,
      ⟨.number [0x31], [0x31], ⟨3, 4⟩⟩] (.finish ⟨3, 5⟩)
    let chunks := List.zip [[], [0x0A], [0xFEFF], [0x09], [0x0D, 0x0A]] s.tokens
    tokenize source = .ok s ∧ tokenize source' = .ok s' ∧
      s'.tokens.map Token.raw = s.tokens.map Token.raw ∧
      chunks.map Prod.snd = s.tokens ∧ areSpaced chunks = true ∧ isSpacing [0x20] = true ∧
      written chunks ++ [0x20] =
        [0x78, 0x0A, 0x3D, 0xFEFF, 0x22, 0x61, 0x0A, 0x7C, 0x22, 0x09, 0x2B, 0x0D, 0x0A,
          0x31, 0x20] ∧
      (∃ s', tokenize (written chunks ++ [0x20]) = .ok s' ∧
        s'.tokens.map Token.piece = s.tokens.map Token.piece) ∧
      ∃ p p', Program.parse [] source = .ok p ∧ Program.parse [] source' = .ok p' ∧
        p'.unlocated = p.unlocated := by
  intro source source' string raw s s' chunks
  have hs : tokenize source = .ok s := by rfl
  have hs' : tokenize source' = .ok s' := by rfl
  refine ⟨hs, hs', rfl, rfl, rfl, rfl, rfl, (tokenize_respaced hs).1 chunks [0x20] rfl rfl rfl,
    ((tokenize_respaced hs).2 [] source' s' hs' rfl).resolve_right ?_⟩
  -- The module can be read, so there is no fault.
  rintro ⟨d, -, herror, -⟩
  have hread : (Program.parse [] source).isOk = true := by decide +kernel
  rw [herror] at hread
  cases hread

end Lexer

end Gradual
