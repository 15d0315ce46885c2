import Gradual.Proofs.Syntax.Layout
import Gradual.Proofs.Syntax.TwoRuns

/-!
# Other spellings

A parse depends on the kinds and texts of the tokens alone, and on how the names of members are
written. So a keyword can be written in the other language or in other letters: the tree stays the
same, or the fault and the token at which it is found. Main statement: `Parser.program_of_alike`.

For the token of a fault, the tokens of a stream are numbered in the place of their positions. The
parser takes the same steps on the numbered stream, and it reports the number of the token.
-/

namespace Gradual

/-! ## Kinds and texts -/

/-- A mark is found under its own text. -/
theorem Mark.find?_text (m : Mark) : (Mark.all.find? fun n => n.text == m.text) = some m := by
  cases m <;> decide

/-- No two marks are written alike. -/
theorem Mark.eq_of_text {m m' : Mark} (h : m.text = m'.text) : m = m' := by
  have hm := Mark.find?_text m
  rw [h, Mark.find?_text] at hm
  exact (Option.some.inj hm).symm

/-- A keyword is found under its own name. -/
theorem Keyword.find?_name (k : Keyword) :
    (Keyword.all.find? fun n => n.name == k.name) = some k := by
  cases k <;> decide

/-- No two keywords have one name. -/
theorem Keyword.eq_of_name {k k' : Keyword} (h : k.name = k'.name) : k = k' := by
  have hk := Keyword.find?_name k
  rw [h, Keyword.find?_name] at hk
  exact (Option.some.inj hk).symm

/-- Kind and text determine a lexeme. -/
theorem Lexeme.eq_of_kind_of_text {l l' : Lexeme} (hk : l.kind = l'.kind) (ht : l.text = l'.text) :
    l = l' := by
  cases l with
  | identifier name =>
    cases l' with
    | identifier name' => exact congrArg identifier ht
    | _ => exact absurd hk (by simp only [kind]; decide)
  | keyword k =>
    cases l' with
    | keyword k' => exact congrArg keyword (Keyword.eq_of_name ht)
    | _ => exact absurd hk (by simp only [kind]; decide)
  | number digits =>
    cases l' with
    | number digits' => exact congrArg number ht
    | _ => exact absurd hk (by simp only [kind]; decide)
  | string value =>
    cases l' with
    | string value' => exact congrArg string ht
    | _ => exact absurd hk (by simp only [kind]; decide)
  | date value =>
    cases l' with
    | date value' => exact congrArg date ht
    | _ => exact absurd hk (by simp only [kind]; decide)
  | mark m =>
    cases l' with
    | mark m' => exact congrArg mark (Mark.eq_of_text ht)
    | _ => exact absurd hk (by simp only [kind]; decide)

namespace Stream

/-! ## Alike streams -/

/-- The tokens of both streams agree in kind and text, and the tokens behind dots also in how they
are written. -/
inductive Alike : Stream → Stream → Prop where
  | finish {p p' : Position} : Alike (.finish p) (.finish p')
  | next {t t' : Token} {s s' : Stream} :
      t'.lexeme.kind = t.lexeme.kind → t'.lexeme.text = t.lexeme.text →
      (t.lexeme = .mark .dot → s'.raw? = s.raw?) → Alike s s' → Alike (.next t s) (.next t' s')

theorem Alike.refl (s : Stream) : Alike s s := by
  induction s with
  | finish p => exact .finish
  | next t s ih => exact .next rfl rfl (fun _ => rfl) ih

/-- Streams that are alike are equally long. -/
theorem Alike.length_eq {s s' : Stream} (h : Alike s s') : s'.length = s.length := by
  induction h with
  | finish => rfl
  | next _ _ _ _ ih => rw [length, length, ih]

/-- The position of a token, by its place in the stream; the end comes behind all tokens. -/
def positionAt : Stream → Nat → Position
  | finish p, _ => p
  | next t _, 0 => t.position
  | next _ rest, i + 1 => rest.positionAt i

/-- Behind the last token is the end. -/
theorem positionAt_min (s : Stream) (i : Nat) : s.positionAt (min i s.length) = s.positionAt i := by
  induction s generalizing i with
  | finish p => rfl
  | next t s ih =>
    cases i with
    | zero => rw [Nat.zero_min]
    | succ i => rw [length, Nat.succ_min_succ, positionAt, positionAt, ih]

/-- The stream with the numbers of its tokens, from the given one on, in the place of lines. -/
def numbered : Nat → Stream → Stream
  | i, finish _ => finish ⟨i, 0⟩
  | i, next t rest => next ⟨t.lexeme, t.raw, ⟨i, 0⟩⟩ (numbered (i + 1) rest)

/-- Numbering tokens does not change how the first one is written. -/
theorem raw?_numbered (i : Nat) (s : Stream) : (numbered i s).raw? = s.raw? := by
  cases s <;> rfl

/-- A stream like a given one has its tokens at its own positions. -/
theorem Alike.follows {s s' : Stream} (h : Alike s s') {g : Guise} (hv : ∀ x y, g.view x = g.view y)
    (i : Nat) (hp : ∀ j, g.move ⟨i + j, 0⟩ = s'.positionAt j) : g.Follows (numbered i s) s' := by
  induction h generalizing i with
  | @finish p p' =>
    have hend := hp 0
    rw [Nat.add_zero] at hend
    rw [numbered, show Stream.finish p' = Stream.finish (g.move ⟨i, 0⟩) from congrArg _ hend.symm]
    exact .finish
  | @next t t' s s' hk ht hd h ih =>
    rcases t' with ⟨l', raw', q⟩
    obtain rfl := Lexeme.eq_of_kind_of_text hk ht
    have hq : q = g.move ⟨i, 0⟩ := (hp 0).symm
    rw [numbered, hq]
    refine .next (hv _ _) (fun hl word hw => ?_) (ih (i + 1) fun j => ?_)
    · rw [hd hl, ← raw?_numbered (i + 1)]
      exact hw
    · rw [Nat.add_assoc, Nat.add_comm 1 j]
      exact hp (j + 1)

end Stream

/-- How tokens are written does not change the code of a fault. -/
theorem SyntaxFault.code_viewed (view : Text → Text) (fault : SyntaxFault) :
    (fault.viewed view).code = fault.code := by
  rcases fault with _ | ⟨_, found⟩ | _ | _ | _ | _ | found | _ | _
  case expectedKeyword => cases found <;> rfl
  case noExpression => cases found <;> rfl
  all_goals rfl

/-- Streams like a given one have the same tree apart from positions, or the same fault at the same
token. -/
theorem Parser.program_alike (s : Stream) :
    (∃ q : Program, ∀ s', s.Alike s' → ∃ p, program s' = .ok p ∧ p.unlocated = q) ∨
      ∃ i ≤ s.length, ∃ code, ∀ s', s.Alike s' →
        ∃ e, program s' = .error e ∧ e.position = s'.positionAt i ∧ e.fault.code = code := by
  have hcases : ∀ s', s.Alike s' → _ := fun s' h =>
    Guise.program_cases (h.follows (g := ⟨fun p => s'.positionAt p.line, fun _ => [], false⟩)
      (fun _ _ => rfl) 0 fun j => by rw [Nat.zero_add]) rfl
  cases hs : program (Stream.numbered 0 s) with
  | ok p =>
    refine .inl ⟨p.unlocated, fun s' h => ?_⟩
    rcases hcases s' h with ⟨p', hp, hp'⟩ | ⟨e, e', he, -⟩
    · rw [hs] at hp
      cases hp
      refine ⟨_, hp', ?_⟩
      unfold Program.unlocated
      rw [← Stmt.unlocatedAll_eq_map, ← Stmt.unlocatedAll_eq_map, Stmt.unlocatedAll_relocatedAll]
    · rw [hs] at he
      cases he
  | error e =>
    refine .inr ⟨min e.position.line s.length, Nat.min_le_right _ _, e.fault.code, fun s' h => ?_⟩
    rcases hcases s' h with ⟨p, hp, -⟩ | ⟨e₁, e', he, he', hpos, hfault⟩
    · rw [hs] at hp
      cases hp
    · rw [hs] at he
      cases he
      refine ⟨e', he', ?_, ?_⟩
      · rw [← h.length_eq, Stream.positionAt_min, hpos]
      · rw [← SyntaxFault.code_viewed fun _ => [], hfault, SyntaxFault.code_viewed]

/-! ## Words in a source -/

namespace Position

/-- Every unit leads further: to a later line, or to a later column of the same line. -/
theorem after_ne {w : Text} (h : w ≠ []) (p : Position) : p.after w ≠ p := by
  have further : ∀ (w : Text) (p : Position),
      p.line < (p.after w).line ∨ p.line = (p.after w).line ∧
        p.column + w.length = (p.after w).column := by
    intro w
    induction w with
    | nil => exact fun p => .inr ⟨rfl, rfl⟩
    | cons c w ih =>
      intro p
      have hw := ih (p.advance c)
      rw [after_cons]
      by_cases hc : (c == Text.newline) = true
      · have hp : p.advance c = ⟨p.line + 1, 1⟩ := if_pos hc
        rw [hp] at hw ⊢
        rcases hw with hw | ⟨hw, -⟩
        · exact .inl (Nat.lt_trans (Nat.lt_succ_self _) hw)
        · exact .inl (Nat.lt_of_lt_of_eq (Nat.lt_succ_self _) hw)
      · have hp : p.advance c = ⟨p.line, p.column + 1⟩ := if_neg hc
        rw [hp] at hw ⊢
        rw [List.length_cons, Nat.add_comm w.length, ← Nat.add_assoc]
        exact hw
  intro hp
  have hfurther := further w p
  rw [hp] at hfurther
  have hw := List.length_pos_iff.2 h
  omega

/-- The start of a source is known by the position behind it. -/
theorem eq_of_behind {x y x' y' : Text} (h : x ++ y = x' ++ y') (hp : behind x = behind x') :
    x = x' := by
  rw [← start_after, ← start_after] at hp
  rcases List.append_eq_append_iff.1 h with ⟨w, rfl, -⟩ | ⟨w, rfl, -⟩
  · by_cases hw : w = []
    · rw [hw, List.append_nil]
    · rw [after_append] at hp
      exact absurd hp.symm (after_ne hw _)
  · by_cases hw : w = []
    · rw [hw, List.append_nil]
    · rw [after_append] at hp
      exact absurd hp (after_ne hw _)

end Position

namespace Lexer

open Text

/-- A word starts with none of the units below the letters. -/
theorem toNat_of_isWordStart {c : CodeUnit} (h : isWordStart c = true) : 0x41 ≤ c.toNat := by
  unfold isWordStart at h
  rw [Bool.or_eq_true, beq_iff_eq] at h
  rcases h with h | rfl
  · unfold isLetter letterRanges inRanges at h
    split at h
    · simpa using h
    · omega
  · decide

/-- The start of a word is none of the units that no word starts with. -/
theorem beq_of_isWordStart {c d : CodeUnit} (h : isWordStart c = true)
    (hd : isWordStart d = false) : (c == d) = false := by
  rw [beq_eq_false_iff_ne]
  intro hcd
  rw [hcd, hd] at h
  cases h

/-- A word starts no gap. -/
theorem gap?_word (b : Bool) {c : CodeUnit} (h : isWordStart c = true) (rest : Text) :
    gap? b (c :: rest) = none := by
  have hblank : isBlank c = false := by
    unfold isBlank isIndent
    rw [beq_of_isWordStart h (by decide), beq_of_isWordStart h (by decide),
      beq_of_isWordStart h (by decide), beq_of_isWordStart h (by decide +kernel)]
    rfl
  have hdirective : isDirective c = false := by
    unfold isDirective
    rw [beq_of_isWordStart h (by decide), beq_of_isWordStart h (by decide)]
    rfl
  have hslash : (c == slash) = false := beq_of_isWordStart h (by decide)
  rw [gap?, hblank, hslash, hdirective, Bool.and_false]
  rfl

/-- A word up to where the text goes on with something else. -/
theorem lexeme_word {c : CodeUnit} {r y : Text} (h : IsWord (c :: r))
    (hy : ∀ d ∈ y.head?, isWordPart d = false) :
    lexeme c (r ++ y) = .ok (ofWord (c :: r), r.length + 1) := by
  have hend : y.takeWhile isWordPart = [] := by
    cases y with
    | nil => rfl
    | cons d y => rw [List.takeWhile_cons, hy d rfl, if_neg Bool.false_ne_true]
  have hword : (c :: (r ++ y)).takeWhile isWordPart = c :: r := by
    rw [List.takeWhile_cons, if_pos (isWordPart_of_isWordStart h.1),
      List.takeWhile_append_of_pos h.2, hend, List.append_nil]
  rw [lexeme, if_pos h.1, hword]
  rfl

/-- A keyword is a word up to where the text goes on with something else. -/
theorem word_of_lexeme {c : CodeUnit} {r y : Text} {k : Keyword}
    (h : lexeme c (r ++ y) = .ok (.keyword k, r.length + 1)) :
    isWordStart c = true ∧ ∀ d ∈ y.head?, isWordPart d = false := by
  unfold lexeme at h
  split at h
  · next hc =>
    obtain ⟨-, hn⟩ := Prod.mk.inj (Except.ok.inj h)
    exact ⟨hc, (of_length_takeWhile (x := c :: r) hn.symm).2⟩
  · split at h
    · cases h
    · split at h
      · split at h <;> cases h
      · split at h
        · split at h <;> cases h
        · split at h <;> cases h

/-- In the place of a word, another word goes on with nothing else. -/
theorem tame_word {c c' : CodeUnit} {y y' : Text} (h : isWordStart c = true)
    (h' : isWordStart c' = true) :
    Tame (c :: y) (c' :: y') where
  continuing := by
    intro f hf hc
    rw [List.head?_cons, Option.any_some] at hc ⊢
    unfold Lexer.continuing at hf
    simp only [List.mem_cons, List.not_mem_nil, or_false] at hf
    have hunit : ∀ d, isWordStart d = false → (c' == d) = true → (c == d) = true := by
      intro d hd hc
      rw [beq_of_isWordStart h' hd] at hc
      cases hc
    rcases hf with rfl | rfl | rfl | rfl | rfl | rfl | rfl
    · exact isWordPart_of_isWordStart h
    · -- A digit starts no word.
      unfold isDigit at hc
      rw [Bool.and_eq_true, decide_eq_true_eq, decide_eq_true_eq] at hc
      have hhigh := UInt16.le_iff_toNat_le.1 hc.2
      change c'.toNat ≤ 0x39 at hhigh
      have hlow := toNat_of_isWordStart h'
      omega
    · exact hunit doubleQuote (by decide) hc
    · exact hunit 0x3D (by decide) hc
    · exact hunit 0x3E (by decide) hc
    · exact hunit slash (by decide) hc
    · unfold inLine bne
      rw [beq_of_isWordStart h (by decide)]
      rfl
  point := by
    rw [List.head?_cons]
    intro hc
    have hpoint := beq_of_isWordStart (d := point) h' (by decide)
    rw [Option.some.inj hc, beq_self_eq_true] at hpoint
    cases hpoint

/-- The tokens of a piece do not depend on where it stands. -/
theorem Reads.moved {rest x : Text} {b b' : Bool} {p : Position} {ts : List Token}
    (h : Reads rest b p x ts b') (q : Position) :
    ∃ us, us.map Token.piece = ts.map Token.piece ∧ Reads rest b q x us b' := by
  induction h generalizing q with
  | nil => exact ⟨[], rfl, .nil⟩
  | newline _ ih =>
    obtain ⟨us, hus, hr⟩ := ih (q.advance Text.newline)
    exact ⟨us, hus, .newline hr⟩
  | @gap b b' p c g x ts hg _ ih =>
    obtain ⟨us, hus, hr⟩ := ih (q.after (c :: g))
    exact ⟨us, hus, .gap hg hr⟩
  | @token b b' p c r x l ts hc hg hl _ ih =>
    obtain ⟨us, hus, hr⟩ := ih (q.after (c :: r))
    refine ⟨⟨l, c :: r, q⟩ :: us, ?_, .token hc hg hl hr⟩
    rw [List.map_cons, List.map_cons, hus]
    rfl

/-- **Another spelling is the same keyword.** Where the text of a keyword is replaced by another
spelling of it, the other tokens stay as they are, apart from their positions. -/
theorem tokenize_respelled {before word word' after : Text} {s : Stream} {ts us : List Token}
    {t : Token} {k : Keyword} (h : tokenize (before ++ word ++ after) = .ok s)
    (hs : s.tokens = ts ++ t :: us) (hk : t.lexeme = .keyword k) (hraw : t.raw = word)
    (hp : t.position = .behind before) (hword : word'.IsWord)
    (hk' : Keyword.ofWord? word' = some k) :
    ∃ s' t' us', tokenize (before ++ word' ++ after) = .ok s' ∧ s'.tokens = ts ++ t' :: us' ∧
      t'.lexeme = .keyword k ∧ us'.map Token.piece = us.map Token.piece := by
  obtain ⟨b', hr, -⟩ := reads_of_scan h
  rw [List.take_zero, List.drop_zero, Position.after_nil, hs] at hr
  obtain ⟨x, x₂, b₁, hx, hts, htoken⟩ := hr.split
  obtain ⟨g, c, r, y, b₂, rfl, hg, -, -, hl, hraw', hp', hus⟩ := htoken.first
  rw [hk] at hl
  obtain ⟨hc, hy⟩ := word_of_lexeme hl
  rw [List.append_nil] at hy
  -- The keyword is found where it is said to be.
  obtain rfl : word = c :: r := hraw.symm.trans hraw'
  have hsource : before ++ ((c :: r) ++ after) = (x ++ g) ++ ((c :: r) ++ y) := by simpa using hx
  have hbefore : before = x ++ g := by
    refine Position.eq_of_behind hsource ?_
    rw [← hp, hp', ← Position.after_append, Position.start_after]
  subst hbefore
  obtain rfl : after = y := by simpa using hx
  cases word' with
  | nil => cases hword
  | cons c' r' =>
    have hfront : Reads (c :: (r ++ (after ++ []))) true .start (x ++ g) (ts ++ []) b₂ :=
      Reads.append (by simpa using hts) hg
    obtain ⟨us', hpieces, hus'⟩ := hus.moved ((Position.start.after (x ++ g)).after (c' :: r'))
    have hlexeme : lexeme c' (r' ++ (after ++ [])) = .ok (.keyword k, r'.length + 1) := by
      rw [lexeme_word hword (by simpa using hy), ofWord, hk']
    have hnewline : c' ≠ Text.newline :=
      beq_eq_false_iff_ne.1 (beq_of_isWordStart hword.1 (by decide))
    have hwhole := ((hfront.follow (tame_word hc hword.1)).append
      (.token hnewline (gap?_word _ hword.1 _) hlexeme hus')).scan_eq
    rw [List.append_nil, List.append_nil] at hwhole
    refine ⟨.prepend (ts ++ ⟨.keyword k, c' :: r', Position.start.after (x ++ g)⟩ :: us')
      (.finish (Position.start.after (x ++ g ++ c' :: (r' ++ after)))), _, us', ?_,
      by rw [Stream.tokens_prepend, Stream.tokens, List.append_nil], rfl, hpieces⟩
    rw [tokenize, List.append_assoc (x ++ g)]
    exact hwhole

end Lexer

namespace Stream

/-- How a stream starts is how its first token is written. -/
theorem raw?_eq_head? (s : Stream) : s.raw? = s.tokens.head?.map Token.raw := by
  cases s <;> rfl

/-- Streams of the same pieces start alike. -/
theorem raw?_of_pieces {s s' : Stream} (h : s'.tokens.map Token.piece = s.tokens.map Token.piece) :
    s'.raw? = s.raw? := by
  have hhead := congrArg (fun ps => ps.head?.map Piece.raw) h
  simp only [List.head?_map, Option.map_map] at hhead
  rw [raw?_eq_head?, raw?_eq_head?]
  exact hhead

namespace Alike

/-- Positions do not matter. -/
theorem of_pieces {s s' : Stream} (h : s'.tokens.map Token.piece = s.tokens.map Token.piece) :
    Alike s s' := by
  induction s generalizing s' with
  | finish p =>
    cases s' with
    | finish p' => exact .finish
    | next t' s' => cases h
  | next t s ih =>
    cases s' with
    | finish p' => cases h
    | next t' s' =>
      obtain ⟨ht, hs⟩ := List.cons.inj h
      have hl : t'.lexeme = t.lexeme := congrArg Piece.lexeme ht
      exact .next (by rw [hl]) (by rw [hl]) (fun _ => raw?_of_pieces hs) (ih hs)

/-- A token that does not stand behind a dot can be written in another way. -/
theorem of_respelled {s s' : Stream} {ts us us' : List Token} {t t' : Token}
    (hs : s.tokens = ts ++ t :: us) (hs' : s'.tokens = ts ++ t' :: us') (hl : t'.lexeme = t.lexeme)
    (hdot : ∀ d ∈ ts.getLast?, d.lexeme ≠ .mark .dot)
    (hus : us'.map Token.piece = us.map Token.piece) :
    Alike s s' := by
  induction ts generalizing s s' with
  | nil =>
    cases s with
    | finish p => cases hs
    | next e s =>
      cases s' with
      | finish p => cases hs'
      | next e' s' =>
        obtain ⟨rfl, rfl⟩ := List.cons.inj hs
        obtain ⟨rfl, rfl⟩ := List.cons.inj hs'
        exact .next (by rw [hl]) (by rw [hl]) (fun _ => raw?_of_pieces hus) (of_pieces hus)
  | cons d ts ih =>
    cases s with
    | finish p => cases hs
    | next e s =>
      cases s' with
      | finish p => cases hs'
      | next e' s' =>
        obtain ⟨rfl, hrest⟩ := List.cons.inj hs
        obtain ⟨rfl, hrest'⟩ := List.cons.inj hs'
        cases ts with
        | nil =>
          -- The token in front of the other spelling is no dot.
          refine .next rfl rfl (fun hd => absurd hd (hdot _ rfl)) (ih hrest hrest' ?_)
          intro d hd
          cases hd
        | cons d ts =>
          refine .next rfl rfl (fun _ => ?_) (ih hrest hrest' ?_)
          · rw [raw?_eq_head?, raw?_eq_head?, hrest, hrest']
            rfl
          · rwa [List.getLast?_cons_cons] at hdot

end Alike

end Stream

/-! ## Programs -/

/-- Reading the tokens of a source is reading the source. -/
theorem Program.parse_of_tokenize {file source : Text} {s : Stream}
    (h : Lexer.tokenize source = .ok s) :
    Program.parse file source = (Parser.program s).mapError (SyntaxError.toDiagnostic file) := by
  have hsource : Program.ofSource source = Parser.program s := by
    unfold Program.ofSource Stream.ofSource
    rw [h]
    rfl
  unfold Program.parse
  rw [hsource]
  cases Parser.program s <;> rfl

/-- **Parsing depends on kinds and texts.** All streams like a given one, in kinds and texts and in
the written forms behind dots, have the same tree apart from positions, or all have a fault with the
same code at the same token. So a source in which a keyword that names no member is replaced by
another spelling of it, in the other language or in other letters, has the same tree apart from
positions, or still none, for a fault with the same code. -/
theorem Parser.program_of_alike :
    (∀ s : Stream,
      (∃ q : Program, ∀ s', s.Alike s' → ∃ p, program s' = .ok p ∧ p.unlocated = q) ∨
        ∃ i ≤ s.length, ∃ code, ∀ s', s.Alike s' →
          ∃ e, program s' = .error e ∧ e.position = s'.positionAt i ∧ e.fault.code = code) ∧
    ∀ (file before word word' after : Text) (s : Stream) (ts us : List Token) (t : Token)
      (k : Keyword),
      Lexer.tokenize (before ++ word ++ after) = .ok s → s.tokens = ts ++ t :: us →
      t.lexeme = .keyword k →
      t.raw = word → t.position = .behind before → (∀ d ∈ ts.getLast?, d.lexeme ≠ .mark .dot) →
      word'.IsWord → Keyword.ofWord? word' = some k →
      (∃ p p', Program.parse file (before ++ word ++ after) = .ok p ∧
        Program.parse file (before ++ word' ++ after) = .ok p' ∧ p'.unlocated = p.unlocated) ∨
      ∃ d d', Program.parse file (before ++ word ++ after) = .error d ∧
        Program.parse file (before ++ word' ++ after) = .error d' ∧ d'.code = d.code := by
  refine ⟨program_alike, ?_⟩
  intro file before word word' after s ts us t k h hs hk hraw hp hdot hword hk'
  obtain ⟨s', t', us', h', hs', hl, hus⟩ := Lexer.tokenize_respelled h hs hk hraw hp hword hk'
  have halike : s.Alike s' := .of_respelled hs hs' (hl.trans hk.symm) hdot hus
  rw [Program.parse_of_tokenize h, Program.parse_of_tokenize h']
  rcases program_alike s with ⟨q, hq⟩ | ⟨i, -, code, hcode⟩
  · obtain ⟨p, hp, hpq⟩ := hq s (.refl s)
    obtain ⟨p', hp', hpq'⟩ := hq s' halike
    rw [hp, hp']
    exact .inl ⟨p, p', rfl, rfl, hpq'.trans hpq.symm⟩
  · obtain ⟨e, he, -, hec⟩ := hcode s (.refl s)
    obtain ⟨e', he', -, hec'⟩ := hcode s' halike
    rw [he, he']
    exact .inr ⟨_, _, rfl, rfl, hec'.trans hec.symm⟩

set_option maxRecDepth 10000 in
/-- On the second line of a module, `return` is replaced by `ВОЗВРАТ`. -/
theorem Parser.program_of_alike_return :
    ∃ (before word word' after : Text) (s : Stream) (ts us : List Token) (t : Token),
      before = [0x61, 0x3D, 0x62, 0x0A] ∧ word = [0x72, 0x65, 0x74, 0x75, 0x72, 0x6E] ∧
      word' = [0x412, 0x41E, 0x417, 0x412, 0x420, 0x410, 0x422] ∧ after = [0x20, 0x61, 0x3B] ∧
      Lexer.tokenize (before ++ word ++ after) = .ok s ∧ s.tokens = ts ++ t :: us ∧ ts.length = 3 ∧
      t.lexeme = .keyword .kwReturn ∧ t.raw = word ∧ t.position = .behind before ∧
      (∀ d ∈ ts.getLast?, d.lexeme ≠ .mark .dot) ∧ word'.IsWord ∧
        Keyword.ofWord? word' = some .kwReturn ∧
      ∃ p p', Program.parse [] (before ++ word ++ after) = .ok p ∧
        Program.parse [] (before ++ word' ++ after) = .ok p' ∧ p'.unlocated = p.unlocated := by
  have hword : Text.IsWord [0x412, 0x41E, 0x417, 0x412, 0x420, 0x410, 0x422] :=
    ⟨by decide, List.all_eq_true.1 (by decide)⟩
  have hdot : ∀ d ∈ [(⟨.identifier [0x61], [0x61], ⟨1, 1⟩⟩ : Token), ⟨.mark .equal, [0x3D], ⟨1, 2⟩⟩,
      ⟨.identifier [0x62], [0x62], ⟨1, 3⟩⟩].getLast?, d.lexeme ≠ .mark .dot := by
    intro d hd
    cases hd
    decide
  refine ⟨_, _, _, _, _, [_, _, _], [_, _], _, rfl, rfl, rfl, rfl, rfl, rfl, rfl, rfl, rfl, rfl,
    hdot, hword, rfl, ?_⟩
  have hcases := program_of_alike.2 [] [0x61, 0x3D, 0x62, 0x0A] [0x72, 0x65, 0x74, 0x75, 0x72, 0x6E]
    [0x412, 0x41E, 0x417, 0x412, 0x420, 0x410, 0x422] [0x20, 0x61, 0x3B] _ [_, _, _] [_, _] _ _ rfl
    rfl rfl rfl rfl hdot hword rfl
  refine hcases.resolve_right ?_
  -- The module can be read, so there is no fault.
  rintro ⟨d, -, herror, -⟩
  have hread : (Program.parse [] ([0x61, 0x3D, 0x62, 0x0A] ++
    [0x72, 0x65, 0x74, 0x75, 0x72, 0x6E] ++ [0x20, 0x61, 0x3B])).isOk = true := by decide +kernel
  rw [herror] at hread
  cases hread

end Gradual
