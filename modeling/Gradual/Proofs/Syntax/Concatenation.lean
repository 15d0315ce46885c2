import Gradual.Proofs.Syntax.Layout
import Gradual.Proofs.Syntax.TwoRuns

/-!
# Modules one after the other

Behind a module that is read, a line with a semicolon and then a second module read as the
statements of the first followed by those of the second, further down. If the second cannot be read,
the whole fails in the same way, further down. Main statement: `Program.parse_append`.

The tokens of the whole are those of the first module, a semicolon and those of the second with
their lines moved. The semicolon keeps the two apart: no statement goes on behind it, so the parser
takes the steps that it takes on the first module, and it goes on as it does at the start of the
second.
-/

namespace Gradual

/-! ## Further down -/

/-- The position some lines further down. -/
def Position.lowered (k : Nat) (p : Position) : Position := ⟨p.line + k, p.column⟩

theorem Position.advance_lowered (k : Nat) (p : Position) (c : CodeUnit) :
    (p.lowered k).advance c = (p.advance c).lowered k := by
  unfold advance
  split
  · unfold lowered
    rw [Nat.add_right_comm]
  · rfl

/-- The stream with its positions moved. -/
def Stream.relocated (f : Position → Position) : Stream → Stream
  | finish p => finish (f p)
  | next t rest => next ⟨t.lexeme, t.raw, f t.position⟩ (rest.relocated f)

/-- The error with its position moved. -/
def SyntaxError.relocated (f : Position → Position) (e : SyntaxError) : SyntaxError :=
  ⟨e.fault, f e.position⟩

/-- The program some lines further down. -/
def Program.lowered (k : Nat) (p : Program) : Program := Stmt.relocatedAll (Position.lowered k) p

/-- The diagnostic some lines further down. -/
def Diagnostic.lowered (k : Nat) (d : Diagnostic) : Diagnostic :=
  { d with location := d.location.map fun l => { l with line := l.line + k } }

/-! ## Tokens -/

namespace Lexer

/-- Reading from a position further down gives the same tokens, or the same fault, further down. -/
theorem scan_lowered (k : Nat) (b : Bool) (p : Position) (n : Nat) (source : Text) :
    scan b (p.lowered k) n source =
      ((scan b p n source).map (Stream.relocated (Position.lowered k))).mapError fun e =>
        (e.1, e.2.lowered k) := by
  induction source generalizing b p n with
  | nil => cases n <;> rfl
  | cons c rest ih =>
    cases n with
    | succ n =>
      rw [scan, scan, Position.advance_lowered, ih]
    | zero =>
      rw [scan, scan, Position.advance_lowered]
      by_cases hc : (c == Text.newline) = true
      · rw [if_pos hc, if_pos hc, ih]
      · rw [if_neg hc, if_neg hc]
        cases gap? b (c :: rest) with
        | some n => exact ih ..
        | none =>
          dsimp only
          cases lexeme c rest with
          | error fault => rfl
          | ok x =>
            rcases x with ⟨l, n⟩
            dsimp only
            rw [ih]
            cases scan false (p.advance c) (n - 1) rest <;> rfl

/-- The line between two modules. -/
theorem reads_semicolon (rest : Text) (b : Bool) (p : Position) :
    Reads rest b p "\n;\n" [⟨.mark .semicolon, [0x3B], p.advance Text.newline⟩] true :=
  .newline (.token (r := []) (by decide) rfl rfl (.newline .nil))

/-- The tokens of two modules with such a line between them. -/
theorem tokenize_append {source₁ : Text} {s₁ : Stream} (h : tokenize source₁ = .ok s₁)
    (source₂ : Text) :
    ∃ q, tokenize (source₁ ++ "\n;\n" ++ source₂) =
      ((tokenize source₂).map fun s₂ =>
        Stream.prepend s₁.tokens (.next ⟨.mark .semicolon, [0x3B], q⟩
        (s₂.relocated (Position.lowered (source₁.count Text.newline + 2))))).mapError
          fun e => (e.1, e.2.lowered (source₁.count Text.newline + 2)) := by
  obtain ⟨b, hr, -⟩ := reads_of_scan h
  rw [List.take_zero, List.drop_zero, Position.after_nil] at hr
  -- What is read of the first module does not depend on the line feed behind it.
  have hfirst : Reads ("\n;\n" ++ source₂) true Position.start source₁ s₁.tokens b :=
    hr.follow (tame_newline [] _)
  have hwhole := (hfirst.append (reads_semicolon source₂ b _)).scan_eq
  have hstart : (Position.start.after source₁).after ("\n;\n" : Text) =
      Position.start.lowered (source₁.count Text.newline + 2) := by
    rw [Position.start_after]
    change Position.mk (source₁.count Text.newline + 1 + 1 + 1) 1 =
      Position.mk (1 + (source₁.count Text.newline + 2)) 1
    congr 1
    omega
  refine ⟨(Position.start.after source₁).advance Text.newline, ?_⟩
  unfold tokenize
  rw [hwhole, Position.after_append, hstart, scan_lowered]
  cases scan true Position.start 0 source₂ with
  | error e => rfl
  | ok s₂ =>
    change Except.ok (Stream.prepend (s₁.tokens ++ _) _) = Except.ok _
    rw [Stream.prepend_append]
    rfl

end Lexer

/-! ## Parsing -/

/-- The second stream is the first with its positions moved. -/
theorem Guise.follows_relocated (f : Position → Position) (s : Stream) :
    (Guise.mk f id false).Follows s (s.relocated f) := by
  induction s with
  | finish p => exact .finish
  | next t rest ih =>
    refine .next rfl (fun _ word hw => ?_) ih
    cases rest with
    | finish p => cases hw
    | next u rest => exact hw

namespace Parser

open Gradual.Stream

/-- Semicolons in front of a block do not matter. -/
theorem block_congr {s s' : Stream} (h : s.skipSemicolons = s'.skipSemicolons) (n : Nat)
    (ends : List Keyword) : block (n + 1) ends s = block (n + 1) ends s' := by
  rw [block, block, h]

/-- A statement is read in the same way if a semicolon and more tokens stand behind the stream. -/
theorem statement_prepend (raw : Text) (q : Position) (rest : Stream) {n m : Nat} {s r : Stream}
    {ss : List Stmt} (h : statement n s = .ok (ss, r)) (hm : n ≤ m) :
    statement m (prepend s.tokens (.next ⟨.mark .semicolon, raw, q⟩ rest)) =
      .ok (ss, prepend r.tokens (.next ⟨.mark .semicolon, raw, q⟩ rest)) := by
  have hstatement := outcome_statement n s
  rw [h] at hstatement
  cases hstatement with
  | ok taken _ _ hagain =>
    have hheads : (Guise.mk id id true).Heads r
        (prepend r.tokens (.next ⟨.mark .semicolon, raw, q⟩ rest)) := by
      cases r with
      | finish p => exact .goesOn rfl
      | next t r => exact .next rfl
    rw [tokens_prepend, prepend_append,
      hagain _ m _ _ hm Bool.false_ne_true.elim (.of_heads hheads taken)]
    exact congrArg (fun ss => Except.ok (ss, _)) (Stmt.relocatedAll_id ss)

/-- **A block goes on behind a semicolon.** By induction on the depth: every statement is read as
without what follows, and the last one leaves the semicolon and what is behind it. -/
theorem block_prepend (raw : Text) (q : Position) (rest : Stream) {n : Nat} {s : Stream}
    {ss : List Stmt} {p : Position} (h : block n [] s = .ok (ss, .finish p)) :
    ∃ k, ∀ m, n ≤ m → block (m + k) [] (prepend s.tokens (.next ⟨.mark .semicolon, raw, q⟩ rest)) =
      (block m [] (.next ⟨.mark .semicolon, raw, q⟩ rest)).map fun x => (ss ++ x.1, x.2) := by
  induction n generalizing s ss with
  | zero => cases h
  | succ n ih =>
    obtain ⟨⟨semicolons, hsemi, hs⟩, hnot⟩ := skipSemicolons_spec s
    rw [block] at h
    dsimp only at h
    generalize s.skipSemicolons = r at h hs hnot
    rw [hs, tokens_prepend, prepend_append]
    cases r with
    | finish p' =>
      cases h
      refine ⟨0, fun m hm => ?_⟩
      obtain ⟨m, rfl⟩ : ∃ k, m = k + 1 := ⟨m - 1, by omega⟩
      rw [Nat.add_zero, block_congr (skipSemicolons_prepend hsemi _)]
      show block (m + 1) [] (.next ⟨.mark .semicolon, raw, q⟩ rest) = _
      cases block (m + 1) [] (.next ⟨.mark .semicolon, raw, q⟩ rest) <;> rfl
    | next t r =>
      obtain ⟨⟨first, u⟩, hfirst, h⟩ := bind_eq_ok.1 h
      obtain ⟨⟨more, u'⟩, hmore, h⟩ := bind_eq_ok.1 h
      cases h
      obtain ⟨k, hk⟩ := ih hmore
      refine ⟨k + 1, fun m hm => ?_⟩
      have hst := statement_prepend raw q rest hfirst (Nat.le_trans (Nat.le_of_succ_le hm)
        (Nat.le_add_right m k))
      have hself : (prepend (next t r).tokens
        (.next ⟨.mark .semicolon, raw, q⟩ rest)).skipSemicolons =
          prepend (next t r).tokens (.next ⟨.mark .semicolon, raw, q⟩ rest) :=
        if_neg fun ht => hnot (congrArg some ht)
      rw [← Nat.add_assoc, block, skipSemicolons_prepend hsemi, hself]
      show (statement (m + k) (prepend (next t r).tokens _) >>= fun x => _) = _
      rw [hst]
      show (block (m + k) [] (prepend u.tokens _) >>= fun x => Except.ok (first ++ x.1, x.2)) = _
      rw [hk m (Nat.le_of_succ_le hm)]
      cases block m [] (.next ⟨.mark .semicolon, raw, q⟩ rest) with
      | error e => rfl
      | ok x =>
        show Except.ok (first ++ (more ++ x.1), x.2) = Except.ok (first ++ more ++ x.1, x.2)
        rw [List.append_assoc]

/-- The program of a stream that goes on behind a semicolon. -/
theorem program_prepend {raw : Text} {q : Position} {s₁ s₂ : Stream} {p : Program}
    (h : program s₁ = .ok p) :
    program (prepend s₁.tokens (.next ⟨.mark .semicolon, raw, q⟩ s₂)) =
      (program s₂).map fun p₂ => p ++ p₂ := by
  unfold program at h ⊢
  rw [bind_eq_ok] at h
  obtain ⟨⟨ss, r⟩, hb, h⟩ := h
  cases r with
  | next t r => cases h
  | finish p' =>
    cases h
    obtain ⟨k, hk⟩ := block_prepend raw q s₂ hb
    generalize hs : prepend s₁.tokens (.next ⟨.mark .semicolon, raw, q⟩ s₂) = s at hk ⊢
    have hskip : (next ⟨.mark .semicolon, raw, q⟩ s₂).skipSemicolons = s₂.skipSemicolons := by
      rw [skipSemicolons, if_pos rfl]
    -- A bound that is enough for all streams that are compared.
    have hwhole : block s.depth [] s = (block s₂.depth [] s₂).map fun x => (p ++ x.1, x.2) := by
      calc block s.depth [] s
          = block (s.depth + s₁.depth + s₂.depth + 1 + k) [] s :=
            block_eq_of_depth [] (by unfold depth; omega) (by unfold depth; omega)
        _ = (block (s.depth + s₁.depth + s₂.depth + 1) [] s₂).map fun x => (p ++ x.1, x.2) := by
            rw [hk _ (by omega), block_congr hskip]
        _ = (block s₂.depth [] s₂).map fun x => (p ++ x.1, x.2) := by
            rw [block_eq_of_depth [] (m := s₂.depth) (by unfold depth; omega)
              (by unfold depth; omega)]
    rw [hwhole]
    cases block s₂.depth [] s₂ with
    | error e => rfl
    | ok x =>
      rcases x with ⟨ss, r⟩
      cases r <;> rfl

/-- The program of a stream with its positions moved. -/
theorem program_relocated (f : Position → Position) (s : Stream) :
    program (s.relocated f) = ((program s).map (Stmt.relocatedAll f)).mapError
      (SyntaxError.relocated f) := by
  rcases Guise.program_cases (Guise.follows_relocated f s) rfl with
    ⟨p, hp, hp'⟩ | ⟨e, e', he, he', hpos, hfault⟩
  · rw [hp, hp']
    rfl
  · change e'.fault.viewed id = e.fault.viewed id at hfault
    rw [SyntaxFault.viewed_id, SyntaxFault.viewed_id] at hfault
    rw [he, he']
    change e'.position = f e.position at hpos
    change Except.error e' = Except.error (SyntaxError.mk e.fault (f e.position))
    rw [← hfault, ← hpos]

end Parser

/-! ## Modules -/

namespace Program

/-- Reading a module in which a first module is followed by a semicolon on a line of its own and a
second one. -/
theorem ofSource_append {source₁ : Text} {p₁ : Program} (h : ofSource source₁ = .ok p₁)
    (source₂ : Text) :
    ofSource (source₁ ++ "\n;\n" ++ source₂) =
      ((ofSource source₂).map fun p₂ => p₁ ++ p₂.lowered (source₁.count Text.newline + 2)).mapError
        (SyntaxError.relocated (Position.lowered (source₁.count Text.newline + 2))) := by
  unfold ofSource at h ⊢
  rw [bind_eq_ok] at h
  obtain ⟨s₁, hs₁, hp₁⟩ := h
  have htokens : Lexer.tokenize source₁ = .ok s₁ := by
    unfold Stream.ofSource at hs₁
    split at hs₁
    · next s hs =>
      cases hs₁
      exact hs
    · cases hs₁
  obtain ⟨q, hq⟩ := Lexer.tokenize_append htokens source₂
  unfold Stream.ofSource
  rw [hq]
  cases Lexer.tokenize source₂ with
  | error e => rfl
  | ok s₂ =>
    change Parser.program (Stream.prepend s₁.tokens _) = ((Parser.program s₂).map _).mapError _
    rw [Parser.program_prepend hp₁, Parser.program_relocated]
    cases Parser.program s₂ <;> rfl

/-- **Reading is a homomorphism.** Behind a module that is read, a line with a semicolon and a
second module give the statements of both, those of the second further down by the lines in front of
it. A second module that cannot be read makes the whole fail with the same diagnostic, further down
by the same number of lines. -/
theorem parse_append {file source₁ : Text} {p₁ : Program} (h : parse file source₁ = .ok p₁)
    (source₂ : Text) :
    (∀ p₂, parse file source₂ = .ok p₂ →
      parse file (source₁ ++ "\n;\n" ++ source₂) =
        .ok (p₁ ++ p₂.lowered (source₁.count Text.newline + 2))) ∧
    ∀ d, parse file source₂ = .error d →
      parse file (source₁ ++ "\n;\n" ++ source₂) =
        .error (d.lowered (source₁.count Text.newline + 2)) := by
  have hfirst : ofSource source₁ = .ok p₁ := by
    unfold parse at h
    split at h
    · next p hp =>
      cases h
      exact hp
    · cases h
  have hwhole := ofSource_append hfirst source₂
  unfold parse
  rw [hwhole]
  cases ofSource source₂ with
  | ok p =>
    constructor
    · intro p₂ hp
      cases hp
      rfl
    · intro d hd
      cases hd
  | error e =>
    constructor
    · intro p₂ hp
      cases hp
    · intro d hd
      cases hd
      rfl

set_option maxRecDepth 10000 in
/-- Behind `a=b` on its second line, `c=d` stands on the fourth line, and `c=` lacks its operand
there. -/
theorem parse_append_assignments :
    ∃ (source₁ source₂ source₃ : Text) (p₁ p₂ : Program) (d : Diagnostic),
      source₁ = [0x0A, 0x61, 0x3D, 0x62] ∧ source₂ = [0x63, 0x3D, 0x64] ∧ source₃ = [0x63, 0x3D] ∧
      parse [] source₁ = .ok p₁ ∧ parse [] source₂ = .ok p₂ ∧ parse [] source₃ = .error d ∧
      p₁ = [.assign (.ident [0x61] (some ⟨2, 1⟩)) (.ident [0x62] (some ⟨2, 3⟩)) (some ⟨2, 1⟩)] ∧
      p₂.lowered 3 = [.assign (.ident [0x63] (some ⟨4, 1⟩)) (.ident [0x64] (some ⟨4, 3⟩))
        (some ⟨4, 1⟩)] ∧
      (d.lowered 3).location = some ⟨[], 4, 3⟩ ∧
      parse [] (source₁ ++ "\n;\n" ++ source₂) = .ok (p₁ ++ p₂.lowered 3) ∧
      parse [] (source₁ ++ "\n;\n" ++ source₃) = .error (d.lowered 3) :=
  ⟨_, _, _, _, _, _, rfl, rfl, rfl, rfl, rfl, rfl, rfl, rfl, rfl, (parse_append rfl _).1 _ rfl,
    (parse_append rfl _).2 _ rfl⟩

end Program

end Gradual
