import Gradual.Proofs.Syntax.Reading

/-!
# Reading written programs

The reader, run on the pieces of an expressible program at any positions, gives back the program up
to positions.

A written statement is followed by a semicolon, and a block by the keyword that closes it or by the
end. No statement starts with a keyword that closes a block, so a block is read exactly up to its
end; a keyword that closes an outer block cannot be met inside.
-/

namespace Gradual

namespace Parser

open Gradual.Stream

variable {style : NumberStyle}

/-! ## Parts of statements -/

/-- Nothing goes on with an expression here. -/
def Ends (s : Stream) : Prop := ∀ l ∈ s.lexeme?, continues l = none

/-- Where a lexeme goes on with nothing, an expression ends before it. -/
theorem ends_next {t : Token} {s : Stream} (h : continues t.lexeme = none) : Ends (.next t s) := by
  rintro _ ⟨⟩
  exact h

/-- Where an expression ends, every level is closed. -/
theorem Ends.closes {level : Level} {s : Stream} (h : Ends s) : Closes level s := by
  intro l hl k hk
  rw [h l hl] at hk
  cases hk

/-- A flag that is written is found, and one that is not is not, if the keyword does not follow by
chance. -/
theorem takeWord_flag {k : Keyword} {present : Bool} {s rest : Stream}
    (hs : Spells (Printer.flag k present) s rest) (hrest : rest.lexeme? ≠ some (.keyword k)) :
    s.takeWord k = (present, rest) := by
  cases present with
  | false =>
    cases hs
    exact takeWord_eq_false.2 ⟨hrest, rfl⟩
  | true =>
    obtain ⟨p, rfl⟩ := spells_singleton.1 hs
    exact takeWord_eq_true.2 ⟨_, rfl, rfl⟩

/-- An expression ends before a flag. -/
theorem ends_flag {k : Keyword} {present : Bool} {s rest : Stream}
    (hk : continues (.keyword k) = none) (hs : Spells (Printer.flag k present) s rest)
    (hrest : Ends rest) : Ends s := by
  cases present with
  | false =>
    cases hs
    exact hrest
  | true =>
    obtain ⟨p, rfl⟩ := spells_singleton.1 hs
    exact ends_next hk

/-- An initial value is read back, up to positions. -/
theorem reads_initialValue {level : Level} {v : Option Expr} (hv : ∀ e ∈ v, e.Expressible)
    {s rest : Stream} (hs : Spells (Printer.initialValue style level v) s rest)
    (hrest : Ends rest) :
    ∃ v', v'.map Expr.unlocated = v.map Expr.unlocated ∧
      ∀ n, 16 * s.length + 9 ≤ n → initialValue n level s = .ok (v', rest) := by
  cases v with
  | none =>
    cases hs
    refine ⟨none, rfl, fun n _ => ?_⟩
    have hequal : s.takeMark .equal = (false, s) := by
      refine takeMark_eq_false.2 ⟨fun h => ?_, rfl⟩
      cases hrest _ h
    rw [initialValue, hequal]
  | some e =>
    obtain ⟨p, s', rfl, hs⟩ := hs
    obtain ⟨e', he, hr⟩ := (readable (hv e rfl) level s' rest hs hrest.closes.admits).reads
      hrest.closes
    refine ⟨some e', congrArg some he, fun n hn => ?_⟩
    rw [length] at hn
    show (expression n level s' >>= _) = _
    rw [hr n (by omega)]
    rfl

/-- An optional expression is read back in front of its semicolon. -/
theorem reads_optional {v : Option Expr} (hv : ∀ e ∈ v, e.Expressible) {raw : Text} {p : Position}
    {s rest : Stream}
    (hs : Spells (Printer.optional style v) s (.next ⟨.mark .semicolon, raw, p⟩ rest)) :
    ∃ v', v'.map Expr.unlocated = v.map Expr.unlocated ∧
      ∀ n, 16 * s.length + 9 ≤ n →
        optionalExpression n s = .ok (v', .next ⟨.mark .semicolon, raw, p⟩ rest) := by
  cases v with
  | none =>
    cases hs
    exact ⟨none, rfl, fun n _ => rfl⟩
  | some e =>
    obtain ⟨e', he, hr⟩ := (readable (hv e rfl)).reads hs rfl
    refine ⟨some e', congrArg some he, fun n hn => ?_⟩
    have hstarts : s.startsExpression = true := by
      obtain ⟨l, k, hl, hk, -⟩ := begins_expression (hv e rfl) hs
      rw [startsExpression, hl]
      rw [begins.eq_def] at hk
      split at hk <;> first | rfl | cases hk
    rw [optionalExpression, if_pos hstarts, hr n hn]
    rfl

/-! ## Parameters -/

/-- A parameter is read up to what follows its name and its default value. -/
theorem reads_parameter {q : Param} (h : q.Expressible) {s rest : Stream}
    (hs : Spells (q.print style) s rest) (hrest : Ends rest) :
    ∃ q' : Param, q'.unlocated = q.unlocated ∧ ∀ n, 16 * s.length ≤ n →
      parameterList (n + 1) s =
        (match rest.takeMark .comma with
        | (true, s) => do
          let (more, s) ← parameterList n s
          .ok (q' :: more, s)
        | (false, s) => do
          let s ← s.expectMark .closeParen
          .ok ([q'], s)) := by
  obtain ⟨s', hflag, p, s'', rfl, hvalue⟩ := spells_append.1 hs
  have hword := takeWord_flag hflag (by rintro ⟨⟩)
  obtain ⟨v, hv, hr⟩ := reads_initialValue h.default hvalue hrest
  have hlen := hflag.length_eq
  rw [length] at hlen
  refine ⟨⟨q.name, q.byValue, v⟩, by rw [Param.unlocated, hv, Param.unlocated], fun n hn => ?_⟩
  rw [parameterList, hword]
  show (initialValue n .sign s'' >>= _) = _
  rw [hr n (by omega)]
  rfl

/-- Parameters written between commas are read back as a list, up to positions. -/
theorem reads_parameterList {q : Param} {qs : List Param} (h : ∀ p ∈ q :: qs, p.Expressible)
    {s rest : Stream}
    (hs : Spells (Printer.commas ((q :: qs).map (Param.print style)) ++ [.ofMark .closeParen])
      s rest) :
    ∃ ps : List Param, ps.map Param.unlocated = (q :: qs).map Param.unlocated ∧
      ∀ n, 16 * s.length + 1 ≤ n → parameterList n s = .ok (ps, rest) := by
  induction qs generalizing q s with
  | nil =>
    obtain ⟨s', hs, hc⟩ := spells_append.1 hs
    obtain ⟨c, rfl⟩ := spells_singleton.1 hc
    obtain ⟨q', hq, hr⟩ := reads_parameter (h q (by simp)) hs (ends_next rfl)
    refine ⟨[q'], by simp [hq], fun n hn => ?_⟩
    obtain ⟨m, rfl⟩ : ∃ m, n = m + 1 := ⟨n - 1, by omega⟩
    rw [hr m (by omega)]
    rfl
  | cons a qs ih =>
    rw [List.map_cons, List.map_cons, Printer.commas, List.append_assoc] at hs
    obtain ⟨s', hs, d, s'', rfl, hs'⟩ := spells_append.1 hs
    obtain ⟨q', hq, hr⟩ := reads_parameter (h q (by simp)) hs (ends_next rfl)
    obtain ⟨ps, hps, hl⟩ := ih (fun p hp => h p (List.mem_cons_of_mem _ hp)) hs'
    have hlen := hs.length_eq
    rw [length] at hlen
    refine ⟨q' :: ps, by simp [hq, hps], fun n hn => ?_⟩
    obtain ⟨m, rfl⟩ : ∃ m, n = m + 1 := ⟨n - 1, by omega⟩
    rw [hr m (by omega)]
    show (parameterList m s'' >>= _) = _
    rw [hl m (by omega)]
    rfl

/-- Written parameters are read, with their parentheses. -/
theorem reads_parameters {qs : List Param} (h : ∀ p ∈ qs, p.Expressible) {s rest : Stream}
    (hs : Spells (Printer.enclosed (qs.map (Param.print style))) s rest) :
    ∃ ps : List Param, ps.map Param.unlocated = qs.map Param.unlocated ∧
      ∀ n, 16 * s.length + 1 ≤ n → parameters n s = .ok (ps, rest) := by
  obtain ⟨o, s', rfl, hs⟩ := hs
  cases qs with
  | nil =>
    obtain ⟨c, rfl⟩ := spells_singleton.1 hs
    exact ⟨[], rfl, fun n _ => rfl⟩
  | cons q qs =>
    obtain ⟨ps, hps, hl⟩ := reads_parameterList h hs
    have hclose : s'.takeMark .closeParen = (false, s') := by
      refine takeMark_eq_false.2 ⟨?_, rfl⟩
      obtain ⟨_, hs, -⟩ := spells_append.1 hs
      obtain ⟨_, hq⟩ := hs.commas_head
      obtain ⟨_, hflag, p, _, rfl, -⟩ := spells_append.1 hq
      cases hb : q.byValue with
      | false =>
        rw [hb] at hflag
        cases hflag
        rintro ⟨⟩
      | true =>
        rw [hb] at hflag
        obtain ⟨p', rfl⟩ := spells_singleton.1 hflag
        rintro ⟨⟩
    refine ⟨ps, hps, fun n hn => ?_⟩
    rw [length] at hn
    show (match s'.takeMark .closeParen with
      | (true, s) => Except.ok ([], s)
      | (false, s) => parameterList n s) = _
    rw [hclose]
    exact hl n (by omega)

/-! ## Blocks -/

/-- Keywords that no statement starts with. Those that close blocks are among them. -/
def nonStarters : List Keyword :=
  [.kwExport, .kwElsif, .kwElse, .kwEndIf, .kwEndProcedure, .kwEndFunction, .kwEndDo,
    .kwExcept, .kwEndTry]

/-- The stream starts like a statement, as far as its first token can tell. -/
def StartsStatement (s : Stream) : Prop :=
  ∃ l, s.lexeme? = some l ∧ l ≠ .mark .semicolon ∧ ∀ k ∈ nonStarters, l ≠ .keyword k

/-- An expression starts like a statement. -/
theorem Begins.startsStatement {level : Level} {s : Stream} (h : Begins level s) :
    StartsStatement s := by
  obtain ⟨l, k, hl, hk, -⟩ := h
  refine ⟨l, hl, ?_, ?_⟩
  · rintro rfl
    cases hk
  · rintro k' hk' rfl
    have hnone : ∀ k ∈ nonStarters, begins (.keyword k) = none := by decide
    rw [hnone k' hk'] at hk
    cases hk

/-- A written statement starts with a lexeme that can start it. -/
theorem startsStatement_print {st : Stmt} (h : st.Expressible) {s rest : Stream}
    (hs : Spells (st.print style) s rest) : StartsStatement s := by
  have keyword : ∀ {k : Keyword} {raw : Text} {p : Position} {s' : Stream}, k ∉ nonStarters →
      StartsStatement (.next ⟨.keyword k, raw, p⟩ s') := by
    intro k raw p s' hk
    exact ⟨_, rfl, by rintro ⟨⟩, by rintro k' hk' ⟨⟩; exact hk hk'⟩
  cases h with
  | @routine kind =>
    obtain ⟨p, s', rfl, -⟩ := hs
    cases kind <;> exact keyword (by decide)
  | assign ht =>
    obtain ⟨s', hs, -⟩ := spells_append.1 hs
    exact (begins_place hs fun _ hs => begins_print ht hs).startsStatement
  | call =>
    obtain ⟨p, s', rfl, -⟩ := hs
    exact ⟨_, rfl, by rintro ⟨⟩, by rintro k - ⟨⟩⟩
  | method ho =>
    obtain ⟨s', hs, -⟩ := spells_append.1 hs
    exact (begins_place hs fun _ hs => begins_print ho hs).startsStatement
  | @attempt body handler =>
    cases handler <;>
    · obtain ⟨p, s', rfl, -⟩ := hs
      exact keyword (by decide)
  | declare | conditional | forTo | forEach | whileDo | ret | brk | cont | raise =>
    obtain ⟨p, s', rfl, -⟩ := hs
    exact keyword (by decide)

/-- The block ends here: at one of the keywords or at the end. -/
def Stops (ends : List Keyword) (s : Stream) : Prop := ∀ l ∈ s.lexeme?, ∃ k ∈ ends, l = .keyword k

/-- A block ends at any of its closing keywords. -/
theorem stops_next {ends : List Keyword} {k : Keyword} {raw : Text} {p : Position} {s : Stream}
    (h : k ∈ ends) :
    Stops ends (.next ⟨.keyword k, raw, p⟩ s) := by
  rintro _ ⟨⟩
  exact ⟨k, h, rfl⟩

/-- The statement is read back wherever its pieces and a semicolon stand. -/
def ReadsBack (style : NumberStyle) (st : Stmt) : Prop :=
  ∀ raw p s rest, Spells (st.print style) s (.next ⟨.mark .semicolon, raw, p⟩ rest) →
    ∃ st', st'.unlocated = st.unlocated ∧
      ∀ n, 16 * s.length + 3 ≤ n →
        statement n s = .ok ([st'], .next ⟨.mark .semicolon, raw, p⟩ rest)

/-- Semicolons in front of a block do not count. -/
theorem block_semicolon (n : Nat) (ends : List Keyword) (raw : Text) (p : Position) (s : Stream) :
    block (n + 1) ends (.next ⟨.mark .semicolon, raw, p⟩ s) = block (n + 1) ends s := by
  rw [block, block]
  rfl

/-- A block that ends here has no statements. -/
theorem block_stops {ends : List Keyword} {s : Stream} (h : Stops ends s) (n : Nat) :
    block (n + 1) ends s = .ok ([], s) := by
  cases s with
  | finish p => rfl
  | next t s =>
    obtain ⟨k, hk, hl⟩ := h _ rfl
    have hskip : (Stream.next t s).skipSemicolons = .next t s := by
      rw [skipSemicolons, if_neg (by rw [hl]; rintro ⟨⟩)]
    rw [block, hskip]
    show (if (ends.any fun k => t.lexeme = .keyword k) then _ else _) = _
    rw [if_pos (by simpa using ⟨k, hk, hl⟩)]

/-- At the start of a statement the block reads one and goes on. -/
theorem block_statement {ends : List Keyword} {s : Stream} (hends : ∀ k ∈ ends, k ∈ nonStarters)
    (h : StartsStatement s) (n : Nat) :
    block (n + 1) ends s = (do
      let (first, s) ← statement n s
      let (more, s) ← block n ends s
      .ok (first ++ more, s)) := by
  obtain ⟨l, hl, hsemicolon, hne⟩ := h
  cases s with
  | finish p => cases hl
  | next t s =>
    cases hl
    have hskip : (Stream.next t s).skipSemicolons = .next t s := by
      rw [skipSemicolons, if_neg hsemicolon]
    rw [block, hskip]
    show (if (ends.any fun k => t.lexeme = .keyword k) then _ else _) = _
    rw [if_neg]
    simpa using fun k hk => hne k (hends k hk)

/-- Written statements are read up to the end of their block. -/
theorem reads_block {body : List Stmt} (h : ∀ st ∈ body, st.Expressible ∧ ReadsBack style st)
    (ends : List Keyword) (hends : ∀ k ∈ ends, k ∈ nonStarters) {s rest : Stream}
    (hs : Spells (Stmt.printBlock style body) s rest) (hrest : Stops ends rest) :
    ∃ body', Stmt.unlocatedAll body' = Stmt.unlocatedAll body ∧
      ∀ n, 16 * s.length + 4 ≤ n → block n ends s = .ok (body', rest) := by
  induction body generalizing s with
  | nil =>
    cases hs
    refine ⟨[], rfl, fun n hn => ?_⟩
    obtain ⟨m, rfl⟩ : ∃ m, n = m + 1 := ⟨n - 1, by omega⟩
    exact block_stops hrest m
  | cons st body ih =>
    obtain ⟨s', hs, p, s'', rfl, hbody⟩ := spells_append.1 hs
    obtain ⟨hexp, hback⟩ := h st (by simp)
    obtain ⟨st', hst, hr⟩ := hback _ p s s'' hs
    obtain ⟨body', hb, hrs⟩ := ih (fun st' hst' => h st' (List.mem_cons_of_mem _ hst')) hbody
    have hlen := hs.length_eq
    rw [length] at hlen
    refine ⟨st' :: body', by rw [Stmt.unlocatedAll, hst, hb, Stmt.unlocatedAll], fun n hn => ?_⟩
    obtain ⟨m, rfl⟩ : ∃ m, n = m + 2 := ⟨n - 2, by omega⟩
    rw [block_statement hends (startsStatement_print hexp hs), hr (m + 1) (by omega)]
    show (block (m + 1) ends (.next ⟨.mark .semicolon, _, p⟩ s'') >>= _) = _
    rw [block_semicolon, hrs (m + 1) (by omega)]
    rfl

/-- The body of a loop is read. -/
theorem reads_loopBody {body : List Stmt}
    (h : ∀ st ∈ body, st.Expressible ∧ ReadsBack style st) {s rest : Stream}
    (hs : Spells (.ofKeyword .kwDo :: (Stmt.printBlock style body ++ [.ofKeyword .kwEndDo]))
      s rest) :
    ∃ body', Stmt.unlocatedAll body' = Stmt.unlocatedAll body ∧
      ∀ n, 16 * s.length + 1 ≤ n → loopBody n s = .ok (body', rest) := by
  obtain ⟨p, s₁, rfl, hs⟩ := hs
  obtain ⟨s₂, hs, hend⟩ := spells_append.1 hs
  obtain ⟨q, rfl⟩ := spells_singleton.1 hend
  obtain ⟨body', hb, hr⟩ := reads_block h [.kwEndDo] (by decide) hs (stops_next (by decide))
  refine ⟨body', hb, fun n hn => ?_⟩
  rw [length] at hn
  obtain ⟨m, rfl⟩ : ∃ m, n = m + 1 := ⟨n - 1, by omega⟩
  show (block m [.kwEndDo] s₁ >>= _) = _
  rw [hr m (by omega)]
  rfl

/-- What is written for the other ways of a conditional ends the branch before it. -/
theorem stops_print {a : Alternative} {s rest : Stream} (hs : Spells (a.print style) s rest) :
    Stops branchEnds s := by
  cases a with
  | none | otherwise | elsif =>
    obtain ⟨p, s', rfl, -⟩ := hs
    exact stops_next (by decide)

/-- A chain of further conditions is read, by recursion along the chain. -/
theorem reads_alternative (a : Alternative) (hc : ∀ e ∈ a.conditions, e.Expressible)
    (h : ∀ st ∈ a.statements, st.Expressible ∧ ReadsBack style st) (s rest : Stream)
    (hs : Spells (a.print style) s rest) :
    ∃ a', a'.unlocated = a.unlocated ∧ ∀ n, 16 * s.length + 1 ≤ n →
      alternative n s = .ok (a', rest) := by
  match a with
  | .none =>
    obtain ⟨p, rfl⟩ := spells_singleton.1 hs
    refine ⟨.none, rfl, fun n hn => ?_⟩
    obtain ⟨m, rfl⟩ : ∃ m, n = m + 1 := ⟨n - 1, by omega⟩
    rfl
  | .otherwise body =>
    obtain ⟨p, s₁, rfl, hs⟩ := hs
    obtain ⟨s₂, hs, hend⟩ := spells_append.1 hs
    obtain ⟨q, rfl⟩ := spells_singleton.1 hend
    obtain ⟨body', hb, hr⟩ := reads_block h [.kwEndIf] (by decide) hs (stops_next (by decide))
    refine ⟨.otherwise body', by rw [Alternative.unlocated, hb, Alternative.statements,
      Alternative.unlocated], fun n hn => ?_⟩
    rw [length] at hn
    obtain ⟨m, rfl⟩ : ∃ m, n = m + 1 := ⟨n - 1, by omega⟩
    show (block m [.kwEndIf] s₁ >>= _) = _
    rw [hr m (by omega)]
    rfl
  | .elsif c body more =>
    obtain ⟨p, s₁, rfl, hs⟩ := hs
    obtain ⟨s₂, hcond, q, s₃, rfl, hs⟩ := spells_append.1 hs
    obtain ⟨s₄, hbody, hmore⟩ := spells_append.1 hs
    obtain ⟨c', hc', hrc⟩ := (readable (hc c (by simp [Alternative.conditions]))).reads hcond rfl
    obtain ⟨body', hb, hrb⟩ :=
      reads_block (fun st hst => h st (by simp [Alternative.statements, hst])) branchEnds
      (by decide) hbody (stops_print hmore)
    obtain ⟨more', hn', hrn⟩ :=
      reads_alternative more (fun e he => hc e (by simp [Alternative.conditions, he]))
      (fun st hst => h st (by simp [Alternative.statements, hst])) s₄ rest hmore
    have hlc := hcond.length_eq
    have hlb := hbody.length_eq
    rw [length] at hlc
    refine ⟨.elsif c' body' more', by rw [Alternative.unlocated, hc', hb, hn',
      Alternative.unlocated], fun n hn => ?_⟩
    rw [length] at hn
    obtain ⟨m, rfl⟩ : ∃ m, n = m + 1 := ⟨n - 1, by omega⟩
    show (expression m .disjunction s₁ >>= _) = _
    rw [hrc m (by rw [Level.strength]; omega)]
    show (block m branchEnds s₃ >>= _) = _
    rw [hrb m (by omega)]
    show (alternative m s₄ >>= _) = _
    rw [hrn m (by omega)]
    rfl

/-! ## Simple statements -/

/-- A statement that starts like an operand is an assignment or a call. -/
theorem statement_eq_simple {s : Stream} (h : Begins .access s) (n : Nat) :
    statement (n + 1) s = (do
      let (simple, s) ← simpleStatement n s
      .ok ([simple], s)) := by
  obtain ⟨l, k, hl, hk, -⟩ := h
  rw [statement.eq_def]
  dsimp only
  split
  all_goals first | rfl | (cases hl; cases hk)

/-- An assignment is read back: its target starts it and is followed by the sign of equality. -/
theorem readsBack_assign {target v : Expr} {l : Option Position} (ht : target.Expressible)
    (htarget : target.isTarget = true) (hv : v.Expressible) :
    ReadsBack style (.assign target v l) := by
  intro raw p s rest hs
  obtain ⟨s₁, hs₁, q, s₂, rfl, hs₂⟩ := spells_append.1 hs
  have hclosed : Closes .access (.next ⟨.mark .equal, (Piece.ofMark .equal).raw, q⟩ s₂) := by
    rintro _ ⟨⟩ k ⟨⟩
    decide
  obtain ⟨target', ht', hrt⟩ := (readable ht .access s _ hs₁ (admits_access _)).reads hclosed
  obtain ⟨v', hv', hrv⟩ := (readable hv).reads hs₂ rfl
  have hlen := hs₁.length_eq
  rw [length] at hlen
  refine ⟨.assign target' v' (some s.position), by rw [Stmt.unlocated, ht', hv', Stmt.unlocated],
    fun n hn => ?_⟩
  obtain ⟨m, rfl⟩ : ∃ m, n = m + 1 := ⟨n - 1, by omega⟩
  have hbegins : Begins .access s := begins_place hs₁ fun _ hs => begins_print ht hs
  have htarget' : target'.isTarget = true := by
    rw [← Expr.isTarget_unlocated, ht', Expr.isTarget_unlocated, htarget]
  have hsimple : simpleStatement m s =
      .ok (.assign target' v' (some s.position), .next ⟨.mark .semicolon, raw, p⟩ rest) := by
    rw [simpleStatement, hrt m (by rw [Level.strength]; omega)]
    show (if target'.isTarget then (expression m .disjunction s₂ >>= _) else _) = _
    rw [if_pos htarget', hrv m (by rw [Level.strength]; omega)]
    rfl
  rw [statement_eq_simple hbegins, hsimple]
  rfl

/-- A statement that is written like a call is read back if the call makes it. -/
theorem readsBack_of_call {e : Expr} {st : Stmt} (he : e.Expressible)
    (hprint : st.print style = e.printAt style .access)
    (hcall : ∀ p e', e'.unlocated = e.unlocated →
      ∃ st', callStatement? p e' = some st' ∧ st'.unlocated = st.unlocated) :
      ReadsBack style st := by
  intro raw p s rest hs
  rw [hprint] at hs
  have hclosed : Closes .access (.next ⟨.mark .semicolon, raw, p⟩ rest) := closes_next rfl
  obtain ⟨e', he', hr⟩ := (readable he .access s _ hs (admits_access _)).reads hclosed
  obtain ⟨st', hst, hunlocated⟩ := hcall s.position e' he'
  refine ⟨st', hunlocated, fun n hn => ?_⟩
  obtain ⟨m, rfl⟩ : ∃ m, n = m + 1 := ⟨n - 1, by omega⟩
  have hbegins : Begins .access s := begins_place hs fun _ hs => begins_print he hs
  have hmark : (Stream.next ⟨.mark .semicolon, raw, p⟩ rest).takeMark .equal =
      (false, .next ⟨.mark .semicolon, raw, p⟩ rest) := rfl
  have hsimple : simpleStatement m s = .ok (st', .next ⟨.mark .semicolon, raw, p⟩ rest) := by
    rw [simpleStatement, hr m (by rw [Level.strength]; omega)]
    dsimp only [bind, Except.bind]
    rw [hmark]
    dsimp only
    rw [hst]
  rw [statement_eq_simple hbegins, hsimple]
  rfl

/-- A call of a routine is read back from the expression that it is written as. -/
theorem readsBack_call {name : Text} {args : List Expr} {l : Option Position}
    (hn : name.IsIdentifier) (ha : ∀ a ∈ args, a.Expressible) :
    ReadsBack style (.call name none args l) := by
  have he : (Expr.call (.ident name none) args none).Expressible := .call (.ident hn) ha
  refine readsBack_of_call he rfl fun p e' he' => ?_
  obtain ⟨f, args', l', rfl, hf, hargs⟩ := Expr.eq_call_of_unlocated he'
  obtain ⟨l'', rfl⟩ := Expr.eq_ident_of_unlocated hf
  exact ⟨_, rfl, by rw [Stmt.unlocated, hargs, Stmt.unlocated]⟩

theorem readsBack_method {object : Expr} {name : Text} {args : List Expr} {l : Option Position}
    (ho : object.Expressible) (hn : name.IsWord) (ha : ∀ a ∈ args, a.Expressible) :
    ReadsBack style (.call name (some object) args l) := by
  have he : (Expr.call (.member object name none) args none).Expressible := .call (.member ho hn) ha
  have hprint : (Stmt.call name (some object) args l).print style =
      (object.printAt style .access ++ [.ofMark .dot, .ofMember name]) ++
        Printer.enclosed (Expr.printAll style args) := by
    rw [Stmt.print, List.append_assoc]
    rfl
  refine readsBack_of_call he hprint fun p e' he' => ?_
  obtain ⟨f, args', l', rfl, hf, hargs⟩ := Expr.eq_call_of_unlocated he'
  obtain ⟨object', l'', rfl, hobject⟩ := Expr.eq_member_of_unlocated hf
  refine ⟨_, rfl, ?_⟩
  rw [Stmt.unlocated, hargs, Option.map_some, hobject, Stmt.unlocated, Option.map_some]

/-! ## Declarations -/

/-- A declaration of a variable is read back. -/
theorem readsBack_declare {name : Text} {exported : Bool} {v : Option Expr} {l : Option Position}
    (hv : ∀ e ∈ v, e.Expressible) : ReadsBack style (.declare name exported v l) := by
  intro raw p s rest hs
  obtain ⟨q, s₁, rfl, r, s₂, rfl, hs⟩ := hs
  obtain ⟨s₃, hvalue, hflag⟩ := spells_append.1 hs
  have hends : Ends s₃ := ends_flag rfl hflag (ends_next rfl)
  have hword : s₃.takeWord .kwExport = (exported, .next ⟨.mark .semicolon, raw, p⟩ rest) :=
    takeWord_flag hflag (by rintro ⟨⟩)
  obtain ⟨v', hv', hr⟩ := reads_initialValue hv hvalue hends
  refine ⟨.declare name exported v' (some r), by rw [Stmt.unlocated, hv', Stmt.unlocated],
    fun n hn => ?_⟩
  simp only [length] at hn
  obtain ⟨m, rfl⟩ : ∃ m, n = m + 2 := ⟨n - 2, by omega⟩
  show (initialValue m .disjunction s₂ >>= _) = _
  rw [hr m (by omega)]
  dsimp only [bind, Except.bind]
  rw [hword]
  rfl

/-- A routine is read back when the statements of its body are. -/
theorem readsBack_routine {kind : RoutineKind} {name : Text} {params : List Param}
    {body : List Stmt} {exported : Bool} {l : Option Position} (hp : ∀ p ∈ params, p.Expressible)
    (hb : ∀ st ∈ body, st.Expressible ∧ ReadsBack style st) :
    ReadsBack style (.routine kind name params body exported l) := by
  intro raw p s rest hs
  obtain ⟨q, s₁, rfl, r, s₂, rfl, hs⟩ := hs
  obtain ⟨s₃, hparams, hs⟩ := spells_append.1 hs
  obtain ⟨s₄, hflag, hs⟩ := spells_append.1 hs
  obtain ⟨s₅, hbody, hclose⟩ := spells_append.1 hs
  obtain ⟨c, rfl⟩ := spells_singleton.1 hclose
  have hword : s₃.takeWord .kwExport = (exported, s₄) := by
    refine takeWord_flag hflag fun hexport => ?_
    cases body with
    | nil =>
      cases hbody
      cases kind <;> cases hexport
    | cons st body =>
      obtain ⟨_, hst, -⟩ := spells_append.1 hbody
      obtain ⟨l, hl, -, hne⟩ := startsStatement_print (hb st (by simp)).1 hst
      cases hl.symm.trans hexport
      exact hne .kwExport (by decide) rfl
  obtain ⟨params', hp', hrp⟩ := reads_parameters hp hparams
  obtain ⟨body', hb', hrb⟩ :=
    reads_block hb [closing kind] (by cases kind <;> decide) hbody (stops_next (by simp))
  have hlp := hparams.length_eq
  have hlf := hflag.length_eq
  have hunlocated : (Stmt.routine kind name params' body' exported (some q)).unlocated =
      (Stmt.routine kind name params body exported l).unlocated := by
    rw [Stmt.unlocated, hp', hb', Stmt.unlocated]
  refine ⟨_, hunlocated, fun n hn => ?_⟩
  simp only [length] at hn
  obtain ⟨m, rfl⟩ : ∃ m, n = m + 2 := ⟨n - 2, by omega⟩
  have hroutine : routine (m + 1) kind q (.next ⟨.identifier name, (Piece.ofName name).raw, r⟩ s₂) =
      .ok ([.routine kind name params' body' exported (some q)],
        .next ⟨.mark .semicolon, raw, p⟩ rest) := by
    show (parameters m s₂ >>= _) = _
    rw [hrp m (by omega)]
    dsimp only [bind, Except.bind]
    rw [hword]
    dsimp only
    rw [hrb m (by omega)]
    dsimp only
    rw [expectWord_eq_ok.2 ⟨_, rfl, rfl⟩]
  cases kind <;> exact hroutine

/-! ## Compound statements -/

/-- A conditional is read back when the statements of all its branches are. -/
theorem readsBack_conditional {c : Expr} {body : List Stmt} {a : Alternative} {l : Option Position}
    (hc : c.Expressible) (hb : ∀ st ∈ body, st.Expressible ∧ ReadsBack style st)
    (hcs : ∀ e ∈ a.conditions, e.Expressible)
    (hss : ∀ st ∈ a.statements, st.Expressible ∧ ReadsBack style st) :
    ReadsBack style (.conditional c body a l) := by
  intro raw p s rest hs
  obtain ⟨q, s₁, rfl, hs⟩ := hs
  obtain ⟨s₂, hcond, r, s₃, rfl, hs⟩ := spells_append.1 hs
  obtain ⟨s₄, hbody, halt⟩ := spells_append.1 hs
  obtain ⟨c', hc', hrc⟩ := (readable hc).reads hcond rfl
  obtain ⟨body', hb', hrb⟩ := reads_block hb branchEnds (by decide) hbody (stops_print halt)
  obtain ⟨a', ha', hra⟩ := reads_alternative a hcs hss s₄ _ halt
  have hlc := hcond.length_eq
  have hlb := hbody.length_eq
  rw [length] at hlc
  refine ⟨.conditional c' body' a' (some q), by rw [Stmt.unlocated, hc', hb', ha', Stmt.unlocated],
    fun n hn => ?_⟩
  rw [length] at hn
  obtain ⟨m, rfl⟩ : ∃ m, n = m + 1 := ⟨n - 1, by omega⟩
  show (expression m .disjunction s₁ >>= _) = _
  rw [hrc m (by rw [Level.strength]; omega)]
  show (block m branchEnds s₃ >>= _) = _
  rw [hrb m (by omega)]
  show (alternative m s₄ >>= _) = _
  rw [hra m (by omega)]
  rfl

/-- A loop over numbers is read back when the statements of its body are. -/
theorem readsBack_forTo {name : Text} {first last : Expr} {body : List Stmt} {l : Option Position}
    (hf : first.Expressible) (hl : last.Expressible)
    (hb : ∀ st ∈ body, st.Expressible ∧ ReadsBack style st) :
    ReadsBack style (.forTo name first last body l) := by
  intro raw p s rest hs
  obtain ⟨q, s₁, rfl, r, s₂, rfl, t, s₃, rfl, hs⟩ := hs
  obtain ⟨s₄, hfirst, u, s₅, rfl, hs⟩ := spells_append.1 hs
  obtain ⟨s₆, hlast, hbody⟩ := spells_append.1 hs
  obtain ⟨first', hf', hrf⟩ := (readable hf).reads hfirst rfl
  obtain ⟨body', hb', hrb⟩ := reads_loopBody hb hbody
  obtain ⟨v, s₇, rfl, -⟩ := hbody
  obtain ⟨last', hl', hrl⟩ := (readable hl).reads hlast rfl
  have hlf := hfirst.length_eq
  have hll := hlast.length_eq
  simp only [length] at hlf hll hrb
  refine ⟨.forTo name first' last' body'
    (some q), by rw [Stmt.unlocated, hf', hl', hb', Stmt.unlocated],
    fun n hn => ?_⟩
  simp only [length] at hn
  obtain ⟨m, rfl⟩ : ∃ m, n = m + 1 := ⟨n - 1, by omega⟩
  show (expression m .disjunction s₃ >>= _) = _
  rw [hrf m (by rw [Level.strength]; omega)]
  show (expression m .disjunction s₅ >>= _) = _
  rw [hrl m (by rw [Level.strength]; omega)]
  show (loopBody m _ >>= _) = _
  rw [hrb m (by omega)]
  rfl

/-- A loop over a collection is read back when the statements of its body are. -/
theorem readsBack_forEach {name : Text} {collection : Expr} {body : List Stmt} {l : Option Position}
    (hc : collection.Expressible) (hb : ∀ st ∈ body, st.Expressible ∧ ReadsBack style st) :
    ReadsBack style (.forEach name collection body l) := by
  intro raw p s rest hs
  obtain ⟨q, s₁, rfl, r, s₂, rfl, t, s₃, rfl, u, s₄, rfl, hs⟩ := hs
  obtain ⟨s₅, hcollection, hbody⟩ := spells_append.1 hs
  obtain ⟨body', hb', hrb⟩ := reads_loopBody hb hbody
  obtain ⟨v, s₆, rfl, -⟩ := hbody
  obtain ⟨collection', hc', hrc⟩ := (readable hc).reads hcollection rfl
  have hlc := hcollection.length_eq
  simp only [length] at hlc hrb
  refine ⟨.forEach name collection' body'
    (some q), by rw [Stmt.unlocated, hc', hb', Stmt.unlocated],
    fun n hn => ?_⟩
  simp only [length] at hn
  obtain ⟨m, rfl⟩ : ∃ m, n = m + 1 := ⟨n - 1, by omega⟩
  show (expression m .disjunction s₄ >>= _) = _
  rw [hrc m (by rw [Level.strength]; omega)]
  show (loopBody m _ >>= _) = _
  rw [hrb m (by omega)]
  rfl

/-- A loop under a condition is read back when the statements of its body are. -/
theorem readsBack_whileDo {c : Expr} {body : List Stmt} {l : Option Position}
    (hc : c.Expressible) (hb : ∀ st ∈ body, st.Expressible ∧ ReadsBack style st) :
    ReadsBack style (.whileDo c body l) := by
  intro raw p s rest hs
  obtain ⟨q, s₁, rfl, hs⟩ := hs
  obtain ⟨s₂, hcond, hbody⟩ := spells_append.1 hs
  obtain ⟨body', hb', hrb⟩ := reads_loopBody hb hbody
  obtain ⟨v, s₃, rfl, -⟩ := hbody
  obtain ⟨c', hc', hrc⟩ := (readable hc).reads hcond rfl
  have hlc := hcond.length_eq
  simp only [length] at hlc hrb
  refine ⟨.whileDo c' body' (some q), by rw [Stmt.unlocated, hc', hb', Stmt.unlocated],
    fun n hn => ?_⟩
  simp only [length] at hn
  obtain ⟨m, rfl⟩ : ∃ m, n = m + 1 := ⟨n - 1, by omega⟩
  show (expression m .disjunction s₁ >>= _) = _
  rw [hrc m (by rw [Level.strength]; omega)]
  show (loopBody m _ >>= _) = _
  rw [hrb m (by omega)]
  rfl

/-- An attempt without a handler is read back when the statements of its body are. -/
theorem readsBack_attempt {body : List Stmt} {l : Option Position}
    (hb : ∀ st ∈ body, st.Expressible ∧ ReadsBack style st) :
    ReadsBack style (.attempt body none l) := by
  intro raw p s rest hs
  obtain ⟨q, s₁, rfl, hs⟩ := hs
  obtain ⟨s₂, hbody, hclose⟩ := spells_append.1 hs
  obtain ⟨c, rfl⟩ := spells_singleton.1 hclose
  obtain ⟨body', hb', hrb⟩ :=
    reads_block hb [.kwExcept, .kwEndTry] (by decide) hbody (stops_next (by decide))
  refine ⟨.attempt body' none (some q), by rw [Stmt.unlocated, hb', Stmt.unlocated], fun n hn => ?_⟩
  rw [length] at hn
  obtain ⟨m, rfl⟩ : ∃ m, n = m + 1 := ⟨n - 1, by omega⟩
  show (block m [.kwExcept, .kwEndTry] s₁ >>= _) = _
  rw [hrb m (by omega)]
  rfl

/-- An attempt with a handler is read back when the statements of both blocks are. -/
theorem readsBack_attemptWith {body handler : List Stmt} {l : Option Position}
    (hb : ∀ st ∈ body, st.Expressible ∧ ReadsBack style st)
    (hh : ∀ st ∈ handler, st.Expressible ∧ ReadsBack style st) :
    ReadsBack style (.attempt body (some handler) l) := by
  intro raw p s rest hs
  obtain ⟨q, s₁, rfl, hs⟩ := hs
  obtain ⟨s₂, hbody, e, s₃, rfl, hs⟩ := spells_append.1 hs
  obtain ⟨s₄, hhandler, hclose⟩ := spells_append.1 hs
  obtain ⟨c, rfl⟩ := spells_singleton.1 hclose
  obtain ⟨body', hb', hrb⟩ :=
    reads_block hb [.kwExcept, .kwEndTry] (by decide) hbody (stops_next (by decide))
  obtain ⟨handler', hh', hrh⟩ :=
    reads_block hh [.kwEndTry] (by decide) hhandler (stops_next (by decide))
  have hlb := hbody.length_eq
  rw [length] at hlb
  refine ⟨.attempt body' (some handler') (some q), by rw [Stmt.unlocated, hb', hh', Stmt.unlocated],
    fun n hn => ?_⟩
  rw [length] at hn
  obtain ⟨m, rfl⟩ : ∃ m, n = m + 1 := ⟨n - 1, by omega⟩
  show (block m [.kwExcept, .kwEndTry] s₁ >>= _) = _
  rw [hrb m (by omega)]
  show (block m [.kwEndTry] s₃ >>= _) = _
  rw [hrh m (by omega)]
  rfl

/-- A statement of a keyword and at most one expression. -/
theorem readsBack_optional {k : Keyword} {make : Option Expr → Option Position → Stmt}
    {v : Option Expr} {l : Option Position} (hv : ∀ e ∈ v, e.Expressible)
    (hprint : (make v l).print style = .ofKeyword k :: Printer.optional style v)
    (hunlocated : ∀ v' p, v'.map Expr.unlocated = v.map Expr.unlocated →
      (make v' p).unlocated = (make v l).unlocated)
    (hread : ∀ n raw p s, statement (n + 1) (.next ⟨.keyword k, raw, p⟩ s) =
      optionalExpression n s >>= fun r => .ok ([make r.1 (some p)], r.2)) :
      ReadsBack style (make v l) := by
  intro raw p s rest hs
  rw [hprint] at hs
  obtain ⟨q, s₁, rfl, hs⟩ := hs
  obtain ⟨v', hv', hr⟩ := reads_optional hv hs
  refine ⟨make v' (some q), hunlocated v' _ hv', fun n hn => ?_⟩
  rw [length] at hn
  obtain ⟨m, rfl⟩ : ∃ m, n = m + 1 := ⟨n - 1, by omega⟩
  exact (hread m _ q s₁).trans (by rw [hr m (by omega)]; rfl)

/-- A statement of one keyword. -/
theorem readsBack_word {k : Keyword} {make : Option Position → Stmt} (l : Option Position)
    (hprint : (make l).print style = [.ofKeyword k])
    (hunlocated : ∀ p, (make p).unlocated = (make l).unlocated)
    (hread : ∀ n raw p s, statement (n + 1) (.next ⟨.keyword k, raw, p⟩ s) =
      .ok ([make (some p)], s)) :
    ReadsBack style (make l) := by
  intro raw p s rest hs
  rw [hprint] at hs
  obtain ⟨q, rfl⟩ := spells_singleton.1 hs
  refine ⟨make (some q), hunlocated _, fun n hn => ?_⟩
  obtain ⟨m, rfl⟩ : ∃ m, n = m + 1 := ⟨n - 1, by omega⟩
  exact hread m _ q _

/-- **Written statements are read back** up to positions. -/
theorem readsBack {st : Stmt} (h : st.Expressible) : ReadsBack style st := by
  induction h with
  | declare hn hv => exact readsBack_declare hv
  | routine hn hp hb ih => exact readsBack_routine hp fun st hst => ⟨hb st hst, ih st hst⟩
  | assign ht htarget hv => exact readsBack_assign ht htarget hv
  | call hn ha => exact readsBack_call hn ha
  | method ho hn ha => exact readsBack_method ho hn ha
  | conditional hc hb hcs hss ihb ihs =>
    exact readsBack_conditional hc (fun st hst => ⟨hb st hst, ihb st hst⟩) hcs fun st hst =>
      ⟨hss st hst, ihs st hst⟩
  | forTo hn hf hl hb ih => exact readsBack_forTo hf hl fun st hst => ⟨hb st hst, ih st hst⟩
  | forEach hn hc hb ih => exact readsBack_forEach hc fun st hst => ⟨hb st hst, ih st hst⟩
  | whileDo hc hb ih => exact readsBack_whileDo hc fun st hst => ⟨hb st hst, ih st hst⟩
  | ret hv =>
    refine readsBack_optional hv rfl (fun v' p hv' => ?_) fun _ _ _ _ => rfl
    rw [Stmt.unlocated, hv', Stmt.unlocated]
  | @brk l => exact readsBack_word l rfl (fun _ => rfl) fun _ _ _ _ => rfl
  | @cont l => exact readsBack_word l rfl (fun _ => rfl) fun _ _ _ _ => rfl
  | @attempt body handler l hb hh ihb ihh =>
    have hbody : ∀ st ∈ body, st.Expressible ∧ ReadsBack style st :=
      fun st hst => ⟨hb st hst, ihb st hst⟩
    cases handler with
    | none => exact readsBack_attempt hbody
    | some handler =>
      exact readsBack_attemptWith hbody fun st hst =>
        ⟨hh handler rfl st hst, ihh handler rfl st hst⟩
  | raise hv =>
    refine readsBack_optional hv rfl (fun v' p hv' => ?_) fun _ _ _ _ => rfl
    rw [Stmt.unlocated, hv', Stmt.unlocated]

end Parser

/-- **Reading undoes writing.** The tokens of an expressible program, at whatever positions, are
read as the program up to positions. -/
theorem Program.program_of_print (style : NumberStyle) {p : Program} (hp : p.Expressible)
    {s : Stream} (hs : s.tokens.map Token.piece = p.print style) :
    ∃ q, Parser.program s = .ok q ∧ Program.unlocated q = p.unlocated := by
  have hspells := Stream.spells_of_tokens hs
  obtain ⟨q, hq, hr⟩ := Parser.reads_block (fun st hst => ⟨hp st hst, Parser.readsBack (hp st hst)⟩)
    [] (by simp) hspells (by rintro _ ⟨⟩)
  refine ⟨q, ?_, ?_⟩
  · rw [Parser.program, hr s.depth (by rw [Stream.depth]; omega)]
    rfl
  · rw [Program.unlocated, Program.unlocated, ← Stmt.unlocatedAll_eq_map,
      ← Stmt.unlocatedAll_eq_map, hq]

/-- A conditional with an empty last branch, whose condition and assignment need parentheses. -/
theorem Program.program_of_print_conditional :
    ∃ p : Program,
      p = [.conditional (.unary .not
        (.binary .or (.ident [0x61] none) (.ident [0x62] none) none) none)
          [.assign (.member (.ident [0x61] none) [0x62] none) (.binary .sub (.ident [0x62] none)
            (.binary .sub (.call (.ident [0x61] none) [.undefined none] none)
              (.number (Numeral.toFloat [0x31]) none) none) none) none] (.otherwise []) none] ∧
      p.Expressible ∧
      ∃ (style : NumberStyle) (s : Stream), s.tokens.map Token.piece = p.print style ∧
        ∃ q, Parser.program s = .ok q ∧ Program.unlocated q = p.unlocated := by
  refine ⟨_, rfl, (and_iff_left_of_imp fun hp => ?_).2 ?_⟩
  · obtain ⟨style⟩ := NumberStyle.nonempty
    obtain ⟨s, hs⟩ := Stream.exists_tokens (Program.print style _)
    exact ⟨style, s, hs, Program.program_of_print style hp hs⟩
  · have a : Text.IsIdentifier [0x61] := ⟨⟨rfl, by simp⟩, rfl⟩
    have b : Text.IsIdentifier [0x62] := ⟨⟨rfl, by simp⟩, rfl⟩
    have one : Text.IsNumeral [0x31] := .inl ⟨by simp, by simp [Text.isDigit]⟩
    rintro st (_ | ⟨_, ⟨⟩⟩)
    refine .conditional (.unary (.binary (.ident a) (.ident b))) ?_ (by rintro e ⟨⟩)
      (by rintro st ⟨⟩)
    rintro st (_ | ⟨_, ⟨⟩⟩)
    refine .assign (.member (.ident a) b.1) rfl
      (.binary (.ident b) (.binary (.call (.ident a) ?_) (.number one)))
    rintro e (_ | ⟨_, ⟨⟩⟩)
    exact .undefined

end Gradual
