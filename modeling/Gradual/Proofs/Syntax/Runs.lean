import Gradual.Proofs.Syntax.Outcome

/-!
# Runs of the parser

One statement for each function of the parser, which says all that its callers and the theorems on
whole modules need: how much depth is enough, how many tokens are left at most, which phrase the
tokens are written for that it took, and that nothing else decides its outcome (`Parser.Outcome`).

Sixteen for every token that is left are enough, with a little more for the calls that read no
token: every other call is made behind a token, and what one call leaves is shorter than what it was
given.
-/

namespace Gradual

namespace Parser

open Gradual.Stream (prepend prepend_append)

/-! ## Expressions -/

/-- Tokens behind an operand that make an expression of it, whatever the operand is written with. -/
def Extends (level : Level) (operand : Expr) (ys : List Token) (e : Expr) : Prop :=
  ∀ xs, Derives xs (.expression level operand) → Derives (xs ++ ys) (.expression level e)

/-- No tokens leave an operand as it is. -/
theorem Extends.refl (level : Level) (e : Expr) : Extends level e [] e := by
  intro xs hxs
  rwa [List.append_nil]

mutual

/-- An expression is read from tokens that are written for it at its level. By recursion on the
depth, for all functions that read expressions at once: each looks at the first token, and goes on
with functions whose depth is one less. -/
theorem outcome_expression (n : Nat) (level : Level) (s : Stream) :
    Outcome n (16 * s.length + 9 - level.strength) s.length false
      (fun ts e => Derives ts (.expression level e)) (fun _ m => expression m level) s
      (expression n level s) := by
  have hstrength := level.strength_le
  match n with
  | 0 => exact .cut rfl (by omega)
  | n + 1 =>
    refine .succ (k := 16 * s.length + 8 - level.strength) ?_ (by omega)
    have binary : level ≠ .access → Outcome n (16 * s.length + 8 - level.strength) s.length false
        (fun ts e => Derives ts (.expression level e))
        (fun _ m s' => expression m level.tighter s' >>= fun r => operations m level r.1 r.2) s
        (expression n level.tighter s >>= fun r => operations n level r.1 r.2) := by
      intro hl
      have htighter := level.strength_tighter hl
      refine (outcome_expression n level.tighter s).bind (by omega) fun xs left r hr hxs => ?_
      refine (outcome_operations n level left r).weaken (by omega) (by omega) ?_
      exact fun ys e _ _ hys => hys xs (.tighter hxs)
    cases level with
    | negation =>
      have hnext : Outcome n (16 * s.length + 6) s.length false
          (fun ts e => Derives ts (.expression .negation e)) (fun _ m => expression m .comparison) s
          (expression n .comparison s) :=
        (outcome_expression n .comparison s).weaken (Nat.le_refl _) (Nat.le_refl _)
          fun _ _ _ _ h => .tighter h
      cases s with
      | finish p => exact hnext.congr fun _ _ _ _ _ hheads => by cases hheads <;> rfl
      | next t rest =>
        rcases t with ⟨l, raw, p⟩
        cases l with
        | keyword w =>
          cases w with
          | kwNot =>
            refine .next (fun _ _ _ _ => rfl) ?_
            refine (outcome_expression n .negation rest).last ?_ (Nat.le_succ _) fun ts e hts => ?_
            · rw [Stream.length, Level.strength]
              omega
            · exact ⟨_, .negation rfl hts, fun _ => rfl, fun _ _ _ => rfl⟩
          | _ => exact hnext.congr fun _ _ _ _ _ hheads => by cases hheads; rfl
        | _ => exact hnext.congr fun _ _ _ _ _ hheads => by cases hheads; rfl
    | sign =>
      have hnext : Outcome n (16 * s.length + 2) s.length false
          (fun ts e => Derives ts (.expression .sign e)) (fun _ m => expression m .access) s
          (expression n .access s) :=
        (outcome_expression n .access s).weaken (Nat.le_refl _) (Nat.le_refl _)
          fun _ _ _ _ h => .tighter h
      cases s with
      | finish p => exact hnext.congr fun _ _ _ _ _ hheads => by cases hheads <;> rfl
      | next t rest =>
        have hrest := outcome_expression n .sign rest
        have hdepth : 16 * rest.length + 9 - Level.sign.strength ≤
            16 * (Stream.next t rest).length + 8 - Level.sign.strength := by
          rw [Stream.length, Level.strength]
          omega
        rcases t with ⟨l, raw, p⟩
        cases l with
        | mark w =>
          cases w with
          | minus =>
            refine .next (fun _ _ _ _ => rfl) (hrest.last hdepth (Nat.le_succ _) fun ts e hts => ?_)
            exact ⟨_, .minus rfl hts, fun _ => rfl, fun _ _ _ => rfl⟩
          | plus =>
            refine .next (fun _ _ _ _ => rfl) (hrest.weaken hdepth (Nat.le_succ _) ?_)
            exact fun _ _ _ _ hts => .plus rfl hts
          | _ => exact hnext.congr fun _ _ _ _ _ hheads => by cases hheads; rfl
        | _ => exact hnext.congr fun _ _ _ _ _ hheads => by cases hheads; rfl
    | access =>
      refine (outcome_primary n s).bind (Nat.le_refl _) fun xs e r hr hxs => ?_
      refine (outcome_accesses n e r).weaken ?_ hr ?_
      · rw [Level.strength]
        omega
      · exact fun ys e' _ _ hys => hys xs hxs
    | disjunction => exact binary Level.noConfusion
    | conjunction => exact binary Level.noConfusion
    | comparison => exact binary Level.noConfusion
    | sum => exact binary Level.noConfusion
    | product => exact binary Level.noConfusion

/-- The operators behind an operand extend what is written for it. -/
theorem outcome_operations (n : Nat) (level : Level) (left : Expr) (s : Stream) :
    Outcome n (16 * s.length + 1) (s.length + 1) false
      (Extends level left) (fun g m => operations m level (left.relocated g.move)) s
      (operations n level left s) := by
  match n with
  | 0 => exact .cut rfl (by omega)
  | n + 1 =>
    refine .succ (k := 16 * s.length) ?_ (Nat.le_refl _)
    have hstop : Outcome n (16 * s.length) (s.length + 1) false
        (Extends level left) (fun g _ s' => .ok (left.relocated g.move, s')) s (.ok (left, s)) :=
      .pure (fun _ _ _ => rfl) (Nat.lt_succ_self _) (.refl level left)
    cases s with
    | finish p =>
      refine hstop.congr fun g m s' _ _ hheads => ?_
      -- A semicolon is no operator.
      cases hheads <;> cases level <;> rfl
    | next t rest =>
      rcases t with ⟨l, raw, p⟩
      cases hop : level.operator? l with
      | none =>
        rw [operations, hop]
        refine hstop.congr fun g m s' _ _ hheads => ?_
        cases hheads
        rw [operations, hop]
      | some op =>
        refine .next (fun _ _ _ _ => by simp only [operations, hop]) ?_
        simp only [operations, hop]
        rw [Stream.length]
        refine (outcome_expression n level.tighter rest).bind (by omega) fun ys right r hr hys => ?_
        refine (outcome_operations n level (.binary op left right (some p)) r).weaken (by omega)
          (by omega) fun zs e _ _ hzs xs hxs => ?_
        simpa using hzs _ (.operation (t := ⟨l, raw, p⟩) hop hxs hys)

/-- Members, calls and indices behind an operand extend what is written for it. -/
theorem outcome_accesses (n : Nat) (e : Expr) (s : Stream) :
    Outcome n (16 * s.length + 1) (s.length + 1) false
      (Extends .access e) (fun g m => accesses m (e.relocated g.move)) s (accesses n e s) := by
  match n with
  | 0 => exact .cut rfl (by omega)
  | n + 1 =>
    refine .succ (k := 16 * s.length) ?_ (Nat.le_refl _)
    have hstop : Outcome n (16 * s.length) (s.length + 1) false
        (Extends .access e) (fun g _ s' => .ok (e.relocated g.move, s')) s (.ok (e, s)) :=
      .pure (fun _ _ _ => rfl) (Nat.lt_succ_self _) (.refl .access e)
    cases s with
    | finish p => exact hstop.congr fun _ _ _ _ _ hheads => by cases hheads <;> rfl
    | next t rest =>
      rcases t with ⟨l, raw, p⟩
      cases l with
      | mark w =>
        cases w with
        | dot =>
          have hfail : Outcome n (16 * (rest.length + 1)) (rest.length + 1 + 1) false
              (fun ys => Extends .access e (⟨.mark .dot, raw, p⟩ :: ys))
              (fun _ _ s' => s'.fail (.expectedName .member s'.raw?)) rest
              (rest.fail (.expectedName .member rest.raw?)) :=
            .fail (.expectedName .member) (fun _ => rfl) (fun _ _ => rfl) rest
          have hmember : ∀ l word q u, rest = .next ⟨l, word, q⟩ u → Token.IsWord ⟨l, word, q⟩ →
              Outcome n (16 * (rest.length + 1)) (rest.length + 1 + 1) false
                (fun ys => Extends .access e (⟨.mark .dot, raw, p⟩ :: ⟨l, word, q⟩ :: ys))
                (fun g m => accesses m (.member (e.relocated g.move) word (some (g.move p)))) u
                (accesses n (.member e word (some p)) u) := by
            rintro l word q u rfl hword
            refine (outcome_accesses n (.member e word (some p)) u).weaken ?_ ?_ ?_
            · rw [Stream.length]
              omega
            · rw [Stream.length]
              omega
            · intro ys e' _ _ hys xs hxs
              simpa using hys _ (.member (d := ⟨.mark .dot, raw, p⟩) hxs rfl hword)
          cases rest with
          | finish q =>
            refine .next (fun _ _ _ _ => rfl) (hfail.congr fun _ _ _ _ _ hheads => ?_)
            cases hheads <;> rfl
          | next u rest =>
            rcases u with ⟨l, word, q⟩
            cases l with
            | identifier name =>
              exact .dot (fun _ _ _ _ => rfl) (hmember _ word q rest rfl (.inl ⟨name, rfl⟩))
            | keyword w =>
              exact .dot (fun _ _ _ _ => rfl) (hmember _ word q rest rfl (.inr ⟨w, rfl⟩))
            | _ =>
              refine .next (fun _ _ _ _ => rfl) (hfail.congr fun _ _ _ _ _ hheads => ?_)
              cases hheads
              rfl
        | openParen =>
          refine .next (fun _ _ _ _ => rfl) ?_
          rw [Stream.length]
          refine (outcome_arguments n rest).bind (by omega) fun ys args r hr hys => ?_
          have hcall := outcome_accesses n (.call e args e.loc) r
          -- A call stands where its callee does, also after both were moved.
          simp only [Expr.relocated, ← Expr.loc_relocated] at hcall
          refine hcall.weaken (by omega) (by omega) fun zs e' _ _ hzs xs hxs => ?_
          simpa using hzs _ (.call (o := ⟨.mark .openParen, raw, p⟩) hxs rfl hys)
        | openBracket =>
          refine .next (fun _ _ _ _ => rfl) ?_
          rw [Stream.length]
          refine (outcome_expression n .disjunction rest).bind (by omega) fun ys key r hr hys => ?_
          refine .expectMark (by decide) fun c u hc hu => ?_
          refine (outcome_accesses n (.index e key (some p)) u).weaken (by omega) (by omega) ?_
          intro zs e' _ _ hzs xs hxs
          simpa using hzs _ (.index (o := ⟨.mark .openBracket, raw, p⟩) hxs rfl hys hc)
        | _ => exact hstop.congr fun _ _ _ _ _ hheads => by cases hheads; rfl
      | _ => exact hstop.congr fun _ _ _ _ _ hheads => by cases hheads; rfl

/-- Arguments are read with the parenthesis that closes them. -/
theorem outcome_arguments (n : Nat) (s : Stream) :
    Outcome n (16 * s.length + 12) s.length false (fun ts args => Derives ts (.arguments args))
      (fun _ => arguments) s (arguments n s) := by
  match n with
  | 0 => exact .cut rfl (by omega)
  | n + 1 =>
    refine .succ (k := 16 * s.length + 11) ?_ (Nat.le_refl _)
    by_cases hs : s.startsWithMark .closeParen = true
    · rw [arguments, if_pos hs]
      cases s with
      | finish p => cases hs
      | next t rest =>
        rcases t with ⟨l, raw, p⟩
        obtain rfl : l = .mark .closeParen := Option.some.inj (beq_iff_eq.1 hs)
        refine .next (fun _ _ _ _ => rfl) ?_
        exact .pure (fun _ _ _ => rfl) (Nat.lt_succ_self _) (.noArguments rfl)
    · rw [arguments, if_neg hs]
      refine .congr ?_ fun g m s' _ _ hheads => by
        rw [arguments, hheads.startsWithMark_eq (by decide), if_neg hs]
      refine (outcome_argumentList n s).weaken (Nat.le_refl _) (Nat.le_refl _) ?_
      rintro ts args rest rfl hts
      refine .someArguments ?_ hts
      intro t ht hclose
      cases ts with
      | nil => cases ht
      | cons u us =>
        cases ht
        exact hs (Stream.startsWithMark_iff.2 ⟨t, hclose, rfl⟩)

/-- One or more arguments are read with the parenthesis that closes them. -/
theorem outcome_argumentList (n : Nat) (s : Stream) :
    Outcome n (16 * s.length + 11) s.length false (fun ts args => Derives ts (.argumentList args))
      (fun _ => argumentList) s (argumentList n s) := by
  match n with
  | 0 => exact .cut rfl (by omega)
  | n + 1 =>
    refine .succ (k := 16 * s.length + 10) ?_ (Nat.le_refl _)
    refine (outcome_argument n s).seq (Nat.le_refl _) (fun ho => nomatch ho) ?_
    intro xs arg r hs hr hxs
    refine .take (by decide) (fun d u hd hcomma hu => ?_) ?_
    · refine (outcome_argumentList n u).last (by omega) (by omega) fun ys args hys => ?_
      subst hd
      exact ⟨_, .moreArguments (hxs d u hs) hcomma hys, fun _ => rfl, fun _ _ _ => rfl⟩
    · refine .expect (by decide) (.expectedMark .closeParen) (fun _ => rfl) (fun _ _ => rfl) ?_
      intro c u hc hclose hu
      subst hc
      exact .pure (fun _ _ _ => rfl) (by omega) (.lastArgument (hxs c u hs) hclose)

/-- An argument is read up to the token that ends it. -/
theorem outcome_argument (n : Nat) (s : Stream) :
    Outcome n (16 * s.length + 10) (s.length + 1) false
      (fun ts e => ∀ stop rest, s = prepend ts (.next stop rest) → Derives ts (.argument stop e))
      (fun _ => argument) s (argument n s) := by
  match n with
  | 0 => exact .cut rfl (by omega)
  | n + 1 =>
    refine .succ (k := 16 * s.length + 9) ?_ (Nat.le_refl _)
    by_cases hs : (s.startsWithMark .comma || s.startsWithMark .closeParen) = true
    · rw [argument, if_pos hs]
      have hnext : s.lexeme? ≠ none := by
        intro hnone
        rw [Stream.startsWithMark, Stream.startsWithMark, hnone] at hs
        cases hs
      have hskip : Outcome n (16 * s.length + 9) (s.length + 1) false
          (fun ts e => ∀ stop rest, s = prepend ts (.next stop rest) →
            Derives ts (.argument stop e))
          (fun g _ s' => .ok (.undefined (some (g.move s.position)), s')) s
          (.ok (.undefined (some s.position), s)) := by
        refine .pure (fun _ _ _ => rfl) (Nat.lt_succ_self _) ?_
        rintro stop rest rfl
        exact .skipped
      refine hskip.congr ?_
      · intro g m s' _ _ hheads
        rw [argument, hheads.startsWithMark_eq (by decide), hheads.startsWithMark_eq (by decide),
          if_pos hs, hheads.position_eq fun _ => hnext]
    · rw [argument, if_neg hs]
      refine .congr ?_ fun g m s' _ _ hheads => by
        rw [argument, hheads.startsWithMark_eq (by decide), hheads.startsWithMark_eq (by decide),
          if_neg hs]
      exact (outcome_expression n .disjunction s).weaken (Nat.le_refl _) (Nat.le_succ _)
        fun ts e _ _ hts stop _ _ => .given hts

/-- Literals, names, constructors, choices and what is in parentheses. -/
theorem outcome_primary (n : Nat) (s : Stream) :
    Outcome n (16 * s.length + 1) s.length false
      (fun ts e => Derives ts (.expression .access e)) (fun _ => primary) s (primary n s) := by
  match n with
  | 0 => exact .cut rfl (by omega)
  | n + 1 =>
    refine .succ (k := 16 * s.length) ?_ (Nat.le_refl _)
    have hfail : Outcome n (16 * s.length) s.length false
        (fun ts e => Derives ts (.expression .access e))
          (fun _ _ s' => s'.fail (.noExpression s'.raw?)) s
        (s.fail (.noExpression s.raw?)) :=
      .fail .noExpression (fun _ => rfl) (fun _ _ => rfl) s
    cases s with
    | finish p => exact hfail.congr fun _ _ _ _ _ hheads => by cases hheads <;> rfl
    | next t rest =>
      rw [Stream.length] at hfail ⊢
      have hlt := Nat.lt_succ_self rest.length
      rcases t with ⟨l, raw, p⟩
      cases l with
      | number digits => exact .next (fun _ _ _ _ => rfl) (.pure (fun _ _ _ => rfl) hlt (.atom rfl))
      | string value => exact .next (fun _ _ _ _ => rfl) (.pure (fun _ _ _ => rfl) hlt (.atom rfl))
      | date value => exact .next (fun _ _ _ _ => rfl) (.pure (fun _ _ _ => rfl) hlt (.atom rfl))
      | identifier name =>
        exact .next (fun _ _ _ _ => rfl) (.pure (fun _ _ _ => rfl) hlt (.atom rfl))
      | keyword w =>
        cases w with
        | kwTrue => exact .next (fun _ _ _ _ => rfl) (.pure (fun _ _ _ => rfl) hlt (.atom rfl))
        | kwFalse => exact .next (fun _ _ _ _ => rfl) (.pure (fun _ _ _ => rfl) hlt (.atom rfl))
        | kwUndefined => exact .next (fun _ _ _ _ => rfl) (.pure (fun _ _ _ => rfl) hlt (.atom rfl))
        | kwNull => exact .next (fun _ _ _ _ => rfl) (.pure (fun _ _ _ => rfl) hlt (.atom rfl))
        | kwNew =>
          refine .next (fun _ _ _ _ => rfl) (.expectName fun t name r ht hr => ?_)
          refine .takeMark (by decide) (fun o u ho hu => ?_) ?_
          · refine (outcome_arguments n u).last (by omega) (by omega) fun ts args hts => ?_
            exact ⟨_, .newWith rfl ht ho hts, fun _ => rfl, fun _ _ _ => rfl⟩
          · exact .pure (fun _ _ _ => rfl) (by omega) (.new rfl ht)
        | _ => exact hfail.congr fun _ _ _ _ _ hheads => by cases hheads; rfl
      | mark w =>
        cases w with
        | openParen =>
          refine .next (fun _ _ _ _ => rfl) ?_
          refine (outcome_expression n .disjunction rest).bind (by omega) fun ts e r hr hts => ?_
          refine .expectMark (by decide) fun c u hc hu => ?_
          exact .pure (fun _ _ _ => rfl) (by omega) (.parentheses rfl hts hc)
        | question =>
          refine .next (fun _ _ _ _ => rfl) (.expectMark (by decide) fun o s₁ ho h₁ => ?_)
          refine (outcome_expression n .disjunction s₁).bind
            (by omega) fun xs condition s₂ h₂ hxs => ?_
          refine .expectMark (by decide) fun d s₃ hd h₃ => ?_
          refine (outcome_expression n .disjunction s₃).bind
            (by omega) fun ys whenTrue s₄ h₄ hys => ?_
          refine .expectMark (by decide) fun d' s₅ hd' h₅ => ?_
          refine (outcome_expression n .disjunction s₅).bind
            (by omega) fun zs whenFalse s₆ h₆ hzs => ?_
          refine .expectMark (by decide) fun c s₇ hc h₇ => ?_
          exact .pure (fun _ _ _ => rfl) (by omega) (.choice rfl ho hxs hd hys hd' hzs hc)
        | _ => exact hfail.congr fun _ _ _ _ _ hheads => by cases hheads; rfl

end

/-! ## Declarations -/

/-- An initial value is read with its equals sign, or nothing is. -/
theorem outcome_initialValue (n : Nat) (level : Level) (s : Stream) :
    Outcome n (16 * s.length + 9) (s.length + 1) false
      (fun ts v => Derives ts (.initialValue level v)) (fun _ m => initialValue m level) s
      (initialValue n level s) := by
  refine .takeMark (by decide) (fun t r ht hr => ?_) ?_
  · refine (outcome_expression n level r).last (by omega) (by omega) fun ts e hts => ?_
    exact ⟨_, .value ht hts, fun _ => rfl, fun _ _ _ => rfl⟩
  · exact .pure (fun _ _ _ => rfl) (Nat.lt_succ_self _) .noValue

/-- Declared variables are read as long as a comma follows. -/
theorem outcome_declarations (n : Nat) (s : Stream) :
    Outcome n (16 * s.length + 1) s.length false (fun ts ds => Derives ts (.declarations ds))
      (fun _ => declarations) s (declarations n s) := by
  induction n generalizing s with
  | zero => exact .cut rfl (by omega)
  | succ n ih =>
    refine .succ (k := 16 * s.length) (.expectName fun t name s₁ ht h₁ => ?_) (Nat.le_refl _)
    refine (outcome_initialValue n .disjunction s₁).bind (by omega) fun xs v s₂ h₂ hxs => ?_
    dsimp only
    refine .flag .kwExport fun exported ys s₃ hs h₃ hys => ⟨_, fun _ _ _ _ hs' => by rw [hs'], ?_⟩
    rw [hs]
    dsimp only
    have hvar := Derives.declared ht hxs hys
    refine .takeMark (by decide) (fun d u hd hu => ?_) ?_
    · refine (ih u).last (by omega) (by omega) fun zs ds hzs => ?_
      refine ⟨.declare name exported v (some t.position) :: ds, ?_, fun _ => rfl, fun _ _ _ => rfl⟩
      simpa using Derives.moreVariables hvar hd hzs
    · refine .pure (fun _ _ _ => rfl) (by omega) ?_
      simpa using Derives.lastVariable hvar

/-- Parameters are read as long as a comma follows, and then the parenthesis that closes them. -/
theorem outcome_parameterList (n : Nat) (s : Stream) :
    Outcome n (16 * s.length + 1) s.length false
      (fun ts ps => ∃ us c, ts = us ++ [c] ∧ c.lexeme = .mark .closeParen ∧
        Derives us (.parameterList ps))
      (fun _ => parameterList) s (parameterList n s) := by
  induction n generalizing s with
  | zero => exact .cut rfl (by omega)
  | succ n ih =>
    refine .succ (k := 16 * s.length) ?_ (Nat.le_refl _)
    refine .flag .kwVal fun byValue xs s₁ hs h₁ hxs =>
      ⟨_, fun _ _ _ _ hs' => by rw [parameterList, hs'], ?_⟩
    rw [parameterList, hs]
    refine .expectName fun t name s₂ ht h₂ => ?_
    refine (outcome_initialValue n .sign s₂).bind (by omega) fun ys v s₃ h₃ hys => ?_
    have hparam := Derives.parameter hxs ht hys
    refine .takeMark (by decide) (fun d u hd hu => ?_) (.expectMark (by decide) fun c u hc hu => ?_)
    · refine (ih u).last (by omega) (by omega) fun zs ps hzs => ?_
      obtain ⟨us, c, rfl, hc, hus⟩ := hzs
      refine ⟨⟨name, byValue, v⟩ :: ps, ⟨_, c, ?_, hc, .moreParameters hparam hd hus⟩, fun _ => rfl,
        fun _ _ _ => rfl⟩
      simp
    · refine .pure (fun _ _ _ => rfl) (by omega) ⟨_, c, ?_, hc, .lastParameter hparam⟩
      simp

/-- Parameters are read in their parentheses. -/
theorem outcome_parameters (n : Nat) (s : Stream) :
    Outcome n (16 * s.length + 1) s.length false (fun ts ps => Derives ts (.parameters ps))
      (fun _ => parameters) s (parameters n s) := by
  refine .expectMark (by decide) fun o r ho hr => ?_
  refine .takeMark (by decide) (fun c u hc hu => ?_) ?_
  · exact .pure (fun _ _ _ => rfl) (by omega) (.noParameters ho hc)
  · refine (outcome_parameterList n r).weaken (by omega) (by omega) ?_
    rintro _ ps _ _ ⟨us, c, rfl, hc, hus⟩
    exact .someParameters ho hus hc

/-! ## Simple statements -/

/-- No expression is read at the end of the stream. -/
theorem expression_finish (n : Nat) (level : Level) (p : Position) :
    ∃ e, expression n level (.finish p) = .error e := by
  have h := outcome_expression n level (.finish p)
  generalize expression n level (.finish p) = x at h ⊢
  generalize hs : Stream.finish p = s at h
  cases h with
  | ok taken hlt =>
    rw [← hs] at hlt
    exact absurd hlt (Nat.not_lt_zero _)
  | error => exact ⟨_, rfl⟩
  | cut => exact ⟨_, rfl⟩

/-- What a complete access makes as a statement is moved with it. -/
theorem derives_of_callStatement? {t : Token} {ts : List Token} {e : Expr} {st : Stmt}
    (h : callStatement? t.position e = some st) (he : Derives (t :: ts) (.expression .access e)) :
    Derives (t :: ts) (.statement [st]) := by
  rw [callStatement?.eq_def] at h
  split at h
  · cases h
    exact .callStatement he
  · cases h
    exact .methodStatement he
  · cases h

/-- An assignment or a call. It stands where its first token does. -/
theorem outcome_simpleStatement (n : Nat) (s : Stream) :
    Outcome n (16 * s.length + 2) s.length false (fun ts st => Derives ts (.statement [st]))
      (fun _ => simpleStatement) s (simpleStatement n s) := by
  have hend : s.lexeme? = none → ∃ e, simpleStatement n s = .error e := by
    intro hnone
    cases s with
    | finish p =>
      obtain ⟨e, he⟩ := expression_finish n .access p
      exact ⟨e, by rw [simpleStatement, he]; rfl⟩
    | next => cases hnone
  refine .congr ?_ fun g m s' _ hstrict hheads => by
    rw [simpleStatement, hheads.position_eq fun hon hnone => hstrict (.inr (hend hnone)) hon hnone]
  rw [simpleStatement]
  refine (outcome_expression n .access s).seq (Nat.le_refl _) (fun ho => nomatch ho) ?_
  rintro ts target r rfl hr hts
  obtain ⟨t, ts, rfl⟩ := List.exists_cons_of_ne_nil hts.expression_ne_nil
  refine .takeMark (by decide) (fun d u hd hu => ?_) ?_
  · refine .congr ?_ fun g m s' _ _ _ => by
      rw [Expr.relocate_eq, Expr.isTarget_relocated]
    by_cases htarget : target.isTarget = true
    · simp only [if_pos htarget]
      refine (outcome_expression n .disjunction u).last (by omega) (by omega) fun ys v hys => ?_
      exact ⟨_, .assign hts htarget hd hys, fun _ => rfl, fun _ _ _ => rfl⟩
    · simp only [if_neg htarget]
      exact .fail (fun _ => .invalidTarget) (fun _ => rfl) (fun _ _ => rfl) u
  · refine .congr ?_ fun g m s' _ _ _ => by
      rw [Expr.relocate_eq, callStatement?_relocated]
    have hposition : (prepend (t :: ts) r).position = t.position := rfl
    rw [hposition]
    cases hcall : callStatement? t.position target with
    | some call =>
      refine .pure (fun _ _ _ => rfl) hr ?_
      rw [List.append_nil]
      exact derives_of_callStatement? hcall hts
    | none => exact .fail .noStatement (fun _ => rfl) (fun _ _ => rfl) r

/-- An expression is read if one can start here. -/
theorem outcome_optionalExpression (n : Nat) (s : Stream) :
    Outcome n (16 * s.length + 9) (s.length + 1) false (fun ts v => Derives ts (.optional v))
      (fun _ => optionalExpression) s (optionalExpression n s) := by
  unfold optionalExpression
  by_cases hs : s.startsExpression = true
  · rw [if_pos hs]
    refine .congr ?_ fun g m s' _ _ hheads => by rw [hheads.startsExpression_eq, if_pos hs]
    refine (outcome_expression n .disjunction s).last (Nat.le_refl _)
      (Nat.le_succ _) fun ts e hts => ?_
    exact ⟨_, .someExpression hts, fun _ => rfl, fun _ _ _ => rfl⟩
  · rw [if_neg hs]
    refine .congr ?_ fun g m s' _ _ hheads => by rw [hheads.startsExpression_eq, if_neg hs]
    exact .pure (fun _ _ _ => rfl) (Nat.lt_succ_self _) .noExpression

/-! ## Blocks -/

/-- Nothing follows the branch of a conditional at the end of the stream. -/
theorem alternative_finish_bind (n : Nat) (p : Position) {α : Type}
    (f : Alternative × Stream → Except SyntaxError α) :
    ∃ e, (alternative n (.finish p) >>= f) = .error e := by
  cases n with
  | zero => exact ⟨_, rfl⟩
  | succ n => exact ⟨_, rfl⟩

/-- Semicolons in front belong to the block. -/
theorem derives_semicolons {semicolons ts : List Token} {ss : List Stmt}
    (hsemi : ∀ t ∈ semicolons, t.lexeme = .mark .semicolon) (h : Derives ts (.block ss)) :
    Derives (semicolons ++ ts) (.block ss) := by
  induction semicolons with
  | nil => exact h
  | cons t semicolons ih =>
    exact .semicolon (hsemi t List.mem_cons_self)
      (ih fun u hu => hsemi u (List.mem_cons_of_mem t hu))

mutual

/-- A block is read up to a keyword that closes it or the end of the stream. By recursion on the
depth, for all functions that read statements at once. -/
theorem outcome_block (n : Nat) (ends : List Keyword) (s : Stream) :
    Outcome n (16 * s.length + 4) (s.length + 1) true (fun ts ss => Derives ts (.block ss))
      (fun _ m => block m ends) s (block n ends s) := by
  match n with
  | 0 => exact .cut rfl (by omega)
  | n + 1 =>
    refine .succ (k := 16 * s.length + 3) ?_ (Nat.le_refl _)
    obtain ⟨⟨semicolons, hsemi, hs⟩, hnot⟩ := Stream.skipSemicolons_spec s
    rw [block]
    generalize s.skipSemicolons = r at hs hnot ⊢
    subst hs
    have hlength := Stream.length_le_prepend semicolons r
    refine .prepend semicolons ?_ fun g m s' rest' _ hstrict hup => by
      rw [block, hup.skipSemicolons hsemi hnot (hstrict (.inl rfl))]
    have hstop : Outcome n (16 * (prepend semicolons r).length + 3)
        ((prepend semicolons r).length + 1) true
        (fun more ss => Derives (semicolons ++ more) (.block ss)) (fun _ _ s' => .ok ([], s')) r
        (.ok ([], r)) :=
      .pure (fun _ _ _ => rfl) (by omega) (derives_semicolons hsemi .empty)
    dsimp only
    cases hl : r.lexeme? with
    | none =>
      refine hstop.congr fun g m s' _ hstrict hheads => ?_
      cases hheads with
      | finish => rfl
      | goesOn hon => exact absurd hl (hstrict (.inl rfl) hon)
      | next => cases hl
    | some l =>
      refine .congr ?_ fun g m s' _ _ hheads => by
        have hl' : s'.lexeme? = some l := by
          cases hheads with
          | finish | goesOn => cases hl
          | next => exact hl
        rw [hl']
      dsimp only
      by_cases hclose : (ends.any fun k => l = .keyword k) = true
      · simp only [if_pos hclose]
        exact hstop
      · simp only [if_neg hclose]
        refine (outcome_statement n r).bind (by omega) fun xs first u hu hxs => ?_
        dsimp only
        refine (outcome_block n ends u).last (by omega) (by omega) fun ys more hys => ?_
        refine ⟨first ++ more, derives_semicolons hsemi (.statement hxs hys), fun _ => rfl, ?_⟩
        intro g m rest
        exact congrArg (fun ss => Except.ok (ss, rest)) (Stmt.relocatedAll_append ..).symm

/-- A statement. A declaration of several variables counts as several. -/
theorem outcome_statement (n : Nat) (s : Stream) :
    Outcome n (16 * s.length + 3) s.length false (fun ts ss => Derives ts (.statement ss))
      (fun _ => statement) s (statement n s) := by
  match n with
  | 0 => exact .cut rfl (by omega)
  | n + 1 =>
    refine .succ (k := 16 * s.length + 2) ?_ (Nat.le_refl _)
    have hsimple : Outcome n (16 * s.length + 2) s.length false
        (fun ts ss => Derives ts (.statement ss))
        (fun _ m s' => simpleStatement m s' >>= fun r => .ok ([r.1], r.2)) s
        (simpleStatement n s >>= fun r => .ok ([r.1], r.2)) :=
      (outcome_simpleStatement n s).last (Nat.le_refl _) (Nat.le_refl _) fun ts st hts =>
        ⟨[st], hts, fun _ => rfl, fun _ _ _ => rfl⟩
    cases s with
    | finish p => exact hsimple.congr fun _ _ _ _ _ hheads => by cases hheads <;> rfl
    | next t rest =>
      rw [Stream.length] at hsimple ⊢
      have hlt := Nat.lt_succ_self rest.length
      rcases t with ⟨l, raw, p⟩
      cases l with
      | keyword w =>
        cases w with
        | kwVar =>
          refine .next (fun _ _ _ _ => rfl) ?_
          exact (outcome_declarations n rest).weaken (by omega) (by omega)
            fun _ _ _ _ hts => .varStatement rfl hts
        | kwProcedure =>
          refine .next (fun _ _ _ _ => rfl) ?_
          exact (outcome_routine n .procedure p rest).weaken (by omega) (by omega)
            fun _ _ _ _ hts => hts ⟨_, raw, p⟩ rfl rfl
        | kwFunction =>
          refine .next (fun _ _ _ _ => rfl) ?_
          exact (outcome_routine n .function p rest).weaken (by omega) (by omega)
            fun _ _ _ _ hts => hts ⟨_, raw, p⟩ rfl rfl
        | kwIf =>
          refine .next (fun _ _ _ _ => rfl) ?_
          refine (outcome_expression n .disjunction rest).bind (by omega) fun xs c s₁ h₁ hxs => ?_
          refine .expectWord fun t s₂ ht h₂ => ?_
          refine (outcome_block n branchEnds s₂).close (by omega)
            (fun _ q => alternative_finish_bind n q _) fun ys body s₃ h₃ hys => ?_
          refine (outcome_alternative n s₃).last (by omega) (by omega) fun zs a hzs => ?_
          exact ⟨_, .conditional rfl hxs ht hys hzs, fun _ => rfl, fun _ _ _ => rfl⟩
        | kwFor =>
          refine .next (fun _ _ _ _ => rfl) ?_
          refine .takeWord (fun e s₁ he h₁ => ?_) ?_
          · refine .expectName fun t name s₂ ht h₂ => ?_
            refine .expectWord fun i s₃ hi h₃ => ?_
            refine (outcome_expression n .disjunction s₃).bind (by omega) fun xs c s₄ h₄ hxs => ?_
            refine (outcome_loopBody n s₄).last (by omega) (by omega) fun ys body hys => ?_
            exact ⟨_, .forEach rfl he ht hi hxs hys, fun _ => rfl, fun _ _ _ => rfl⟩
          · refine .expectName fun t name s₁ ht h₁ => ?_
            refine .expectMark (by decide) fun e s₂ he h₂ => ?_
            refine (outcome_expression n .disjunction s₂).bind (by omega) fun xs a s₃ h₃ hxs => ?_
            refine .expectWord fun u s₄ hu h₄ => ?_
            refine (outcome_expression n .disjunction s₄).bind (by omega) fun ys z s₅ h₅ hys => ?_
            refine (outcome_loopBody n s₅).last (by omega) (by omega) fun zs body hzs => ?_
            exact ⟨_, .forTo rfl ht he hxs hu hys hzs, fun _ => rfl, fun _ _ _ => rfl⟩
        | kwWhile =>
          refine .next (fun _ _ _ _ => rfl) ?_
          refine (outcome_expression n .disjunction rest).bind (by omega) fun xs c s₁ h₁ hxs => ?_
          refine (outcome_loopBody n s₁).last (by omega) (by omega) fun ys body hys => ?_
          exact ⟨_, .whileDo rfl hxs hys, fun _ => rfl, fun _ _ _ => rfl⟩
        | kwReturn =>
          refine .next (fun _ _ _ _ => rfl) ?_
          refine (outcome_optionalExpression n rest).last (by omega) (by omega) fun ts v hts => ?_
          exact ⟨_, .ret rfl hts, fun _ => rfl, fun _ _ _ => rfl⟩
        | kwBreak => exact .next (fun _ _ _ _ => rfl) (.pure (fun _ _ _ => rfl) hlt (.brk rfl))
        | kwContinue => exact .next (fun _ _ _ _ => rfl) (.pure (fun _ _ _ => rfl) hlt (.cont rfl))
        | kwTry =>
          refine .next (fun _ _ _ _ => rfl) ?_
          refine (outcome_block n [.kwExcept, .kwEndTry] rest).close (by omega)
            (fun _ _ => ⟨_, rfl⟩) fun xs body s₁ h₁ hxs => ?_
          refine .takeWord (fun e s₂ he h₂ => ?_) ?_
          · refine (outcome_block n [.kwEndTry] s₂).close (by omega) (fun _ _ => ⟨_, rfl⟩)
              fun ys handler s₃ h₃ hys => ?_
            refine .expectWord fun c s₄ hc h₄ => ?_
            exact .pure (fun _ _ _ => rfl) (by omega) (.attemptWith rfl hxs he hys hc)
          · refine .expectWord fun c s₂ hc h₂ => ?_
            exact .pure (fun _ _ _ => rfl) (by omega) (.attempt rfl hxs hc)
        | kwRaise =>
          refine .next (fun _ _ _ _ => rfl) ?_
          refine (outcome_optionalExpression n rest).last (by omega) (by omega) fun ts v hts => ?_
          exact ⟨_, .raise rfl hts, fun _ => rfl, fun _ _ _ => rfl⟩
        | _ => exact hsimple.congr fun _ _ _ _ _ hheads => by cases hheads; rfl
      | _ => exact hsimple.congr fun _ _ _ _ _ hheads => by cases hheads; rfl

/-- A routine is read behind its opening keyword, with the keyword that closes it. -/
theorem outcome_routine (n : Nat) (kind : RoutineKind) (p : Position) (s : Stream) :
    Outcome n (16 * s.length + 5) s.length false
      (fun ts ss => ∀ k : Token, k.lexeme = .keyword kind.opening → k.position = p →
        Derives (k :: ts) (.statement ss))
      (fun g m => routine m kind (g.move p)) s (routine n kind p s) := by
  match n with
  | 0 => exact .cut rfl (by omega)
  | n + 1 =>
    refine .succ (k := 16 * s.length + 4) (.expectName fun t name s₁ ht h₁ => ?_) (Nat.le_refl _)
    refine (outcome_parameters n s₁).bind (by omega) fun xs params s₂ h₂ hxs => ?_
    dsimp only
    refine .flag .kwExport fun exported ys s₃ hs h₃ hys => ⟨_, fun _ _ _ _ hs' => by rw [hs'], ?_⟩
    rw [hs]
    dsimp only
    refine (outcome_block n [closing kind] s₃).close (by omega) (fun _ _ => ⟨_, rfl⟩)
      fun zs body s₄ h₄ hzs => ?_
    dsimp only
    refine .expectWord fun c s₅ hc h₅ => .pure (fun _ _ _ => rfl) (by omega) ?_
    rintro k hk rfl
    exact .routine hk ht hxs hys hzs hc

/-- The body of a loop is read with the keywords around it. -/
theorem outcome_loopBody (n : Nat) (s : Stream) :
    Outcome n (16 * s.length + 1) s.length false (fun ts ss => Derives ts (.loopBody ss))
      (fun _ => loopBody) s (loopBody n s) := by
  match n with
  | 0 => exact .cut rfl (by omega)
  | n + 1 =>
    refine .succ (k := 16 * s.length) (.expectWord fun d s₁ hd h₁ => ?_) (Nat.le_refl _)
    refine (outcome_block n [.kwEndDo] s₁).close (by omega) (fun _ _ => ⟨_, rfl⟩)
      fun ts body s₂ h₂ hts => ?_
    refine .expectWord fun c s₃ hc h₃ => ?_
    exact .pure (fun _ _ _ => rfl) (by omega) (.loopBody hd hts hc)

/-- What follows the branch of a conditional is read with the keyword that closes it. -/
theorem outcome_alternative (n : Nat) (s : Stream) :
    Outcome n (16 * s.length + 1) s.length false (fun ts a => Derives ts (.alternative a))
      (fun _ => alternative) s (alternative n s) := by
  match n with
  | 0 => exact .cut rfl (by omega)
  | n + 1 =>
    refine .succ (k := 16 * s.length) ?_ (Nat.le_refl _)
    refine .takeWord (fun k s₁ hk h₁ => ?_) (.takeWord (fun k s₁ hk h₁ => ?_) ?_)
    · refine (outcome_expression n .disjunction s₁).bind (by omega) fun xs c s₂ h₂ hxs => ?_
      refine .expectWord fun t s₃ ht h₃ => ?_
      refine (outcome_block n branchEnds s₃).close (by omega)
        (fun _ q => alternative_finish_bind n q _) fun ys body s₄ h₄ hys => ?_
      refine (outcome_alternative n s₄).last (by omega) (by omega) fun zs a hzs => ?_
      exact ⟨_, .elsif hk hxs ht hys hzs, fun _ => rfl, fun _ _ _ => rfl⟩
    · refine (outcome_block n [.kwEndIf] s₁).close (by omega) (fun _ _ => ⟨_, rfl⟩)
        fun ts body s₂ h₂ hts => ?_
      refine .expectWord fun c s₃ hc h₃ => ?_
      exact .pure (fun _ _ _ => rfl) (by omega) (.otherwise hk hts hc)
    · refine .expectWord fun c s₁ hc h₁ => ?_
      exact .pure (fun _ _ _ => rfl) (by omega) (.endIf hc)

end

end Parser

end Gradual
