import Gradual.Proofs.Syntax.Lookahead

/-!
# The parser gets on

The tokens of a module are numbered, and the end of the module has the last number. A function of
the parser that reads an expression or a statement returns at a larger index than it was called at,
and none goes back or past the end. Hence every run comes to an outcome that no larger bound
changes: a tree, or a token that is refused.

`Parser.Advances` says this of one function, and `Parser.RunsAdvance` of all of them. A block that
nothing closes is read up to the end, so nothing is left behind a module. Main statement:
`Parser.every_run_advances`.
-/

namespace Gradual

namespace Stream

/-! ## Indices -/

/-- What is left of the tokens of a module from an index on. The module ends at `p`. -/
def fromIndex (ts : List Token) (p : Position) (i : Nat) : Stream := prepend (ts.drop i) (.finish p)

theorem prepend_tokens (s : Stream) : prepend s.tokens (.finish s.finishPosition) = s := by
  induction s with
  | finish p => rfl
  | next t rest ih => rw [tokens, finishPosition, prepend_cons, ih]

variable {ts : List Token} {p : Position} {i : Nat}

@[simp] theorem length_fromIndex : (fromIndex ts p i).length = ts.length - i := by
  rw [fromIndex, length_prepend, List.length_drop]
  rfl

/-- What is left behind tokens that were taken stands at the index behind them. -/
theorem eq_fromIndex_of_prepend {taken : List Token} {rest : Stream} (hi : i ≤ ts.length)
    (h : prepend taken rest = fromIndex ts p i) :
    rest = fromIndex ts p (i + taken.length) ∧ i + taken.length ≤ ts.length := by
  have htokens : taken ++ rest.tokens = ts.drop i := by
    rw [← tokens_prepend, h, fromIndex, tokens_prepend]
    exact List.append_nil _
  have hfinish : rest.finishPosition = p := by
    rw [← finishPosition_prepend taken rest, h, fromIndex, finishPosition_prepend]
    rfl
  have hlength := congrArg List.length htokens
  rw [List.length_append, List.length_drop] at hlength
  constructor
  · rw [fromIndex, ← List.drop_drop, ← htokens, List.drop_left, ← hfinish, prepend_tokens]
  · omega

end Stream

namespace Parser

open Gradual.Stream

/-! ## Outcomes -/

/-- What a run that was called at the index `i` comes to: it returns at an index from `low` on, or
it refuses the token at an index from `i` on. Neither index is past the end. -/
inductive Proceeds {α : Type} (ts : List Token) (p : Position) (i low : Nat) :
    Except SyntaxError (α × Stream) → Prop where
  | ok {a : α} {j : Nat} : low ≤ j → j ≤ ts.length → Proceeds ts p i low (.ok (a, fromIndex ts p j))
  | error {e : SyntaxError} {j : Nat} : i ≤ j → j ≤ ts.length →
    e.position = (fromIndex ts p j).position →
      e.fault.isRefusal = true → Proceeds ts p i low (.error e)

/-- Whether a function of the parser gets on by at least a number of tokens. From every index it has
one outcome, with every bound from the depth of the stream on; a smaller bound gives the same
outcome or cuts the run short. -/
def Advances {α : Type} (ts : List Token) (p : Position) (gain : Nat)
    (run : Nat → Stream → Except SyntaxError (α × Stream)) : Prop :=
  ∀ i ≤ ts.length, ∃ x, Proceeds ts p i (i + gain) x ∧
    ∀ n, run n (fromIndex ts p i) = x ∨
      n < (fromIndex ts p i).depth ∧ ∃ e, run n (fromIndex ts p i) = .error e ∧ e.fault = .tooDeep

section

variable {α : Type} [Relocatable α] {n k j : Nat} {b : Bool} {Φ : List Token → α → Prop}
  {again : Guise → Nat → Stream → Except SyntaxError (α × Stream)}
  {x : Except SyntaxError (α × Stream)} {ts : List Token} {p : Position}

/-- Where a run stands is found by the tokens that it took, and how far it got by what it left. -/
theorem Proceeds.of_outcome {i low : Nat} (hi : i ≤ ts.length)
    (h : Outcome n k j b Φ again (fromIndex ts p i) x) (hk : k ≤ n)
    (hj : j ≤ ts.length + 1 - low) : Proceeds ts p i low x := by
  generalize hs : fromIndex ts p i = s at h
  cases h with
  | @ok taken a rest hlength =>
    obtain ⟨rfl, hend⟩ := eq_fromIndex_of_prepend hi hs.symm
    rw [length_fromIndex] at hlength
    exact .ok (by omega) hend
  | @error taken e rest hrefusal hp =>
    obtain ⟨rfl, hend⟩ := eq_fromIndex_of_prepend hi hs.symm
    exact .error (Nat.le_add_right _ _) hend hp hrefusal
  | cut _ hlt => exact absurd hk (Nat.not_le.2 hlt)

/-- A function whose outcomes are known gets on. -/
theorem Advances.of_outcome {gain : Nat} {run : Nat → Stream → Except SyntaxError (α × Stream)}
    {need limit : Stream → Nat}
    (h : ∀ n s, Outcome n (need s) (limit s) b Φ again s (run n s))
    (hagain : ∀ m s, again .same m s = run m s) (hneed : ∀ s, need s ≤ 16 * s.length + 16)
    (hlimit : ∀ s, limit s ≤ s.length + 1 - gain) : Advances ts p gain run := by
  intro i hi
  have hdepth : need (fromIndex ts p i) ≤ (fromIndex ts p i).depth := by
    have := hneed (fromIndex ts p i)
    unfold depth
    omega
  have hleft := hlimit (fromIndex ts p i)
  rw [length_fromIndex] at hleft
  refine ⟨_, .of_outcome hi (h (fromIndex ts p i).depth _) hdepth (by omega), fun n => ?_⟩
  by_cases hn : (fromIndex ts p i).depth ≤ n
  · rcases (h _ _).eq_or_cut hn with heq | ⟨hlt, -⟩
    · exact .inl ((hagain _ _).symm.trans heq)
    · exact absurd hdepth (Nat.not_le.2 hlt)
  · rw [Nat.not_le] at hn
    rcases (h n _).eq_or_cut (Nat.le_of_lt hn) with heq | ⟨-, hcut⟩
    · exact .inl (heq.symm.trans (hagain _ _))
    · exact .inr ⟨hn, hcut⟩

end

/-! ## Whole modules -/

/-- A block that nothing closes is read up to the end of the module. -/
theorem exists_finish_of_block {n : Nat} {s rest : Stream} {ss : List Stmt}
    (h : block n [] s = .ok (ss, rest)) : ∃ q, rest = .finish q := by
  induction n generalizing s ss with
  | zero => cases h
  | succ n ih =>
    rw [block] at h
    dsimp only at h
    cases hskip : s.skipSemicolons with
    | finish q =>
      rw [hskip] at h
      cases h
      exact ⟨q, rfl⟩
    | next t r =>
      rw [hskip] at h
      obtain ⟨⟨first, r⟩, -, h⟩ := bind_eq_ok.1 h
      obtain ⟨⟨more, r⟩, hmore, h⟩ := bind_eq_ok.1 h
      cases h
      exact ih hmore

/-- A module is read, or one of its tokens or its end is refused. Nothing is left behind its
block. -/
theorem program_ok_or_refused (s : Stream) :
    (∃ tree, program s = .ok tree) ∨ ∃ e, program s = .error e ∧ e.fault.isRefusal = true := by
  have houtcome := outcome_block_depth s
  unfold program
  cases hblock : block s.depth [] s with
  | error e => exact .inr ⟨e, rfl, houtcome.isRefusal (Nat.le_refl _) hblock⟩
  | ok x =>
    obtain ⟨q, hq⟩ := exists_finish_of_block hblock
    exact .inl ⟨x.1, by simp only [bind, Except.bind, hq, raw?]⟩

/-- How every function of the parser runs on the tokens of a module. -/
structure RunsAdvance (ts : List Token) (p : Position) : Prop where
  -- At every index that a run can stand at there is a token, or the end.
  entry : ∀ i ≤ ts.length, ∃ entry, (prepend ts (.finish p)).entries[i]? = some entry ∧
    entry.position = (fromIndex ts p i).position
  -- Expressions: every level of the descent, and the loops at a level.
  expression : ∀ level, Advances ts p 1 fun n => expression n level
  operations : ∀ level left, Advances ts p 0 fun n => operations n level left
  accesses : ∀ e, Advances ts p 0 fun n => accesses n e
  arguments : Advances ts p 1 arguments
  argumentList : Advances ts p 1 argumentList
  primary : Advances ts p 1 primary
  -- Statements and their parts.
  declarations : Advances ts p 1 declarations
  parameters : Advances ts p 1 parameters
  parameterList : Advances ts p 1 parameterList
  simpleStatement : Advances ts p 1 simpleStatement
  statement : Advances ts p 1 statement
  routine : ∀ kind q, Advances ts p 1 fun n => routine n kind q
  loopBody : Advances ts p 1 loopBody
  alternative : Advances ts p 1 alternative
  -- Blocks, which may be empty.
  skipSemicolons : ∀ i ≤ ts.length, ∃ j, i ≤ j ∧ j ≤ ts.length ∧
    (fromIndex ts p i).skipSemicolons = fromIndex ts p j
  block : ∀ ends, Advances ts p 0 fun n => block n ends

/-- No function of the parser goes back over the tokens of a module or past its end. -/
theorem runsAdvance (ts : List Token) (p : Position) : RunsAdvance ts p where
  entry i hi := by
    obtain ⟨entry, hentry, hposition⟩ := exists_entry_prepend (ts.take i) (fromIndex ts p i)
    refine ⟨entry, ?_, hposition⟩
    rwa [fromIndex, ← prepend_append, List.take_append_drop, List.length_take_of_le hi] at hentry
  expression level := .of_outcome (fun n => outcome_expression n level) (fun _ _ => rfl)
    (fun s => by omega) fun s => Nat.le_refl _
  operations level left := .of_outcome (fun n => outcome_operations n level left)
    (fun m s => by rw [Guise.same, Expr.relocated_id]) (fun s => by omega) fun s => Nat.le_refl _
  accesses e := .of_outcome (fun n => outcome_accesses n e)
    (fun m s => by rw [Guise.same, Expr.relocated_id]) (fun s => by omega) fun s => Nat.le_refl _
  arguments := .of_outcome outcome_arguments (fun _ _ => rfl) (fun s => by omega) fun s =>
    Nat.le_refl _
  argumentList :=
    .of_outcome outcome_argumentList (fun _ _ => rfl) (fun s => by omega) fun s => Nat.le_refl _
  primary := .of_outcome outcome_primary (fun _ _ => rfl) (fun s => by omega) fun s => Nat.le_refl _
  declarations :=
    .of_outcome outcome_declarations (fun _ _ => rfl) (fun s => by omega) fun s => Nat.le_refl _
  parameters := .of_outcome outcome_parameters (fun _ _ => rfl) (fun s => by omega) fun s =>
    Nat.le_refl _
  parameterList :=
    .of_outcome outcome_parameterList (fun _ _ => rfl) (fun s => by omega) fun s => Nat.le_refl _
  simpleStatement :=
    .of_outcome outcome_simpleStatement (fun _ _ => rfl) (fun s => by omega) fun s => Nat.le_refl _
  statement := .of_outcome outcome_statement (fun _ _ => rfl) (fun s => by omega) fun s =>
    Nat.le_refl _
  routine kind q := .of_outcome (fun n => outcome_routine n kind q) (fun _ _ => rfl)
    (fun s => by omega) fun s => Nat.le_refl _
  loopBody := .of_outcome outcome_loopBody (fun _ _ => rfl) (fun s => by omega) fun s =>
    Nat.le_refl _
  alternative :=
    .of_outcome outcome_alternative (fun _ _ => rfl) (fun s => by omega) fun s => Nat.le_refl _
  skipSemicolons i hi := by
    obtain ⟨⟨skipped, -, hskip⟩, -⟩ := skipSemicolons_spec (fromIndex ts p i)
    obtain ⟨hrest, hj⟩ := eq_fromIndex_of_prepend hi hskip.symm
    exact ⟨i + skipped.length, Nat.le_add_right _ _, hj, hrest⟩
  block ends := .of_outcome (fun n => outcome_block n ends) (fun _ _ => rfl) (fun s => by omega)
    fun s => Nat.le_refl _

end Parser

/-! ## Diagnostics -/

namespace SyntaxFault

/-- No fault says that there are no tokens: the second letter of no message is an m. -/
theorem message_ne_empty (f : SyntaxFault) : f.message ≠ "Empty token stream" := by
  intro h
  have hsecond : f.message[1]? = some 0x6D := congrArg (·[1]?) h
  revert hsecond
  cases f with
  | expectedKeyword | expectedMark
  | expectedName => exact (by decide : some (0x78 : CodeUnit) ≠ some 0x6D)
  | tooDeep => exact (by decide : some (0x65 : CodeUnit) ≠ some 0x6D)
  | lexical fault => cases fault <;> exact (by decide : some (0x6E : CodeUnit) ≠ some 0x6D)
  | _ => exact (by decide : some (0x6E : CodeUnit) ≠ some 0x6D)

/-- The message that something is left is that of no other fault. Where the first words are the
same, the last letter tells them apart. -/
theorem message_ne_trailing {f : SyntaxFault}
    (hf : f.isRefusal = true ∨ ∃ fault, f = .lexical fault) (raw : Text) :
    f.message ≠ (trailing raw).message := by
  intro h
  have hfirst : f.message[0]? = some 0x55 := congrArg (·[0]?) h
  have hsecond : f.message[1]? = some 0x6E := congrArg (·[1]?) h
  have hquote : f.message[11]? = some 0x27 := congrArg (·[11]?) h
  have hlast : f.message.getLast? = some 0x27 := by
    rw [h, message, Text.quoted, List.getLast?_append, List.getLast?_append]
    rfl
  cases f with
  | expectedKeyword | expectedMark | expectedName =>
    exact absurd hsecond (by decide : some (0x78 : CodeUnit) ≠ some 0x6E)
  | invalidTarget => exact absurd hfirst (by decide : some (0x49 : CodeUnit) ≠ some 0x55)
  | noStatement found =>
    rw [message, List.getLast?_append] at hlast
    exact absurd hlast (by decide : some (0x6C : CodeUnit) ≠ some 0x27)
  | noExpression found =>
    rw [message, List.getLast?_append] at hlast
    exact absurd hlast (by decide : some (0x6E : CodeUnit) ≠ some 0x27)
  | lexical fault =>
    cases fault with
    | unexpectedCharacter => exact absurd hquote (by decide : some (0x63 : CodeUnit) ≠ some 0x27)
    | unterminatedString
    | unterminatedDate => exact absurd hquote (by decide : some (0x64 : CodeUnit) ≠ some 0x27)
  | trailing | tooDeep => rcases hf with hf | ⟨_, hf⟩ <;> cases hf

end SyntaxFault

/-- A source is read, or one of its letters or tokens is refused. -/
theorem Program.ofSource_ok_or_refused (source : Text) :
    (∃ tree, Program.ofSource source = .ok tree) ∨
      ∃ e, Program.ofSource source = .error e ∧
        (e.fault.isRefusal = true ∨ ∃ fault, e.fault = .lexical fault) := by
  unfold Program.ofSource Stream.ofSource
  cases Lexer.tokenize source with
  | error x => exact .inr ⟨_, rfl, .inr ⟨x.1, rfl⟩⟩
  | ok s =>
    rcases Parser.program_ok_or_refused s with ⟨tree, h⟩ | ⟨e, h, he⟩
    · exact .inl ⟨tree, h⟩
    · exact .inr ⟨e, h, .inl he⟩

/-- **Every run of the parser gets on.** On the tokens of every module, each function returns at a
larger index, or for loops and blocks at one that is not smaller, never past the end; it has one
outcome with every bound that is large enough. So every stream is read or one of its entries is
refused, and every source has a tree or a diagnostic, which says neither that there are no tokens,
nor that the bound was reached, nor that something is left behind the module. -/
theorem Parser.every_run_advances :
    (∀ ts p, RunsAdvance ts p) ∧
    (∀ s, (∃ tree, program s = .ok tree) ∨ ∃ e, program s = .error e ∧ e.fault.isRefusal = true) ∧
    ∀ file source, (∃ tree, Program.parse file source = .ok tree) ∨
      ∃ e : SyntaxError, Program.parse file source = .error (e.toDiagnostic file) ∧
        e.fault ≠ .tooDeep ∧
        e.fault.message ≠ "Empty token stream" ∧
          ∀ raw, e.fault.message ≠ (SyntaxFault.trailing raw).message := by
  refine ⟨runsAdvance, program_ok_or_refused, fun file source => ?_⟩
  unfold Program.parse
  rcases Program.ofSource_ok_or_refused source with ⟨tree, h⟩ | ⟨e, h, he⟩
  · exact .inl ⟨tree, by rw [h]⟩
  · refine .inr ⟨e, by rw [h], ?_, e.fault.message_ne_empty, SyntaxFault.message_ne_trailing he⟩
    intro hdeep
    rw [hdeep] at he
    rcases he with he | ⟨_, he⟩ <;> cases he

end Gradual
