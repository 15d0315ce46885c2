import Gradual.Proofs.Syntax.Runs

/-!
# Two runs of the parser

The same stream with two depths, and two streams with the same lexemes. The bound on the descent
does not show in any outcome: the depth of a stream is never reached, and a larger one gives the
same (`Parser.block_eq_of_depth`). Two streams with the same lexemes, the one as long as the other,
are both read or neither is, into the same tree or up to the same fault, with the positions of the
one moved to those of the other (`Guise.program_cases`).
-/

namespace Gradual

open Gradual.Stream (prepend)

/-! ## The same stream -/

namespace Guise

/-- Positions and written forms stay as they are. -/
def same : Guise := ⟨id, id, false⟩

/-- Every stream begins as it begins. -/
theorem heads_same (s : Stream) : same.Heads s s := by
  cases s with
  | finish p => exact .finish rfl
  | next t rest => exact .next rfl

/-- Where positions and written forms stay, only what comes behind the tokens differs. -/
theorem Upto.of_heads {b : Bool} {rest rest' : Stream} (h : (Guise.mk id id b).Heads rest rest')
    (ts : List Token) : (Guise.mk id id b).Upto rest rest' ts (prepend ts rest') := by
  induction ts with
  | nil => exact .here h
  | cons t ts ih =>
    refine .next rfl (fun _ word hword => ?_) ih
    have hheads := ih.heads
    generalize prepend ts rest = s, prepend ts rest' = s' at hheads hword
    cases hheads with
    | finish | goesOn => cases hword
    | next hv =>
      cases hword
      exact congrArg some hv

/-- The same error is equal to it. -/
theorem SameError.eq_of_same {e e' : SyntaxError} (h : same.SameError e e') : e' = e := by
  obtain ⟨hposition, hfault⟩ := h
  change e'.fault.viewed id = e.fault.viewed id at hfault
  rw [SyntaxFault.viewed_id, SyntaxFault.viewed_id] at hfault
  rcases e' with ⟨fault, p⟩
  cases hposition
  cases hfault
  rfl

end Guise

namespace Parser

section

variable {α : Type} [Relocatable α] {n k j m : Nat} {b : Bool} {Φ : List Token → α → Prop}
  {again : Guise → Nat → Stream → Except SyntaxError (α × Stream)} {s : Stream}
  {x : Except SyntaxError (α × Stream)}

/-- A larger depth gives the same outcome, or the run was cut short because its depth was not
enough. -/
theorem Outcome.eq_or_cut (h : Outcome n k j b Φ again s x) (hm : n ≤ m) :
    again .same m s = x ∨ n < k ∧ ∃ e, x = .error e ∧ e.fault = .tooDeep := by
  cases h with
  | @ok taken a rest _ _ hagain =>
    left
    rw [hagain .same m _ rest hm (fun _ hon => nomatch hon)
      (.of_heads (Guise.heads_same rest) taken)]
    exact congrArg (fun a => Except.ok (a, rest)) (Relocatable.relocate_id a)
  | @error taken e rest _ _ hagain =>
    left
    obtain ⟨e', he', hsame⟩ :=
      hagain .same m _ rest hm rfl (.of_heads (Guise.heads_same rest) taken)
    rw [he', hsame.eq_of_same]
  | cut hdeep hn => exact .inr ⟨hn, _, rfl, hdeep⟩

/-- With enough depth, an error is that of a token which is refused. -/
theorem Outcome.isRefusal (h : Outcome n k j b Φ again s x) (hn : k ≤ n) {e : SyntaxError}
    (he : x = .error e) : e.fault.isRefusal = true := by
  cases h with
  | ok => cases he
  | error taken hrefusal =>
    cases he
    exact hrefusal
  | cut hdeep hlt => exact absurd hn (Nat.not_le.2 hlt)

end

/-- **The depth is enough.** A block is read in the same way with every bound that is enough for its
tokens. -/
theorem block_eq_of_depth {n m : Nat} (ends : List Keyword) {s : Stream}
    (hn : 16 * s.length + 4 ≤ n) (hm : 16 * s.length + 4 ≤ m) :
    block n ends s = block m ends s := by
  have larger : ∀ i, 16 * s.length + 4 ≤ i → block i ends s = block (16 * s.length + 4) ends s := by
    intro i hi
    rcases (outcome_block (16 * s.length + 4) ends s).eq_or_cut hi with h | ⟨hlt, -⟩
    · exact h
    · exact absurd hlt (Nat.lt_irrefl _)
  rw [larger n hn, larger m hm]

/-- What becomes of a program with the depth of its stream. -/
theorem outcome_block_depth (s : Stream) :
    Outcome s.depth s.depth (s.length + 1) true (fun ts ss => Derives ts (.block ss))
      (fun _ m => block m []) s (block s.depth [] s) :=
  (outcome_block s.depth [] s).weaken (by unfold Stream.depth; omega) (Nat.le_refl _)
    fun _ _ _ _ h => h

end Parser

/-! ## The same lexemes -/

namespace Guise

/-- The second stream has the lexemes of the first, up to its end. -/
inductive Follows (g : Guise) : Stream → Stream → Prop where
  | finish {p : Position} : Follows g (.finish p) (.finish (g.move p))
  | next {l : Lexeme} {raw raw' : Text} {p : Position} {s s' : Stream} :
      g.view raw' = g.view raw → (l = .mark .dot → ∀ word ∈ s.raw?, s'.raw? = some word) →
      Follows g s s' → Follows g (.next ⟨l, raw, p⟩ s) (.next ⟨l, raw', g.move p⟩ s')

namespace Follows

variable {g : Guise} {s s' rest : Stream}

theorem heads (h : g.Follows s s') (hg : g.goesOn = false) : g.Heads s s' := by
  cases h with
  | finish => exact .finish hg
  | next hv => exact .next hv

/-- A stream that follows another one is as long. -/
theorem length_eq (h : g.Follows s s') : s'.length = s.length := by
  induction h with
  | finish => rfl
  | next _ _ _ ih => rw [Stream.length, Stream.length, ih]

/-- The tokens in front of what is left have the same lexemes, and so has what is left. -/
theorem upto {ts : List Token} (h : g.Follows (prepend ts rest) s') (hg : g.goesOn = false) :
    ∃ rest', g.Upto rest rest' ts s' ∧ g.Follows rest rest' := by
  induction ts generalizing s' with
  | nil => exact ⟨s', .here (h.heads hg), h⟩
  | cons t ts ih =>
    cases h with
    | next hv hd h =>
      obtain ⟨rest', hup, hrest⟩ := ih h
      exact ⟨rest', .next hv hd hup, hrest⟩

end Follows

/-- Two streams with the same lexemes, the one as long as the other: both are read or neither is,
into the same tree or up to the same fault, with the positions of the one moved to those of the
other. -/
theorem program_cases {g : Guise} {s s' : Stream} (h : g.Follows s s') (hg : g.goesOn = false) :
    (∃ p, Parser.program s = .ok p ∧ Parser.program s' = .ok (Stmt.relocatedAll g.move p)) ∨
      ∃ e e', Parser.program s = .error e ∧ Parser.program s' = .error e' ∧ g.SameError e e' := by
  have hdepth : s'.depth = s.depth := by
    unfold Stream.depth
    rw [h.length_eq]
  have hstrict : ∀ {r : Stream}, true = true → g.goesOn = true → r.lexeme? ≠ none := by
    intro r _ hon
    rw [hg] at hon
    cases hon
  have hblock := Parser.outcome_block_depth s
  unfold Parser.program
  rw [hdepth]
  generalize s.depth = n at hblock ⊢
  generalize Parser.block n [] s = x at hblock ⊢
  cases hblock with
  | @ok taken ss rest _ _ hagain =>
    obtain ⟨rest', hup, hrest⟩ := h.upto hg
    rw [hagain g n s' rest' (Nat.le_refl _) hstrict hup]
    cases hrest with
    | finish => exact .inl ⟨ss, rfl, rfl⟩
    | next hv => exact .inr ⟨_, _, rfl, rfl, rfl, congrArg SyntaxFault.trailing hv⟩
  | @error taken e rest _ _ hagain =>
    obtain ⟨rest', hup, -⟩ := h.upto hg
    obtain ⟨e', he', hsame⟩ := hagain g n s' rest' (Nat.le_refl _) hg hup
    rw [he']
    exact .inr ⟨e, e', rfl, rfl, hsame⟩
  | cut _ hlt => exact absurd hlt (Nat.lt_irrefl _)

end Guise

end Gradual
