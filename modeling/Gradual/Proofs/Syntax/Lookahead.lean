import Gradual.Proofs.Syntax.TwoRuns

/-!
# Nothing is read ahead

The parser looks at one token at a time. What it makes of a stream is decided by the tokens that it
takes and by the one behind them, and where it fails, by the tokens up to the one at which it
reports the error. So nothing behind that token matters: the parser reports the first error it can
see.

Main statement: `Parser.error_at_first_sight`.
-/

namespace Gradual

namespace Stream

/-! ## Entries -/

/-- One place of a stream: a token, or the end. -/
inductive Entry where
  | token (t : Token)
  | finish (p : Position)
deriving DecidableEq

/-- Where an entry stands. -/
def Entry.position : Entry → Position
  | token t => t.position
  | finish p => p

/-- The tokens and the end behind them. -/
def entries : Stream → List Entry
  | finish p => [.finish p]
  | next t rest => .token t :: rest.entries

/-- Behind the tokens in front stands the entry that the rest starts with. -/
theorem exists_entry_prepend (ts : List Token) (s : Stream) :
    ∃ entry, (prepend ts s).entries[ts.length]? = some entry ∧ entry.position = s.position := by
  induction ts with
  | nil =>
    cases s with
    | finish p => exact ⟨.finish p, rfl, rfl⟩
    | next t rest => exact ⟨.token t, rfl, rfl⟩
  | cons t ts ih => simpa [entries] using ih

/-- A stream whose entries are those of another one up to some place takes the same tokens up to
there. -/
theorem exists_heads_of_take {ts : List Token} {s s' : Stream}
    (h : s'.entries.take (ts.length + 1) = (prepend ts s).entries.take (ts.length + 1)) :
    ∃ rest', s' = prepend ts rest' ∧ Guise.same.Heads s rest' := by
  induction ts generalizing s' with
  | nil =>
    refine ⟨s', rfl, ?_⟩
    cases s with
    | finish p => cases s' <;> simp [entries] at h; subst h; exact .finish rfl
    | next t rest => cases s' <;> simp [entries] at h; subst h; exact .next rfl
  | cons t ts ih =>
    cases s' with
    | finish p => simp [entries] at h
    | next u rest' =>
      simp only [prepend_cons, entries, List.length_cons, List.take_succ_cons, List.cons.injEq,
        Entry.token.injEq] at h
      obtain ⟨r, rfl, hr⟩ := ih h.2
      exact ⟨r, by rw [h.1, prepend_cons], hr⟩

end Stream

namespace Parser

open Gradual.Stream

/-! ## Programs -/

/-- A program cannot be read if its block cannot, or if something is left behind it, whatever the
bound is from the depth of the stream on. -/
theorem program_eq_error_iff {n : Nat} {s : Stream} {e : SyntaxError} (hn : s.depth ≤ n) :
    program s = .error e ↔ block n [] s = .error e ∨
      ∃ statements t rest, block n [] s = .ok (statements, .next t rest) ∧
        e = ⟨.trailing t.raw, t.position⟩ := by
  unfold Stream.depth at hn
  have hblock : block s.depth [] s = block n [] s :=
    block_eq_of_depth [] (by unfold Stream.depth; omega) (by omega)
  unfold program
  rw [hblock]
  cases block n [] s with
  | error e' => simp [bind, Except.bind]
  | ok r =>
    obtain ⟨statements, rest⟩ := r
    cases rest with
    | finish p => simp [bind, Except.bind, raw?]
    | next t rest =>
      constructor
      · intro h
        cases h
        exact .inr ⟨statements, t, rest, rfl, rfl⟩
      · rintro (h | ⟨_, _, _, h, rfl⟩)
        · cases h
        · cases h
          rfl

/-- Where a program cannot be read, the tokens in front of the error and the entry at the error are
why. -/
theorem exists_taken_of_error {s : Stream} {e : SyntaxError} (h : program s = .error e) :
    ∃ taken rest, s = .prepend taken rest ∧ e.position = rest.position ∧
      ∀ rest', Guise.same.Heads rest rest' → program (.prepend taken rest') = .error e := by
  have hblock := outcome_block_depth s
  -- Another stream may be longer and need a larger bound. The sum of both is enough for either.
  have hlarger : ∀ s', program s' = .error e ↔ _ := fun s' =>
    program_eq_error_iff (Nat.le_add_left s'.depth s.depth)
  rw [program_eq_error_iff (Nat.le_refl _)] at h
  generalize s.depth = n at h hblock hlarger
  rcases h with herror | ⟨statements, t, rest, hok, rfl⟩
  · rw [herror] at hblock
    cases hblock with
    | @error taken _ rest _ hp hagain =>
      refine ⟨taken, rest, rfl, hp, fun rest' hheads => (hlarger _).2 (.inl ?_)⟩
      obtain ⟨e', he', hsame⟩ :=
        hagain .same _ _ rest' (Nat.le_add_right n _) rfl (.of_heads hheads taken)
      rw [hsame.eq_of_same] at he'
      exact he'
    | cut _ hlt => exact absurd hlt (Nat.lt_irrefl _)
  · rw [hok] at hblock
    cases hblock with
    | ok taken _ _ hagain =>
      refine ⟨taken, .next t rest, rfl, rfl, fun rest' hheads => (hlarger _).2 (.inr ?_)⟩
      have hrun := hagain .same _ _ rest' (Nat.le_add_right n (prepend taken rest').depth)
        (fun _ hon => nomatch hon) (.of_heads hheads taken)
      cases hheads with
      | next hraw =>
        cases hraw
        exact ⟨_, _, _, hrun, rfl⟩

/-- **The first error in sight is reported.** Where a stream cannot be read, the diagnostic stands
at one of its entries, and it is the diagnostic of every stream that has the same entries up to that
one, whatever comes behind it. -/
theorem error_at_first_sight (file : Text) (s : Stream) (e : SyntaxError)
    (h : program s = .error e) :
    ∃ i entry, s.entries[i]? = some entry ∧
      (e.toDiagnostic file).location = some (.ofPosition file entry.position) ∧
      ∀ s' : Stream, s'.entries.take (i + 1) = s.entries.take (i + 1) → program s' = .error e := by
  obtain ⟨taken, rest, rfl, hp, hagain⟩ := exists_taken_of_error h
  obtain ⟨entry, hentry, hposition⟩ := exists_entry_prepend taken rest
  refine ⟨taken.length, entry, hentry, ?_, fun s' hs' => ?_⟩
  · rw [hposition, ← hp]
    rfl
  · obtain ⟨rest', rfl, hhead⟩ := exists_heads_of_take hs'
    exact hagain rest' hhead

/-- `a.b;c` is no statement, which is seen at the semicolon: the property before it is read, and the
name behind it does not matter. -/
theorem error_at_first_sight_property :
    ∃ (file : Text) (s : Stream) (e : SyntaxError),
      s = .prepend [⟨.identifier [0x61], [0x61], ⟨1, 1⟩⟩, ⟨.mark .dot, [0x2E], ⟨1, 2⟩⟩,
        ⟨.identifier [0x62], [0x62], ⟨1, 3⟩⟩, ⟨.mark .semicolon, [0x3B], ⟨1, 4⟩⟩,
        ⟨.identifier [0x63], [0x63], ⟨1, 5⟩⟩] (.finish ⟨1, 6⟩) ∧
      e = ⟨.noStatement (some [0x3B]), ⟨1, 4⟩⟩ ∧ program s = .error e ∧
      ∃ i entry, s.entries[i]? = some entry ∧
        (e.toDiagnostic file).location = some (.ofPosition file entry.position) ∧
        ∀ s' : Stream, s'.entries.take (i + 1) = s.entries.take (i + 1) → program s' = .error e :=
  ⟨[], _, _, rfl, rfl, rfl, error_at_first_sight [] _ _ rfl⟩

end Parser

end Gradual
