import Gradual.Proofs.Syntax.Runs
import Gradual.Proofs.Syntax.Lexed
import Gradual.Proofs.Syntax.Nodes

/-!
# What is read is written

Every tree that the parser gives back is derived by the grammar from exactly the tokens that the
parser used up.
-/

namespace Gradual

namespace Parser

/-- The statements of a block are derived from the tokens in front of what is left. -/
theorem exists_derives_of_block {n : Nat} {ends : List Keyword} {s rest : Stream} {ss : List Stmt}
    (h : block n ends s = .ok (ss, rest)) :
    ∃ ts, s = rest.prepend ts ∧ Derives ts (.block ss) := by
  have hblock := outcome_block n ends s
  rw [h] at hblock
  cases hblock with
  | ok taken _ hts => exact ⟨taken, rfl, hts⟩

/-- A program is derived from all tokens of its stream. -/
theorem derives_of_program {s : Stream} {p : Program} (h : program s = .ok p) :
    Derives s.tokens (.block p) := by
  rw [program] at h
  simp only [bind_eq_ok, Prod.exists] at h
  obtain ⟨ss, rest, hb, h⟩ := h
  obtain ⟨ts, rfl, hts⟩ := exists_derives_of_block hb
  cases rest with
  | finish q =>
    cases h
    rw [Stream.tokens_prepend, Stream.tokens, List.append_nil]
    exact hts
  | next t rest => cases h

end Parser

/-- **Reading is sound.** A module that is read is derived by the grammar from all of its tokens,
with the tree that the reader gives. The tree is one that a text can express. Every binary node of
it is written as its operator between its operands, and an operand that binds more loosely than its
place asks for is in parentheses. -/
theorem Program.derives_of_parse {file source : Text} {p : Program}
    (h : Program.parse file source = .ok p) :
    ∃ s, Stream.ofSource source = .ok s ∧ Derives s.tokens (.block p) ∧ p.Expressible ∧
      ∀ op left right l, .binary op left right l ∈ p.nodes →
        ∃ xs t ys, xs ++ t :: ys <:+: s.tokens ∧ op.level.operator? t.lexeme = some op ∧
          l = some t.position ∧ Operand xs op.level left ∧ Operand ys op.level.tighter right := by
  rw [Program.parse] at h
  split at h
  · next p' hp =>
    cases h
    rw [Program.ofSource, bind_eq_ok] at hp
    obtain ⟨s, hs, hp⟩ := hp
    have hd := Parser.derives_of_program hp
    refine ⟨s, hs, hd, hd.expressible (Stream.lexed_of_ofSource hs), ?_⟩
    intro op left right l hm
    obtain ⟨us, level, hus, hbinary⟩ := hd.written_of_mem_nodes hm
    obtain ⟨xs, t, ys, hin, hoperands⟩ := hbinary.operands
    exact ⟨xs, t, ys, hin.trans hus, hoperands⟩
  · cases h

set_option maxRecDepth 10000 in
/-- In `a=(b+c)*d` the sum binds more loosely than the product that it is an operand of. -/
theorem Program.derives_of_parse_product :
    ∃ p : Program,
      p = [.assign (.ident [0x61] (some ⟨1, 1⟩))
        (.binary .mul
          (.binary .add (.ident [0x62] (some ⟨1, 4⟩)) (.ident [0x63] (some ⟨1, 6⟩)) (some ⟨1, 5⟩))
          (.ident [0x64] (some ⟨1, 9⟩)) (some ⟨1, 8⟩)) (some ⟨1, 1⟩)] ∧
      Program.parse [] [0x61, 0x3D, 0x28, 0x62, 0x2B, 0x63, 0x29, 0x2A, 0x64] = .ok p ∧
      ∃ s, Stream.ofSource [0x61, 0x3D, 0x28, 0x62, 0x2B, 0x63, 0x29, 0x2A, 0x64] = .ok s ∧
        Derives s.tokens (.block p) ∧ p.Expressible ∧
        ∀ op left right l, .binary op left right l ∈ p.nodes →
          ∃ xs t ys, xs ++ t :: ys <:+: s.tokens ∧ op.level.operator? t.lexeme = some op ∧
            l = some t.position ∧ Operand xs op.level left ∧ Operand ys op.level.tighter right := by
  refine ⟨_, rfl, (and_iff_left_of_imp fun h => ?_).2 rfl⟩
  exact Program.derives_of_parse h

end Gradual
