import Gradual.Proofs.Syntax.Grammar
import Gradual.Proofs.Syntax.Parts

/-!
# Nodes of derived trees

The expressions that occur in a tree, at any depth. Main statement: `Derives.written_of_mem_nodes`.
A binary node of a derived tree is derived from some of the tokens that stand next to each other.
-/

namespace Gradual

/-! ## Nodes -/

/-- All expressions in the default values of parameters. -/
def Param.nodesIn : List Param → List Expr
  | [] => []
  | p :: rest => Expr.nodesInOption p.default? ++ Param.nodesIn rest

mutual

/-- All expressions in a statement. -/
def Stmt.nodes : Stmt → List Expr
  | .declare _ _ value _ => Expr.nodesInOption value
  | .routine _ _ params body _ _ => Param.nodesIn params ++ Stmt.nodesIn body
  | .assign target value _ => target.nodes ++ value.nodes
  | .call _ object args _ => Expr.nodesInOption object ++ Expr.nodesIn args
  | .conditional c body rest _ => c.nodes ++ Stmt.nodesIn body ++ rest.nodes
  | .forTo _ first last body _ => first.nodes ++ last.nodes ++ Stmt.nodesIn body
  | .forEach _ collection body _ => collection.nodes ++ Stmt.nodesIn body
  | .whileDo c body _ => c.nodes ++ Stmt.nodesIn body
  | .ret value _ => Expr.nodesInOption value
  | .attempt body none _ => Stmt.nodesIn body
  | .attempt body (some handler) _ => Stmt.nodesIn body ++ Stmt.nodesIn handler
  | .raise message _ => Expr.nodesInOption message
  | .brk _ | .cont _ => []

/-- All expressions in a block. -/
def Stmt.nodesIn : List Stmt → List Expr
  | [] => []
  | s :: rest => s.nodes ++ Stmt.nodesIn rest

/-- All expressions in what follows the first branch of a conditional. -/
def Alternative.nodes : Alternative → List Expr
  | .none => []
  | .otherwise body => Stmt.nodesIn body
  | .elsif c body rest => c.nodes ++ Stmt.nodesIn body ++ rest.nodes

end

/-- All expressions in a program. -/
def Program.nodes (p : Program) : List Expr := Stmt.nodesIn p

/-- All expressions in the tree of a phrase. -/
def Phrase.nodes : Phrase → List Expr
  | expression _ e | argument _ e => e.nodes
  | argumentList es | arguments es => Expr.nodesIn es
  | flag .. => []
  | initialValue _ v | optional v => Expr.nodesInOption v
  | declared d => d.nodes
  | parameter p => Expr.nodesInOption p.default?
  | parameterList ps | parameters ps => Param.nodesIn ps
  | declarations ss | statement ss | block ss | loopBody ss => Stmt.nodesIn ss
  | alternative a => a.nodes

theorem Stmt.nodesIn_append (xs ys : List Stmt) :
    Stmt.nodesIn (xs ++ ys) = Stmt.nodesIn xs ++ Stmt.nodesIn ys := by
  induction xs with
  | nil => rfl
  | cons s xs ih => rw [List.cons_append, Stmt.nodesIn, Stmt.nodesIn, ih, List.append_assoc]

/-! ## Tokens of nodes -/

/-- Some of the tokens, next to each other, are written for the expression. -/
def Written (ts : List Token) (e : Expr) : Prop :=
  ∃ us level, us <:+: ts ∧ Derives us (.expression level e)

namespace Written

theorem mono {xs ys : List Token} {e : Expr} (h : Written xs e) (hsub : xs <:+: ys) :
    Written ys e := by
  obtain ⟨us, level, hus, hd⟩ := h
  exact ⟨us, level, hus.trans hsub, hd⟩

@[grind ←] theorem left {xs ys : List Token} {e : Expr} (h : Written xs e) : Written (xs ++ ys) e :=
  h.mono (List.prefix_append xs ys).isInfix

@[grind ←] theorem right {xs ys : List Token} {e : Expr} (h : Written ys e) :
    Written (xs ++ ys) e :=
  h.mono (List.suffix_append xs ys).isInfix

@[grind ←] theorem cons {t : Token} {ts : List Token} {e : Expr} (h : Written ts e) :
    Written (t :: ts) e :=
  h.mono (List.suffix_cons t ts).isInfix

end Written

theorem Lexeme.nodes_of_atom? {l : Lexeme} {make : Option Position → Expr} (h : l.atom? = some make)
    (p : Option Position) : (make p).nodes = [make p] := by
  rw [Lexeme.atom?.eq_def] at h
  split at h <;> cases h <;> rfl

/-- **Binary nodes are written.** By induction on the derivation: the node is the one that the last
rule makes, or it is in one of the parts, whose tokens are among those of the whole. -/
theorem Derives.written_of_mem_nodes {ts : List Token} {ph : Phrase} (h : Derives ts ph)
    {op : BinaryOp} {left right : Expr} {l : Option Position}
    (hm : .binary op left right l ∈ ph.nodes) :
    Written ts (.binary op left right l) := by
  induction h with
  | tighter _ ih | given _ ih | someArguments _ _ ih => exact ih hm
  | @operation level t op' xs ys left' right' hop hl hr ihl ihr =>
    rcases List.mem_cons.1 hm with hm | hm
    · rw [hm]
      exact ⟨_, _, List.infix_rfl, .operation hop hl hr⟩
    · rcases List.mem_append.1 hm with hm | hm
      · exact (ihl hm).left
      · exact (ihr hm).cons.right
  | atom ha =>
    rw [Phrase.nodes, Lexeme.nodes_of_atom? ha, List.mem_singleton] at hm
    rw [hm]
    exact ⟨_, _, List.infix_rfl, .atom ha⟩
  | _ =>
    -- The other rules make no binary node, and the parts of the tree are derived from parts of the
    -- tokens.
    grind [Phrase.nodes, Expr.nodes, Expr.nodesIn, Expr.nodesInOption, Param.nodesIn, Stmt.nodes,
      Stmt.nodesIn, Stmt.nodesIn_append, Alternative.nodes]

end Gradual
