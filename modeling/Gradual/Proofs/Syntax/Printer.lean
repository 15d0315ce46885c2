import Gradual.Proofs.Syntax.Expressible

/-!
# Writing trees

The tokens that are written for a tree, apart from their positions. Every statement ends with a
semicolon. An operand is put in parentheses exactly when its own level binds more loosely than its
place asks for; the right operand of a binary operator stands at the next tighter level, a default
value at the level of signs. Arguments that were left out are written as the undefined value that
they are.

Which digits stand for the value of a number literal is up to a `NumberStyle`.
-/

namespace Gradual

/-! ## Pieces -/

/-- How a lexeme is written. In a string a quote is doubled and a line feed is followed by a bar. -/
def Lexeme.written : Lexeme → Text
  | .string value =>
    let unit (c : CodeUnit) : Text :=
      if c == Lexer.doubleQuote then [c, c] else if c == Text.newline then [c, Lexer.bar] else [c]
    Lexer.doubleQuote :: value.flatMap unit ++ [Lexer.doubleQuote]
  | .date value => Lexer.singleQuote :: value ++ [Lexer.singleQuote]
  | l => l.text

/-- A token apart from its position. -/
structure Piece where
  lexeme : Lexeme
  raw : Text
deriving DecidableEq, Repr

namespace Piece

/-- A lexeme as it is usually written. -/
def ofLexeme (l : Lexeme) : Piece := ⟨l, l.written⟩

/-- A mark. -/
def ofMark (m : Mark) : Piece := ofLexeme (.mark m)

/-- A keyword in its canonical spelling. -/
def ofKeyword (k : Keyword) : Piece := ofLexeme (.keyword k)

/-- A name that is no keyword. -/
def ofName (name : Text) : Piece := ofLexeme (.identifier name)

/-- The name of a member, which can be any word. -/
def ofMember (name : Text) : Piece := ⟨Lexer.ofWord name, name⟩

end Piece

/-- What a token is apart from its position. -/
def Token.piece (t : Token) : Piece := ⟨t.lexeme, t.raw⟩

/-- A choice of digits for the values of number literals. -/
structure NumberStyle where
  digits : Float → Text
  isNumeral_digits : ∀ t : Text, t.IsNumeral → (digits (Numeral.toFloat t)).IsNumeral
  toFloat_digits : ∀ t : Text, t.IsNumeral →
    Numeral.toFloat (digits (Numeral.toFloat t)) = Numeral.toFloat t

open Classical in
/-- There is a choice of digits, since every value of a literal has a text. -/
theorem NumberStyle.nonempty : Nonempty NumberStyle := by
  have choice : ∀ v : Float, ∃ d : Text, ∀ t : Text, t.IsNumeral → Numeral.toFloat t = v →
      d.IsNumeral ∧ Numeral.toFloat d = v := by
    intro v
    by_cases h : ∃ t : Text, t.IsNumeral ∧ Numeral.toFloat t = v
    · obtain ⟨t, ht, hv⟩ := h
      exact ⟨t, fun _ _ _ => ⟨ht, hv⟩⟩
    · exact ⟨[], fun t ht hv => absurd ⟨t, ht, hv⟩ h⟩
  exact ⟨⟨fun v => (choice v).choose, fun t ht => ((choice _).choose_spec t ht rfl).1,
    fun t ht => ((choice _).choose_spec t ht rfl).2⟩⟩

/-! ## Expressions -/

/-- The lexeme of a binary operator. -/
def BinaryOp.lexeme : BinaryOp → Lexeme
  | add => .mark .plus
  | sub => .mark .minus
  | mul => .mark .star
  | div => .mark .slash
  | mod => .mark .percent
  | eq => .mark .equal
  | ne => .mark .notEqual
  | lt => .mark .less
  | le => .mark .lessEqual
  | gt => .mark .greater
  | ge => .mark .greaterEqual
  | and => .keyword .kwAnd
  | or => .keyword .kwOr

/-- The lexeme of a unary operator. -/
def UnaryOp.lexeme : UnaryOp → Lexeme
  | not => .keyword .kwNot
  | neg => .mark .minus

namespace Printer

/-- Pieces of an expression of a level, at a place for a level. -/
def place (level own : Level) (ps : List Piece) : List Piece :=
  if own.strength < level.strength then .ofMark .openParen :: (ps ++ [.ofMark .closeParen]) else ps

/-- Pieces with commas between them. -/
def commas : List (List Piece) → List Piece
  | [] => []
  | [ps] => ps
  | ps :: qs :: rest => ps ++ .ofMark .comma :: commas (qs :: rest)

/-- Pieces in parentheses, with commas between them. -/
def enclosed (pss : List (List Piece)) : List Piece :=
  .ofMark .openParen :: (commas pss ++ [.ofMark .closeParen])

/-- A keyword that may be absent. -/
def flag (k : Keyword) (present : Bool) : List Piece := if present then [.ofKeyword k] else []

end Printer

open Printer

section

variable (style : NumberStyle)

mutual

/-- The pieces of an expression. -/
def Expr.print : Expr → List Piece
  | .number v _ => [.ofLexeme (.number (style.digits v))]
  | .string value _ => [.ofLexeme (.string value)]
  | .boolean b _ => [.ofKeyword (if b then .kwTrue else .kwFalse)]
  | .date value _ => [.ofLexeme (.date value)]
  | .undefined _ => [.ofKeyword .kwUndefined]
  | .null _ => [.ofKeyword .kwNull]
  | .ident name _ => [.ofName name]
  | .member e name _ => place .access e.level e.print ++ [.ofMark .dot, .ofMember name]
  | .index e key _ =>
    place .access e.level e.print ++ .ofMark .openBracket :: (key.print ++ [.ofMark .closeBracket])
  | .call e args _ => place .access e.level e.print ++ enclosed (Expr.printAll args)
  | .new name args _ => .ofKeyword .kwNew :: .ofName name :: enclosed (Expr.printAll args)
  | .binary op left right _ =>
    place op.level left.level left.print ++ .ofLexeme op.lexeme ::
      place op.level.tighter right.level right.print
  | .unary op e _ => .ofLexeme op.lexeme :: place op.level e.level e.print
  | .choice condition whenTrue whenFalse _ =>
    .ofMark .question :: enclosed [condition.print, whenTrue.print, whenFalse.print]
  | .array .. | .record .. => []

/-- The pieces of each expression. -/
def Expr.printAll : List Expr → List (List Piece)
  | [] => []
  | e :: rest => e.print :: Expr.printAll rest

end

/-- The pieces of an expression at a place for a level. -/
def Expr.printAt (level : Level) (e : Expr) : List Piece := place level e.level (e.print style)

theorem Expr.printAll_eq_map (es : List Expr) :
    Expr.printAll style es = es.map (Expr.print style) := by
  induction es with
  | nil => rfl
  | cons e es ih => rw [Expr.printAll, ih, List.map_cons]

/-! ## Statements -/

namespace Printer

/-- An equals sign and a value, if there is one. -/
def initialValue (level : Level) : Option Expr → List Piece
  | none => []
  | some e => .ofMark .equal :: e.printAt style level

/-- A value, if there is one. -/
def optional : Option Expr → List Piece
  | none => []
  | some e => e.print style

end Printer

/-- The pieces of a parameter. -/
def Param.print (p : Param) : List Piece :=
  flag .kwVal p.byValue ++ .ofName p.name :: initialValue style .sign p.default?

mutual

/-- The pieces of a statement, without the semicolon. -/
def Stmt.print : Stmt → List Piece
  | .declare name exported v _ =>
    .ofKeyword .kwVar :: .ofName name ::
      (initialValue style .disjunction v ++ flag .kwExport exported)
  | .routine kind name params body exported _ =>
    .ofKeyword kind.opening :: .ofName name ::
      (enclosed (params.map (Param.print style)) ++ (flag .kwExport exported ++
        (Stmt.printBlock body ++ [.ofKeyword (Parser.closing kind)])))
  | .assign target v _ => target.printAt style .access ++ .ofMark .equal :: v.print style
  | .call name none args _ => .ofName name :: enclosed (Expr.printAll style args)
  | .call name (some object) args _ =>
    object.printAt style .access ++ .ofMark .dot :: .ofMember name ::
      enclosed (Expr.printAll style args)
  | .conditional c body rest _ =>
    .ofKeyword .kwIf :: (c.print style ++ .ofKeyword .kwThen ::
      (Stmt.printBlock body ++ rest.print))
  | .forTo name first last body _ =>
    .ofKeyword .kwFor :: .ofName name :: .ofMark .equal ::
      (first.print style ++ .ofKeyword .kwTo :: (last.print style ++
        .ofKeyword .kwDo :: (Stmt.printBlock body ++ [.ofKeyword .kwEndDo])))
  | .forEach name collection body _ =>
    .ofKeyword .kwFor :: .ofKeyword .kwEach :: .ofName name :: .ofKeyword .kwIn ::
      (collection.print style ++ .ofKeyword .kwDo ::
        (Stmt.printBlock body ++ [.ofKeyword .kwEndDo]))
  | .whileDo c body _ =>
    .ofKeyword .kwWhile :: (c.print style ++ .ofKeyword .kwDo ::
      (Stmt.printBlock body ++ [.ofKeyword .kwEndDo]))
  | .ret v _ => .ofKeyword .kwReturn :: optional style v
  | .brk _ => [.ofKeyword .kwBreak]
  | .cont _ => [.ofKeyword .kwContinue]
  | .attempt body none _ => .ofKeyword .kwTry :: (Stmt.printBlock body ++ [.ofKeyword .kwEndTry])
  | .attempt body (some handler) _ =>
    .ofKeyword .kwTry ::
      (Stmt.printBlock body ++ .ofKeyword .kwExcept ::
        (Stmt.printBlock handler ++ [.ofKeyword .kwEndTry]))
  | .raise v _ => .ofKeyword .kwRaise :: optional style v

/-- The pieces of a block, with a semicolon after each statement. -/
def Stmt.printBlock : List Stmt → List Piece
  | [] => []
  | s :: rest => s.print ++ .ofMark .semicolon :: Stmt.printBlock rest

/-- The pieces of what follows the first branch of a conditional. -/
def Alternative.print : Alternative → List Piece
  | .none => [.ofKeyword .kwEndIf]
  | .otherwise body => .ofKeyword .kwElse :: (Stmt.printBlock body ++ [.ofKeyword .kwEndIf])
  | .elsif c body rest =>
    .ofKeyword .kwElsif :: (c.print style ++ .ofKeyword .kwThen ::
      (Stmt.printBlock body ++ rest.print))

end

/-- The pieces of a program. -/
def Program.print (p : Program) : List Piece := Stmt.printBlock style p

end

/-! ## Trees without positions -/

mutual

/-- The expression without its positions. -/
def Expr.unlocated : Expr → Expr
  | .number v _ => .number v none
  | .string value _ => .string value none
  | .boolean b _ => .boolean b none
  | .date value _ => .date value none
  | .undefined _ => .undefined none
  | .null _ => .null none
  | .ident name _ => .ident name none
  | .member e name _ => .member e.unlocated name none
  | .index e key _ => .index e.unlocated key.unlocated none
  | .call e args _ => .call e.unlocated (Expr.unlocatedAll args) none
  | .new name args _ => .new name (Expr.unlocatedAll args) none
  | .binary op left right _ => .binary op left.unlocated right.unlocated none
  | .unary op e _ => .unary op e.unlocated none
  | .choice condition whenTrue whenFalse _ =>
    .choice condition.unlocated whenTrue.unlocated whenFalse.unlocated none
  | .array elements _ => .array (Expr.unlocatedAll elements) none
  | .record fields _ => .record (Expr.unlocatedFields fields) none

/-- The expressions without their positions. -/
def Expr.unlocatedAll : List Expr → List Expr
  | [] => []
  | e :: rest => e.unlocated :: Expr.unlocatedAll rest

/-- The fields without the positions of their values. -/
def Expr.unlocatedFields : List (Text × Expr) → List (Text × Expr)
  | [] => []
  | (name, e) :: rest => (name, e.unlocated) :: Expr.unlocatedFields rest

end

/-- The parameter without positions. -/
def Param.unlocated (p : Param) : Param := { p with default? := p.default?.map Expr.unlocated }

mutual

/-- The statement without its positions. -/
def Stmt.unlocated : Stmt → Stmt
  | .declare name exported v _ => .declare name exported (v.map Expr.unlocated) none
  | .routine kind name params body exported _ =>
    .routine kind name (params.map Param.unlocated) (Stmt.unlocatedAll body) exported none
  | .assign target v _ => .assign target.unlocated v.unlocated none
  | .call name object args _ =>
    .call name (object.map Expr.unlocated) (args.map Expr.unlocated) none
  | .conditional c body rest _ =>
    .conditional c.unlocated (Stmt.unlocatedAll body) rest.unlocated none
  | .forTo name first last body _ =>
    .forTo name first.unlocated last.unlocated (Stmt.unlocatedAll body) none
  | .forEach name collection body _ =>
    .forEach name collection.unlocated (Stmt.unlocatedAll body) none
  | .whileDo c body _ => .whileDo c.unlocated (Stmt.unlocatedAll body) none
  | .ret v _ => .ret (v.map Expr.unlocated) none
  | .brk _ => .brk none
  | .cont _ => .cont none
  | .attempt body none _ => .attempt (Stmt.unlocatedAll body) none none
  | .attempt body (some handler) _ =>
    .attempt (Stmt.unlocatedAll body) (some (Stmt.unlocatedAll handler)) none
  | .raise v _ => .raise (v.map Expr.unlocated) none

/-- The statements without their positions. -/
def Stmt.unlocatedAll : List Stmt → List Stmt
  | [] => []
  | s :: rest => s.unlocated :: Stmt.unlocatedAll rest

/-- The chain without its positions. -/
def Alternative.unlocated : Alternative → Alternative
  | .none => .none
  | .otherwise body => .otherwise (Stmt.unlocatedAll body)
  | .elsif c body rest => .elsif c.unlocated (Stmt.unlocatedAll body) rest.unlocated

end

theorem Expr.unlocatedAll_eq_map (es : List Expr) :
    Expr.unlocatedAll es = es.map Expr.unlocated := by
  induction es with
  | nil => rfl
  | cons e es ih => rw [Expr.unlocatedAll, ih, List.map_cons]

theorem Expr.isTarget_unlocated (e : Expr) : e.unlocated.isTarget = e.isTarget := by
  cases e <;> rfl

/-- What is a call up to positions is a call. -/
theorem Expr.eq_call_of_unlocated {e f : Expr} {args : List Expr} {l : Option Position}
    (h : e.unlocated = (Expr.call f args l).unlocated) :
    ∃ f' args' l', e = .call f' args' l' ∧ f'.unlocated = f.unlocated ∧
      args'.map Expr.unlocated = args.map Expr.unlocated := by
  cases e with
  | call f' args' l' =>
    rw [Expr.unlocated, Expr.unlocated, Expr.call.injEq, Expr.unlocatedAll_eq_map,
      Expr.unlocatedAll_eq_map] at h
    exact ⟨f', args', l', rfl, h.1, h.2.1⟩
  | _ => cases h

theorem Expr.eq_ident_of_unlocated {e : Expr} {name : Text} {l : Option Position}
    (h : e.unlocated = (Expr.ident name l).unlocated) : ∃ l', e = .ident name l' := by
  cases e with
  | ident name' l' =>
    cases h
    exact ⟨l', rfl⟩
  | _ => cases h

/-- What is an access to a member up to positions is one. -/
theorem Expr.eq_member_of_unlocated {e f : Expr} {name : Text} {l : Option Position}
    (h : e.unlocated = (Expr.member f name l).unlocated) :
    ∃ f' l', e = .member f' name l' ∧ f'.unlocated = f.unlocated := by
  cases e with
  | member f' name' l' =>
    rw [Expr.unlocated, Expr.unlocated, Expr.member.injEq] at h
    obtain ⟨hf, rfl, -⟩ := h
    exact ⟨f', l', rfl, hf⟩
  | _ => cases h

theorem Stmt.unlocatedAll_eq_map (ss : List Stmt) :
    Stmt.unlocatedAll ss = ss.map Stmt.unlocated := by
  induction ss with
  | nil => rfl
  | cons s ss ih => rw [Stmt.unlocatedAll, ih, List.map_cons]

/-- The program without its positions. -/
def Program.unlocated (p : Program) : Program := p.map Stmt.unlocated

end Gradual
