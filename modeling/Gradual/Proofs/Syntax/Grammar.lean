import Gradual.Syntax.Parser.Stmt

/-!
# The grammar of modules

Which tokens, in which order, are a phrase of a module, and which tree the phrase has. A phrase is a
kind of construct together with its tree, and `Derives ts ph` says that the tokens `ts`, all of them
and in this order, are written for `ph`. Positions are part of the trees: a node stands where the
token stands that makes it one.

Expressions are stratified by `Level`. At a binary level the left operand is of the level itself and
the right one of the next tighter level, so that operators group to the left; parentheses lead back
from the tightest level to the loosest one. Semicolons are optional, which makes the grammar
ambiguous.
-/

namespace Gradual

/-- A token that can name a member: an identifier or a keyword. -/
def Token.IsWord (t : Token) : Prop :=
  (∃ name, t.lexeme = .identifier name) ∨ ∃ k, t.lexeme = .keyword k

/-- The expression that a token is by itself: a literal or a name. -/
def Lexeme.atom? : Lexeme → Option (Option Position → Expr)
  | .number digits => some (.number (Numeral.toFloat digits))
  | .string value => some (.string value)
  | .date value => some (.date value)
  | .identifier name => some (.ident name)
  | .keyword .kwTrue => some (.boolean true)
  | .keyword .kwFalse => some (.boolean false)
  | .keyword .kwUndefined => some .undefined
  | .keyword .kwNull => some .null
  | _ => none

/-- The keyword that opens a routine. -/
def RoutineKind.opening : RoutineKind → Keyword
  | .procedure => .kwProcedure
  | .function => .kwFunction

/-- Kinds of constructs, each with its tree. -/
inductive Phrase where
  /-- An expression that binds at least as tightly as the level. -/
  | expression (level : Level) (e : Expr)
  /-- An argument, present or left out, in front of the token that ends it. -/
  | argument (stop : Token) (e : Expr)
  /-- One or more arguments with the closing parenthesis. -/
  | argumentList (args : List Expr)
  /-- Any arguments with the closing parenthesis. -/
  | arguments (args : List Expr)
  /-- A keyword that may be absent. -/
  | flag (word : Keyword) (present : Bool)
  /-- An equals sign and an expression of the level, both of which may be absent. -/
  | initialValue (level : Level) (value : Option Expr)
  /-- One declared variable. -/
  | declared (d : Stmt)
  /-- Declared variables with commas between them. -/
  | declarations (ds : List Stmt)
  | parameter (p : Param)
  /-- One or more parameters with commas between them. -/
  | parameterList (ps : List Param)
  /-- Parameters in parentheses. -/
  | parameters (ps : List Param)
  /-- An expression that may be absent. -/
  | optional (value : Option Expr)
  /-- What is written as one statement; a declaration counts once for each variable. -/
  | statement (ss : List Stmt)
  /-- Statements with any number of semicolons before, between and after them. -/
  | block (ss : List Stmt)
  /-- A block between the keywords of a loop. -/
  | loopBody (ss : List Stmt)
  /-- What follows the first branch of a conditional, with the closing keyword. -/
  | alternative (a : Alternative)

/-- The tokens are written for the phrase. -/
inductive Derives : List Token → Phrase → Prop where
  -- Expressions. Every level holds the next tighter one.
  | tighter {level : Level} {ts : List Token} {e : Expr} :
      Derives ts (.expression level.tighter e) → Derives ts (.expression level e)
  | operation {level : Level} {t : Token} {op : BinaryOp} {xs ys : List Token} {left right : Expr} :
      level.operator? t.lexeme = some op → Derives xs (.expression level left) →
      Derives ys (.expression level.tighter right) →
      Derives (xs ++ t :: ys) (.expression level (.binary op left right (some t.position)))
  | negation {t : Token} {ts : List Token} {e : Expr} :
      t.lexeme = .keyword .kwNot → Derives ts (.expression .negation e) →
      Derives (t :: ts) (.expression .negation (.unary .not e (some t.position)))
  | minus {t : Token} {ts : List Token} {e : Expr} :
      t.lexeme = .mark .minus → Derives ts (.expression .sign e) →
      Derives (t :: ts) (.expression .sign (.unary .neg e (some t.position)))
  | plus {t : Token} {ts : List Token} {e : Expr} :
      t.lexeme = .mark .plus → Derives ts (.expression .sign e) →
        Derives (t :: ts) (.expression .sign e)
  | member {ts : List Token} {d n : Token} {e : Expr} :
      Derives ts (.expression .access e) → d.lexeme = .mark .dot → n.IsWord →
      Derives (ts ++ [d, n]) (.expression .access (.member e n.raw (some d.position)))
  | call {xs ys : List Token} {o : Token} {e : Expr} {args : List Expr} :
      Derives xs (.expression .access e) → o.lexeme = .mark .openParen →
      Derives ys (.arguments args) →
      Derives (xs ++ o :: ys) (.expression .access (.call e args e.loc))
  | index {xs ys : List Token} {o c : Token} {e key : Expr} :
      Derives xs (.expression .access e) → o.lexeme = .mark .openBracket →
      Derives ys (.expression .disjunction key) → c.lexeme = .mark .closeBracket →
      Derives (xs ++ o :: (ys ++ [c])) (.expression .access (.index e key (some o.position)))
  | atom {t : Token} {make : Option Position → Expr} :
      t.lexeme.atom? = some make → Derives [t] (.expression .access (make (some t.position)))
  | new {k n : Token} {name : Text} :
      k.lexeme = .keyword .kwNew → n.lexeme = .identifier name →
      Derives [k, n] (.expression .access (.new name [] (some k.position)))
  | newWith {k n o : Token} {name : Text} {ts : List Token} {args : List Expr} :
      k.lexeme = .keyword .kwNew → n.lexeme = .identifier name → o.lexeme = .mark .openParen →
      Derives ts (.arguments args) →
      Derives (k :: n :: o :: ts) (.expression .access (.new name args (some k.position)))
  | parentheses {o c : Token} {ts : List Token} {e : Expr} :
      o.lexeme = .mark .openParen → Derives ts (.expression .disjunction e) →
      c.lexeme = .mark .closeParen →
      Derives (o :: (ts ++ [c])) (.expression .access e)
  | choice {q o d d' c : Token} {xs ys zs : List Token} {condition whenTrue whenFalse : Expr} :
      q.lexeme = .mark .question → o.lexeme = .mark .openParen →
      Derives xs (.expression .disjunction condition) →
      d.lexeme = .mark .comma → Derives ys (.expression .disjunction whenTrue) →
      d'.lexeme = .mark .comma → Derives zs (.expression .disjunction whenFalse) →
      c.lexeme = .mark .closeParen →
      Derives (q :: o :: (xs ++ d :: (ys ++ d' :: (zs ++ [c]))))
        (.expression .access (.choice condition whenTrue whenFalse (some q.position)))
  -- Arguments. One that is left out stands where the token after it does.
  | given {stop : Token} {ts : List Token} {e : Expr} :
      Derives ts (.expression .disjunction e) → Derives ts (.argument stop e)
  | skipped {stop : Token} : Derives [] (.argument stop (.undefined (some stop.position)))
  | lastArgument {c : Token} {ts : List Token} {e : Expr} :
      Derives ts (.argument c e) → c.lexeme = .mark .closeParen →
        Derives (ts ++ [c]) (.argumentList [e])
  | moreArguments {d : Token} {xs ys : List Token} {e : Expr} {es : List Expr} :
      Derives xs (.argument d e) → d.lexeme = .mark .comma → Derives ys (.argumentList es) →
      Derives (xs ++ d :: ys) (.argumentList (e :: es))
  | noArguments {c : Token} : c.lexeme = .mark .closeParen → Derives [c] (.arguments [])
  | someArguments {ts : List Token} {args : List Expr} :
      (∀ t ∈ ts.head?, t.lexeme ≠ .mark .closeParen) → Derives ts (.argumentList args) →
        Derives ts (.arguments args)
  -- Declarations.
  | absent {k : Keyword} : Derives [] (.flag k false)
  | present {k : Keyword} {t : Token} : t.lexeme = .keyword k → Derives [t] (.flag k true)
  | noValue {level : Level} : Derives [] (.initialValue level none)
  | value {level : Level} {t : Token} {ts : List Token} {e : Expr} :
      t.lexeme = .mark .equal → Derives ts (.expression level e) →
        Derives (t :: ts) (.initialValue level (some e))
  | declared {n : Token} {name : Text} {xs ys : List Token} {v : Option Expr} {exported : Bool} :
      n.lexeme = .identifier name → Derives xs (.initialValue .disjunction v) →
      Derives ys (.flag .kwExport exported) →
      Derives (n :: (xs ++ ys)) (.declared (.declare name exported v (some n.position)))
  | lastVariable {ts : List Token} {d : Stmt} : Derives ts (.declared d) →
    Derives ts (.declarations [d])
  | moreVariables {xs ys : List Token} {t : Token} {d : Stmt} {ds : List Stmt} :
      Derives xs (.declared d) → t.lexeme = .mark .comma → Derives ys (.declarations ds) →
      Derives (xs ++ t :: ys) (.declarations (d :: ds))
  | parameter {n : Token} {name : Text} {xs ys : List Token} {byValue : Bool} {v : Option Expr} :
      Derives xs (.flag .kwVal byValue) → n.lexeme = .identifier name →
      Derives ys (.initialValue .sign v) →
      Derives (xs ++ n :: ys) (.parameter ⟨name, byValue, v⟩)
  | lastParameter {ts : List Token} {p : Param} : Derives ts (.parameter p) →
    Derives ts (.parameterList [p])
  | moreParameters {xs ys : List Token} {t : Token} {p : Param} {ps : List Param} :
      Derives xs (.parameter p) → t.lexeme = .mark .comma → Derives ys (.parameterList ps) →
      Derives (xs ++ t :: ys) (.parameterList (p :: ps))
  | noParameters {o c : Token} :
      o.lexeme = .mark .openParen → c.lexeme = .mark .closeParen → Derives [o, c] (.parameters [])
  | someParameters {o c : Token} {ts : List Token} {ps : List Param} :
      o.lexeme = .mark .openParen → Derives ts (.parameterList ps) → c.lexeme = .mark .closeParen →
      Derives (o :: (ts ++ [c])) (.parameters ps)
  -- Statements.
  | noExpression : Derives [] (.optional none)
  | someExpression {ts : List Token} {e : Expr} :
      Derives ts (.expression .disjunction e) → Derives ts (.optional (some e))
  | varStatement {t : Token} {ts : List Token} {ds : List Stmt} :
      t.lexeme = .keyword .kwVar → Derives ts (.declarations ds) → Derives (t :: ts) (.statement ds)
  | routine {kind : RoutineKind} {k n c : Token} {name : Text} {xs ys zs : List Token}
    {ps : List Param}
      {exported : Bool} {body : List Stmt} :
      k.lexeme = .keyword kind.opening → n.lexeme = .identifier name → Derives xs (.parameters ps) →
      Derives ys (.flag .kwExport exported) → Derives zs (.block body) →
      c.lexeme = .keyword (Parser.closing kind) →
      Derives (k :: n :: (xs ++ (ys ++ (zs ++ [c]))))
        (.statement [.routine kind name ps body exported (some k.position)])
  | conditional {k t : Token} {xs ys zs : List Token} {condition : Expr} {body : List Stmt}
    {rest : Alternative} :
      k.lexeme = .keyword .kwIf → Derives xs (.expression .disjunction condition) →
      t.lexeme = .keyword .kwThen →
      Derives ys (.block body) → Derives zs (.alternative rest) →
      Derives (k :: (xs ++ t :: (ys ++ zs)))
        (.statement [.conditional condition body rest (some k.position)])
  | forEach {k e n i : Token} {name : Text} {xs ys : List Token} {collection : Expr}
    {body : List Stmt} :
      k.lexeme = .keyword .kwFor → e.lexeme = .keyword .kwEach → n.lexeme = .identifier name →
      i.lexeme = .keyword .kwIn → Derives xs (.expression .disjunction collection) →
      Derives ys (.loopBody body) →
      Derives (k :: e :: n :: i :: (xs ++ ys))
        (.statement [.forEach name collection body (some k.position)])
  | forTo {k n e t : Token} {name : Text} {xs ys zs : List Token} {first last : Expr}
    {body : List Stmt} :
      k.lexeme = .keyword .kwFor → n.lexeme = .identifier name → e.lexeme = .mark .equal →
      Derives xs (.expression .disjunction first) → t.lexeme = .keyword .kwTo →
      Derives ys (.expression .disjunction last) → Derives zs (.loopBody body) →
      Derives (k :: n :: e :: (xs ++ t :: (ys ++ zs)))
        (.statement [.forTo name first last body (some k.position)])
  | whileDo {k : Token} {xs ys : List Token} {condition : Expr} {body : List Stmt} :
      k.lexeme = .keyword .kwWhile → Derives xs (.expression .disjunction condition) →
      Derives ys (.loopBody body) →
      Derives (k :: (xs ++ ys)) (.statement [.whileDo condition body (some k.position)])
  | ret {k : Token} {ts : List Token} {v : Option Expr} :
      k.lexeme = .keyword .kwReturn → Derives ts (.optional v) →
      Derives (k :: ts) (.statement [.ret v (some k.position)])
  | brk {k : Token} : k.lexeme = .keyword .kwBreak →
    Derives [k] (.statement [.brk (some k.position)])
  | cont {k : Token} : k.lexeme = .keyword .kwContinue →
    Derives [k] (.statement [.cont (some k.position)])
  | attempt {k c : Token} {ts : List Token} {body : List Stmt} :
      k.lexeme = .keyword .kwTry → Derives ts (.block body) → c.lexeme = .keyword .kwEndTry →
      Derives (k :: (ts ++ [c])) (.statement [.attempt body none (some k.position)])
  | attemptWith {k e c : Token} {xs ys : List Token} {body handler : List Stmt} :
      k.lexeme = .keyword .kwTry → Derives xs (.block body) → e.lexeme = .keyword .kwExcept →
      Derives ys (.block handler) → c.lexeme = .keyword .kwEndTry →
      Derives (k :: (xs ++ e :: (ys ++ [c])))
        (.statement [.attempt body (some handler) (some k.position)])
  | raise {k : Token} {ts : List Token} {v : Option Expr} :
      k.lexeme = .keyword .kwRaise → Derives ts (.optional v) →
      Derives (k :: ts) (.statement [.raise v (some k.position)])
  | assign {t e : Token} {xs ys : List Token} {target value : Expr} :
      Derives (t :: xs) (.expression .access target) → target.isTarget = true →
      e.lexeme = .mark .equal →
      Derives ys (.expression .disjunction value) →
      Derives (t :: (xs ++ e :: ys)) (.statement [.assign target value (some t.position)])
  | callStatement {t : Token} {ts : List Token} {name : Text} {args : List Expr}
    {l l' : Option Position} :
      Derives (t :: ts) (.expression .access (.call (.ident name l) args l')) →
      Derives (t :: ts) (.statement [.call name none args (some t.position)])
  | methodStatement {t : Token} {ts : List Token} {object : Expr} {name : Text} {args : List Expr}
      {l l' : Option Position} :
      Derives (t :: ts) (.expression .access (.call (.member object name l) args l')) →
      Derives (t :: ts) (.statement [.call name (some object) args (some t.position)])
  -- Blocks.
  | empty : Derives [] (.block [])
  | semicolon {t : Token} {ts : List Token} {ss : List Stmt} :
      t.lexeme = .mark .semicolon → Derives ts (.block ss) → Derives (t :: ts) (.block ss)
  | statement {xs ys : List Token} {first more : List Stmt} :
      Derives xs (.statement first) → Derives ys (.block more) →
        Derives (xs ++ ys) (.block (first ++ more))
  | loopBody {d c : Token} {ts : List Token} {ss : List Stmt} :
      d.lexeme = .keyword .kwDo → Derives ts (.block ss) → c.lexeme = .keyword .kwEndDo →
      Derives (d :: (ts ++ [c])) (.loopBody ss)
  | endIf {c : Token} : c.lexeme = .keyword .kwEndIf → Derives [c] (.alternative .none)
  | otherwise {k c : Token} {ts : List Token} {ss : List Stmt} :
      k.lexeme = .keyword .kwElse → Derives ts (.block ss) → c.lexeme = .keyword .kwEndIf →
      Derives (k :: (ts ++ [c])) (.alternative (.otherwise ss))
  | elsif {k t : Token} {xs ys zs : List Token} {condition : Expr} {body : List Stmt}
    {rest : Alternative} :
      k.lexeme = .keyword .kwElsif → Derives xs (.expression .disjunction condition) →
      t.lexeme = .keyword .kwThen → Derives ys (.block body) → Derives zs (.alternative rest) →
      Derives (k :: (xs ++ t :: (ys ++ zs))) (.alternative (.elsif condition body rest))

/-! ## Levels of operators -/

/-- How tightly a level binds, as a number. -/
def Level.strength : Level → Nat
  | disjunction => 0
  | conjunction => 1
  | negation => 2
  | comparison => 3
  | sum => 4
  | product => 5
  | sign => 6
  | access => 7

/-- The level of a binary operator. -/
def BinaryOp.level : BinaryOp → Level
  | or => .disjunction
  | and => .conjunction
  | eq | ne | lt | le | gt | ge => .comparison
  | add | sub => .sum
  | mul | div | mod => .product

/-- The level of a unary operator. -/
def UnaryOp.level : UnaryOp → Level
  | not => .negation
  | neg => .sign

/-- The level of an expression: that of its outermost operator, the tightest without one. -/
def Expr.level : Expr → Level
  | .binary op .. => op.level
  | .unary op .. => op.level
  | _ => .access

theorem Level.strength_le_tighter (level : Level) : level.strength ≤ level.tighter.strength := by
  cases level <;> decide

theorem Level.strength_le (level : Level) : level.strength ≤ 7 := by
  cases level <;> decide

/-- The next tighter level is stronger by one. -/
theorem Level.strength_tighter {level : Level} (h : level ≠ .access) :
    level.tighter.strength = level.strength + 1 := by
  cases level <;> first | rfl | exact absurd rfl h

theorem Level.eq_of_strength_eq {a b : Level} (h : a.strength = b.strength) : a = b := by
  revert h
  cases a <;> cases b <;> decide

theorem BinaryOp.level_ne_access (op : BinaryOp) : op.level ≠ .access := by
  cases op <;> decide

/-- An operator that is read at a level belongs to it. -/
theorem Level.level_of_operator? {level : Level} {l : Lexeme} {op : BinaryOp}
    (h : level.operator? l = some op) : op.level = level := by
  rw [Level.operator?.eq_def] at h
  split at h <;> cases h <;> rfl

/-- An atom stands at the tightest level. -/
theorem Lexeme.level_of_atom? {l : Lexeme} {make : Option Position → Expr} (h : l.atom? = some make)
    (p : Option Position) : (make p).level = .access := by
  rw [Lexeme.atom?.eq_def] at h
  split at h <;> cases h <;> rfl

/-! ## Operands -/

/-- The tokens are the expression in parentheses, after any number of plus signs. -/
def Enclosed (ts : List Token) (e : Expr) : Prop :=
  ∃ signs o inner c, ts = signs ++ o :: (inner ++ [c]) ∧ (∀ t ∈ signs, t.lexeme = .mark .plus) ∧
    o.lexeme = .mark .openParen ∧ c.lexeme = .mark .closeParen ∧
      Derives inner (.expression .disjunction e)

/-- The tokens are the expression at a place for the level: an operator that binds more loosely is
in parentheses. -/
def Operand (ts : List Token) (level : Level) (e : Expr) : Prop :=
  Derives ts (.expression level e) ∧ (e.level.strength < level.strength → Enclosed ts e)

namespace Derives

/-- An expression has tokens. -/
theorem expression_ne_nil {ts : List Token} {level : Level} {e : Expr}
    (h : Derives ts (.expression level e)) : ts ≠ [] := by
  generalize hph : Phrase.expression level e = ph at h
  induction h generalizing level e with
  | tighter h ih => exact ih rfl
  | _ => simp at hph ⊢

/-- What binds more loosely than its place asks for is in parentheses. -/
theorem operand {ts : List Token} {level : Level} {e : Expr}
    (h : Derives ts (.expression level e)) : Operand ts level e := by
  refine ⟨h, ?_⟩
  generalize hph : Phrase.expression level e = ph at h
  induction h generalizing level e with
  | tighter h ih =>
    cases hph
    intro hlt
    exact ih rfl (Nat.lt_of_lt_of_le hlt (Level.strength_le_tighter _))
  | operation hop _ _ =>
    cases hph
    intro hlt
    rw [Expr.level, Level.level_of_operator? hop] at hlt
    exact absurd hlt (Nat.lt_irrefl _)
  | plus ht _ ih =>
    cases hph
    intro hlt
    obtain ⟨signs, o, inner, c, rfl, hsigns, ho, hc, hinner⟩ := ih rfl hlt
    exact ⟨_ :: signs, o, inner, c, rfl, by simpa using ⟨ht, hsigns⟩, ho, hc, hinner⟩
  | parentheses ho hinner hc =>
    cases hph
    intro _
    exact ⟨[], _, _, _, rfl, by simp, ho, hc, hinner⟩
  | atom hm =>
    cases hph
    intro hlt
    rw [Lexeme.level_of_atom? hm] at hlt
    exact absurd hlt (Nat.lt_irrefl _)
  | negation | minus | member | call | index | new | newWith | choice =>
    cases hph
    intro hlt
    exact absurd hlt (Nat.lt_irrefl _)
  | _ => cases hph

/-- A binary node is written as its operator between its operands, the right one at the next tighter
level. -/
theorem operands {ts : List Token} {level : Level} {op : BinaryOp} {left right : Expr}
    {l : Option Position} (h : Derives ts (.expression level (.binary op left right l))) :
    ∃ xs t ys, xs ++ t :: ys <:+: ts ∧ op.level.operator? t.lexeme = some op ∧ l = some t.position ∧
      Operand xs op.level left ∧ Operand ys op.level.tighter right := by
  generalize hph : Phrase.expression level (.binary op left right l) = ph at h
  induction h generalizing level with
  | tighter _ ih =>
    cases hph
    exact ih rfl
  | @operation level t op xs ys left right hop hl hr =>
    cases hph
    have hlevel := Level.level_of_operator? hop
    subst hlevel
    exact ⟨xs, t, ys, List.infix_rfl, hop, rfl, hl.operand, hr.operand⟩
  | plus _ _ ih =>
    cases hph
    obtain ⟨xs, t, ys, hin, h⟩ := ih rfl
    exact ⟨xs, t, ys, hin.trans (List.suffix_cons _ _).isInfix, h⟩
  | parentheses _ _ _ ih =>
    cases hph
    obtain ⟨xs, t, ys, hin, h⟩ := ih rfl
    exact ⟨xs, t, ys, hin.trans ⟨[_], [_], rfl⟩, h⟩
  | @atom t _ hm =>
    injection hph with _ hbinary
    have hlevel := Lexeme.level_of_atom? hm (some t.position)
    rw [← hbinary] at hlevel
    cases op <;> cases hlevel
  | _ => cases hph

end Derives

end Gradual
