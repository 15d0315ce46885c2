import Gradual.Proofs.Syntax.Grammar

/-!
# Trees that a text can express

Not every tree stands for a text: names have to be words, values of number literals have to be
written in digits, assignments need a target, and there is no notation for literal arrays and
records. `Expressible` says what is left.

Main statement: `Derives.expressible`. A phrase that is derived from tokens of the lexer is
expressible.
-/

namespace Gradual

namespace Text

/-- A word: a unit that starts an identifier, then units that continue one. -/
def IsWord : Text → Prop
  | [] => False
  | c :: rest => isWordStart c = true ∧ ∀ d ∈ rest, isWordPart d = true

/-- A word that is no keyword. -/
def IsIdentifier (t : Text) : Prop := t.IsWord ∧ Keyword.ofWord? t = none

/-- One or more digits. -/
def IsDigits (t : Text) : Prop := t ≠ [] ∧ ∀ c ∈ t, isDigit c = true

/-- Digits, with a fraction or without. -/
def IsNumeral (t : Text) : Prop :=
  t.IsDigits ∨ ∃ whole fraction : Text, whole.IsDigits ∧ fraction.IsDigits ∧
    t = whole ++ Lexer.point :: fraction

end Text

/-! ## Trees -/

/-- Expressions that a text can express. -/
inductive Expr.Expressible : Expr → Prop where
  | number {t : Text} {l : Option Position} : t.IsNumeral →
    Expressible (.number (Numeral.toFloat t) l)
  | string {t : Text} {l : Option Position} : Expressible (.string t l)
  | boolean {b : Bool} {l : Option Position} : Expressible (.boolean b l)
  | date {t : Text} {l : Option Position} : Expressible (.date t l)
  | undefined {l : Option Position} : Expressible (.undefined l)
  | null {l : Option Position} : Expressible (.null l)
  | ident {name : Text} {l : Option Position} : name.IsIdentifier → Expressible (.ident name l)
  | member {e : Expr} {name : Text} {l : Option Position} :
      Expressible e → name.IsWord → Expressible (.member e name l)
  | index {e key : Expr} {l : Option Position} : Expressible e → Expressible key →
    Expressible (.index e key l)
  | call {e : Expr} {args : List Expr} {l : Option Position} :
      Expressible e → (∀ a ∈ args, Expressible a) → Expressible (.call e args l)
  | new {name : Text} {args : List Expr} {l : Option Position} :
      name.IsIdentifier → (∀ a ∈ args, Expressible a) → Expressible (.new name args l)
  | binary {op : BinaryOp} {left right : Expr} {l : Option Position} :
      Expressible left → Expressible right → Expressible (.binary op left right l)
  | unary {op : UnaryOp} {e : Expr} {l : Option Position} : Expressible e →
    Expressible (.unary op e l)
  | choice {condition whenTrue whenFalse : Expr} {l : Option Position} :
      Expressible condition → Expressible whenTrue → Expressible whenFalse →
      Expressible (.choice condition whenTrue whenFalse l)

/-- Parameters that a text can express. -/
structure Param.Expressible (p : Param) : Prop where
  name : p.name.IsIdentifier
  default : ∀ e ∈ p.default?, e.Expressible

namespace Alternative

/-- The conditions of a chain. -/
def conditions : Alternative → List Expr
  | none => []
  | otherwise _ => []
  | elsif c _ rest => c :: rest.conditions

/-- The statements in all blocks of a chain. -/
def statements : Alternative → List Stmt
  | none => []
  | otherwise body => body
  | elsif _ body rest => body ++ rest.statements

end Alternative

/-- Statements that a text can express. The name of a called method can be any word. -/
inductive Stmt.Expressible : Stmt → Prop where
  | declare {name : Text} {exported : Bool} {v : Option Expr} {l : Option Position} :
      name.IsIdentifier → (∀ e ∈ v, e.Expressible) → Expressible (.declare name exported v l)
  | routine {kind : RoutineKind} {name : Text} {params : List Param} {body : List Stmt}
    {exported : Bool}
      {l : Option Position} :
      name.IsIdentifier → (∀ p ∈ params, p.Expressible) → (∀ s ∈ body, Expressible s) →
      Expressible (.routine kind name params body exported l)
  | assign {target v : Expr} {l : Option Position} :
      target.Expressible → target.isTarget = true → v.Expressible → Expressible (.assign target v l)
  | call {name : Text} {args : List Expr} {l : Option Position} :
      name.IsIdentifier → (∀ a ∈ args, a.Expressible) → Expressible (.call name none args l)
  | method {object : Expr} {name : Text} {args : List Expr} {l : Option Position} :
      object.Expressible → name.IsWord → (∀ a ∈ args, a.Expressible) →
      Expressible (.call name (some object) args l)
  | conditional {c : Expr} {body : List Stmt} {rest : Alternative} {l : Option Position} :
      c.Expressible → (∀ s ∈ body, Expressible s) → (∀ e ∈ rest.conditions, e.Expressible) →
      (∀ s ∈ rest.statements, Expressible s) → Expressible (.conditional c body rest l)
  | forTo {name : Text} {first last : Expr} {body : List Stmt} {l : Option Position} :
      name.IsIdentifier → first.Expressible → last.Expressible → (∀ s ∈ body, Expressible s) →
      Expressible (.forTo name first last body l)
  | forEach {name : Text} {collection : Expr} {body : List Stmt} {l : Option Position} :
      name.IsIdentifier → collection.Expressible → (∀ s ∈ body, Expressible s) →
      Expressible (.forEach name collection body l)
  | whileDo {c : Expr} {body : List Stmt} {l : Option Position} :
      c.Expressible → (∀ s ∈ body, Expressible s) → Expressible (.whileDo c body l)
  | ret {v : Option Expr} {l : Option Position} : (∀ e ∈ v, e.Expressible) → Expressible (.ret v l)
  | brk {l : Option Position} : Expressible (.brk l)
  | cont {l : Option Position} : Expressible (.cont l)
  | attempt {body : List Stmt} {handler : Option (List Stmt)} {l : Option Position} :
      (∀ s ∈ body, Expressible s) → (∀ b ∈ handler, ∀ s ∈ b, Expressible s) →
        Expressible (.attempt body handler l)
  | raise {v : Option Expr} {l : Option Position} : (∀ e ∈ v, e.Expressible) →
    Expressible (.raise v l)

/-- Programs that a text can express. -/
def Program.Expressible (p : Program) : Prop := ∀ s ∈ p, s.Expressible

/-! ## Phrases -/

/-- The tree of the phrase can be expressed. -/
def Phrase.Expressible : Phrase → Prop
  | expression _ e | argument _ e => e.Expressible
  | argumentList es | arguments es => ∀ e ∈ es, e.Expressible
  | flag .. => True
  | initialValue _ v | optional v => ∀ e ∈ v, e.Expressible
  | declared d => d.Expressible
  | parameter p => p.Expressible
  | parameterList ps | parameters ps => ∀ p ∈ ps, p.Expressible
  | declarations ss | statement ss | block ss | loopBody ss => ∀ s ∈ ss, s.Expressible
  | alternative a => (∀ e ∈ a.conditions, e.Expressible) ∧ ∀ s ∈ a.statements, s.Expressible

theorem Phrase.expressible_statement {s : Stmt} (h : s.Expressible) :
    (Phrase.statement [s]).Expressible := by
  simpa [Phrase.Expressible] using h

/-- What the lexer says of a token: an identifier is written as the name it stands for, a keyword as
a word that spells it, a number in digits. -/
def Token.Lexed (t : Token) : Prop :=
  match t.lexeme with
  | .identifier name => name.IsIdentifier ∧ t.raw = name
  | .keyword k => t.raw.IsWord ∧ Keyword.ofWord? t.raw = some k
  | .number digits => digits.IsNumeral
  | _ => True

namespace Token.Lexed

/-- An identifier of the source is one that can be written. -/
theorem isIdentifier {t : Token} {name : Text} (h : t.Lexed) (hl : t.lexeme = .identifier name) :
    name.IsIdentifier := by
  rw [Token.Lexed, hl] at h
  exact h.1

theorem isWord {t : Token} (h : t.Lexed) (hw : t.IsWord) : t.raw.IsWord := by
  rcases hw with ⟨name, hl⟩ | ⟨k, hl⟩
  · rw [Token.Lexed, hl] at h
    rw [h.2]
    exact h.1.1
  · rw [Token.Lexed, hl] at h
    exact h.1

/-- An atom of the source can be written. -/
theorem expressible_atom {t : Token} {make : Option Position → Expr} (h : t.Lexed)
    (hm : t.lexeme.atom? = some make) (l : Option Position) : (make l).Expressible := by
  rw [Lexeme.atom?.eq_def] at hm
  split at hm
  · next digits hl =>
    rw [Token.Lexed, hl] at h
    cases hm
    exact .number h
  · cases hm
    exact .string
  · cases hm
    exact .date
  · next name hl =>
    cases hm
    exact .ident (h.isIdentifier hl)
  · cases hm
    exact .boolean
  · cases hm
    exact .boolean
  · cases hm
    exact .undefined
  · cases hm
    exact .null
  · cases hm

end Token.Lexed

/-- **Derived phrases are expressible.** -/
theorem Derives.expressible {ts : List Token} {ph : Phrase} (h : Derives ts ph)
    (hts : ∀ t ∈ ts, t.Lexed) : ph.Expressible := by
  induction h with
  | tighter _ ih => exact ih hts
  | operation _ _ _ ihl ihr => exact .binary (ihl (by grind)) (ihr (by grind))
  | negation _ _ ih => exact .unary (ih (by grind))
  | minus _ _ ih => exact .unary (ih (by grind))
  | plus _ _ ih => exact ih (by grind)
  | member _ _ hn ih => exact .member (ih (by grind)) (Token.Lexed.isWord (hts _ (by simp)) hn)
  | call _ _ _ ihe iha => exact .call (ihe (by grind)) (iha (by grind))
  | index _ _ _ _ ihe ihk => exact .index (ihe (by grind)) (ihk (by grind))
  | atom hm => exact Token.Lexed.expressible_atom (hts _ (by simp)) hm _
  | new _ hn => exact .new ((hts _ (by simp)).isIdentifier hn) (by simp)
  | newWith _ hn _ _ ih => exact .new ((hts _ (by simp)).isIdentifier hn) (ih (by grind))
  | parentheses _ _ _ ih => exact ih (by grind)
  | choice _ _ _ _ _ _ _ _ ihc iht ihf =>
    exact .choice (ihc (by grind)) (iht (by grind)) (ihf (by grind))
  | given _ ih => exact ih hts
  | skipped => exact Expr.Expressible.undefined
  | lastArgument _ _ ih => simpa [Phrase.Expressible] using ih (by grind)
  | moreArguments _ _ _ ihe ihs => simpa [Phrase.Expressible] using ⟨ihe (by grind), ihs (by grind)⟩
  | noArguments _ => simp [Phrase.Expressible]
  | someArguments _ _ ih => exact ih hts
  | absent => trivial
  | present _ => trivial
  | noValue => simp [Phrase.Expressible]
  | value _ _ ih => simpa [Phrase.Expressible] using ih (by grind)
  | declared hn _ _ ihv => exact .declare ((hts _ (by simp)).isIdentifier hn) (ihv (by grind))
  | lastVariable _ ih => simpa [Phrase.Expressible] using ih hts
  | moreVariables _ _ _ ihd ihs => simpa [Phrase.Expressible] using ⟨ihd (by grind), ihs (by grind)⟩
  | parameter _ hn _ _ ihv => exact ⟨(hts _ (by simp)).isIdentifier hn, ihv (by grind)⟩
  | lastParameter _ ih => simpa [Phrase.Expressible] using ih hts
  | moreParameters _ _ _ ihp ihs =>
    simpa [Phrase.Expressible] using ⟨ihp (by grind), ihs (by grind)⟩
  | noParameters _ _ => simp [Phrase.Expressible]
  | someParameters _ _ _ ih => exact ih (by grind)
  | noExpression => simp [Phrase.Expressible]
  | someExpression _ ih => simpa [Phrase.Expressible] using ih hts
  | varStatement _ _ ih => exact ih (by grind)
  | routine _ hn _ _ _ _ ihp _ ihb =>
    exact Phrase.expressible_statement
      (.routine ((hts _ (by simp)).isIdentifier hn) (ihp (by grind)) (ihb (by grind)))
  | conditional _ _ _ _ _ ihc ihb iha =>
    obtain ⟨hc, hs⟩ := iha (by grind)
    exact Phrase.expressible_statement (.conditional (ihc (by grind)) (ihb (by grind)) hc hs)
  | forEach _ _ hn _ _ _ ihc ihb =>
    exact Phrase.expressible_statement
      (.forEach ((hts _ (by simp)).isIdentifier hn) (ihc (by grind)) (ihb (by grind)))
  | forTo _ hn _ _ _ _ _ ihf ihl ihb =>
    exact Phrase.expressible_statement
      (.forTo ((hts _ (by simp)).isIdentifier hn) (ihf (by grind)) (ihl (by grind))
        (ihb (by grind)))
  | whileDo _ _ _ ihc ihb =>
    exact Phrase.expressible_statement (.whileDo (ihc (by grind)) (ihb (by grind)))
  | ret _ _ ih => exact Phrase.expressible_statement (.ret (ih (by grind)))
  | brk _ => exact Phrase.expressible_statement .brk
  | cont _ => exact Phrase.expressible_statement .cont
  | attempt _ _ _ ih => exact Phrase.expressible_statement (.attempt (ih (by grind)) (by simp))
  | attemptWith _ _ _ _ _ ihb ihh =>
    have hh : ∀ s ∈ _, Stmt.Expressible s := ihh (by grind)
    exact Phrase.expressible_statement (.attempt (ihb (by grind)) (by simpa using hh))
  | raise _ _ ih => exact Phrase.expressible_statement (.raise (ih (by grind)))
  | assign _ ht _ _ iht ihv =>
    exact Phrase.expressible_statement (.assign (iht (by grind)) ht (ihv (by grind)))
  | callStatement _ ih =>
    have hcall : Expr.Expressible (.call _ _ _) := ih hts
    cases hcall with
    | call hn ha =>
      cases hn with
      | ident hn => exact Phrase.expressible_statement (.call hn ha)
  | methodStatement _ ih =>
    have hcall : Expr.Expressible (.call _ _ _) := ih hts
    cases hcall with
    | call hm ha =>
      cases hm with
      | member ho hn => exact Phrase.expressible_statement (.method ho hn ha)
  | empty => simp [Phrase.Expressible]
  | semicolon _ _ ih => exact ih (by grind)
  | statement _ _ ihs ihb =>
    intro s hm
    rcases List.mem_append.1 hm with hm | hm
    · exact ihs (by grind) s hm
    · exact ihb (by grind) s hm
  | loopBody _ _ _ ih => exact ih (by grind)
  | endIf _ => simp [Phrase.Expressible, Alternative.conditions, Alternative.statements]
  | otherwise _ _ _ ih =>
    simpa [Phrase.Expressible, Alternative.conditions, Alternative.statements] using ih (by grind)
  | elsif _ _ _ _ _ ihc ihb iha =>
    obtain ⟨hc, hs⟩ := iha (by grind)
    have he := ihc (by grind)
    have hb := ihb (by grind)
    constructor
    · rintro e (_ | ⟨_, hm⟩)
      · exact he
      · exact hc e hm
    · intro s hm
      rcases List.mem_append.1 hm with hm | hm
      · exact hb s hm
      · exact hs s hm

end Gradual
