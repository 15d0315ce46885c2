import Gradual.Proofs.Syntax.Stream
import Gradual.Proofs.Syntax.Relocated

/-!
# Outcomes of the parser

All that there is to know about one run of a parsing function, as one predicate on its outcome.
`Parser.Outcome` says that a run which is given enough depth is not cut short; that it takes tokens
which are written for its tree, and leaves fewer than a given number, or refuses a token; and that
nothing else decides this. Wherever the same tokens stand, and the same token behind them, the
outcome is the same with every larger depth.

That tokens are the same is said up to a `Guise`: the positions may be moved, the written forms
may be other ones, and a second stream may go on with a semicolon where the first one ends. The
parser decides by lexemes alone. Positions and written forms only pass through it, into the tree
and into the error, except that the written form of the token behind a dot names a member.

There is one lemma here for each way in which the parser puts its steps together, so that a parsing
function is walked through once.
-/

namespace Gradual

open Gradual.Stream (prepend prepend_append)

/-! ## Faults -/

namespace SyntaxFault

/-- Whether a fault is that of a token which does not fit. The others are found before the parser,
behind it, or by its bound. -/
def isRefusal : SyntaxFault → Bool
  | lexical _ | trailing _ | tooDeep => false
  | _ => true

/-- The fault with the written form of the token that was found replaced by a view of it. -/
def viewed (view : Text → Text) : SyntaxFault → SyntaxFault
  | lexical fault => lexical fault
  | expectedKeyword word found => expectedKeyword word (found.map view)
  | expectedMark mark found => expectedMark mark (found.map view)
  | expectedName role found => expectedName role (found.map view)
  | invalidTarget => invalidTarget
  | noStatement found => noStatement (found.map view)
  | noExpression found => noExpression (found.map view)
  | trailing raw => trailing (view raw)
  | tooDeep => tooDeep

/-- To see the whole written form changes nothing. -/
theorem viewed_id (fault : SyntaxFault) : fault.viewed id = fault := by
  cases fault <;> simp [viewed]

end SyntaxFault

/-! ## Guises -/

/-- How a second stream may differ from a first one. -/
structure Guise where
  /-- Where a position of the first stream is in the second. -/
  move : Position → Position
  /-- What the written forms of tokens have in common. -/
  view : Text → Text
  /-- Whether the second stream goes on, with a semicolon, where the first one ends. -/
  goesOn : Bool

namespace Guise

/-- The streams begin alike: with the same lexeme, at the end, or at a semicolon behind it. -/
inductive Heads (g : Guise) : Stream → Stream → Prop where
  | finish {p : Position} : g.goesOn = false → Heads g (.finish p) (.finish (g.move p))
  | goesOn {p q : Position} {raw : Text} {s : Stream} :
      g.goesOn = true → Heads g (.finish p) (.next ⟨.mark .semicolon, raw, q⟩ s)
  | next {l : Lexeme} {raw raw' : Text} {p : Position} {s s' : Stream} :
      g.view raw' = g.view raw → Heads g (.next ⟨l, raw, p⟩ s) (.next ⟨l, raw', g.move p⟩ s')

/-- A stream has the given tokens in a guise and then `rest'`, which begins as `rest` does. The
written form of a token behind a dot is the same. -/
inductive Upto (g : Guise) (rest rest' : Stream) : List Token → Stream → Prop where
  | here : g.Heads rest rest' → Upto g rest rest' [] rest'
  | next {l : Lexeme} {raw raw' : Text} {p : Position} {ts : List Token} {s : Stream} :
      g.view raw' = g.view raw →
      (l = .mark .dot → ∀ word ∈ (prepend ts rest).raw?, s.raw? = some word) →
      Upto g rest rest' ts s → Upto g rest rest' (⟨l, raw, p⟩ :: ts) (.next ⟨l, raw', g.move p⟩ s)

/-- The errors of two runs: the same fault at the same place, in the guise of the second run. -/
def SameError (g : Guise) (e e' : SyntaxError) : Prop :=
  e'.position = g.move e.position ∧ e'.fault.viewed g.view = e.fault.viewed g.view

variable {g : Guise}

namespace Heads

variable {s s' : Stream}

/-- Corresponding streams stand at corresponding positions. -/
theorem position_eq (h : g.Heads s s') (hg : g.goesOn = true → s.lexeme? ≠ none) :
    s'.position = g.move s.position := by
  cases h with
  | finish => rfl
  | goesOn hon => exact absurd rfl (hg hon)
  | next => rfl

theorem raw?_eq (h : g.Heads s s') (hg : g.goesOn = false) :
    s'.raw?.map g.view = s.raw?.map g.view := by
  cases h with
  | finish => rfl
  | goesOn hon => rw [hg] at hon; cases hon
  | next hv => exact congrArg some hv

/-- A lexeme other than the semicolon stands first in both streams or in neither. -/
theorem lexeme?_beq (h : g.Heads s s') {l : Lexeme} (hl : l ≠ .mark .semicolon) :
    (s'.lexeme? == some l) = (s.lexeme? == some l) := by
  cases h with
  | finish => rfl
  | goesOn =>
    rw [Bool.eq_iff_iff, beq_iff_eq, beq_iff_eq]
    exact ⟨fun hs => absurd (Option.some.inj hs).symm hl, fun hs => nomatch hs⟩
  | next => rfl

theorem startsWithMark_eq (h : g.Heads s s') {m : Mark} (hm : m ≠ .semicolon) :
    s'.startsWithMark m = s.startsWithMark m :=
  h.lexeme?_beq fun hl => hm (Lexeme.mark.inj hl)

/-- Corresponding streams start like an expression together. -/
theorem startsExpression_eq (h : g.Heads s s') : s'.startsExpression = s.startsExpression := by
  cases h <;> rfl

end Heads

namespace Upto

variable {rest rest' s : Stream} {xs ys : List Token}

/-- A stream that is followed up to some point starts alike. -/
theorem heads (h : g.Upto rest rest' xs s) : g.Heads (prepend xs rest) s := by
  cases h with
  | here h => exact h
  | next hv _ _ => exact .next hv

/-- The tokens in front may be looked at in two steps. -/
theorem split (h : g.Upto rest rest' (xs ++ ys) s) :
    ∃ middle, g.Upto (prepend ys rest) middle xs s ∧ g.Upto rest rest' ys middle := by
  induction xs generalizing s with
  | nil => exact ⟨s, .here h.heads, h⟩
  | cons x xs ih =>
    cases h with
    | next hv hd h =>
      obtain ⟨middle, hx, hy⟩ := ih h
      have hd' := prepend_append xs ys rest ▸ hd
      exact ⟨middle, .next hv hd' hx, hy⟩

end Upto

end Guise

/-! ## Outcomes -/

/-- Trees whose positions can be moved. -/
class Relocatable (α : Type) where
  /-- The tree with its positions moved. -/
  relocate : (Position → Position) → α → α
  relocate_id : ∀ a, relocate id a = a

instance : Relocatable Expr := ⟨Expr.relocated, Expr.relocated_id⟩

instance : Relocatable (List Expr) := ⟨Expr.relocatedAll, Expr.relocatedAll_id⟩

instance : Relocatable (Option Expr) :=
  ⟨fun f => Option.map (Expr.relocated f), Expr.map_relocated_id⟩

instance : Relocatable (List Param) :=
  ⟨fun f => List.map (Param.relocated f), Param.map_relocated_id⟩

instance : Relocatable Stmt := ⟨Stmt.relocated, Stmt.relocated_id⟩

instance : Relocatable (List Stmt) := ⟨Stmt.relocatedAll, Stmt.relocatedAll_id⟩

instance : Relocatable Alternative := ⟨Alternative.relocated, Alternative.relocated_id⟩

open Relocatable (relocate)

theorem Expr.relocate_eq (f : Position → Position) (e : Expr) : relocate f e = e.relocated f := rfl

namespace Parser

/-- The outcome of a run with the depth `n`, of which `again` are the runs in all guises with all
depths. A depth from `k` on does not cut the run short. The tree and the tokens that were taken for
it are related by `Φ`, and fewer than `j` tokens are left. The same tokens give the same outcome,
whatever is behind the first token that is left; with `open?`, which is for blocks, this does not
hold where the first stream was used up and the second one goes on. -/
inductive Outcome {α : Type} [Relocatable α] (n k j : Nat) (open? : Bool)
    (Φ : List Token → α → Prop) (again : Guise → Nat → Stream → Except SyntaxError (α × Stream)) :
    Stream → Except SyntaxError (α × Stream) → Prop where
  | ok (taken : List Token) {a : α} {rest : Stream} : rest.length < j → Φ taken a →
      (∀ g m s' rest', n ≤ m → (open? = true → g.goesOn = true → rest.lexeme? ≠ none) →
        g.Upto rest rest' taken s' → again g m s' = .ok (relocate g.move a, rest')) →
      Outcome n k j open? Φ again (prepend taken rest) (.ok (a, rest))
  | error (taken : List Token) {e : SyntaxError} {rest : Stream} :
      e.fault.isRefusal = true → e.position = rest.position →
      (∀ g m s' rest', n ≤ m → g.goesOn = false → g.Upto rest rest' taken s' →
        ∃ e', again g m s' = .error e' ∧ g.SameError e e') →
      Outcome n k j open? Φ again (prepend taken rest) (.error e)
  | cut {s : Stream} {e : SyntaxError} : e.fault = .tooDeep → n < k →
      Outcome n k j open? Φ again s (.error e)

namespace Outcome

variable {α β : Type} [Relocatable α] [Relocatable β] {n k k' j j' : Nat} {b : Bool}
  {Φ : List Token → α → Prop} {Ψ : List Token → β → Prop} {s : Stream}
  {again again' : Guise → Nat → Stream → Except SyntaxError (α × Stream)}
  {x : Except SyntaxError (α × Stream)}

/-! ### Changing what is said -/

/-- A tree without taking a token. -/
theorem pure {a : α} (hagain : ∀ g m s', again g m s' = .ok (relocate g.move a, s'))
    (hj : s.length < j) (hΦ : Φ [] a) : Outcome n k j b Φ again s (.ok (a, s)) := by
  refine .ok [] hj hΦ fun g m s' rest' _ _ hup => ?_
  cases hup
  exact hagain g m _

/-- A failure over the token that comes first. -/
theorem fail (fault : Option Text → SyntaxFault)
    (hrefusal : ∀ found, (fault found).isRefusal = true)
    (hview : ∀ view found, (fault found).viewed view = fault (found.map view)) (s : Stream) :
    Outcome n k j b Φ (fun _ _ s' => s'.fail (fault s'.raw?)) s (s.fail (fault s.raw?)) := by
  refine .error [] (hrefusal _) rfl fun g m s' rest' _ hg hup => ?_
  cases hup with
  | here hheads =>
    refine ⟨_, rfl, hheads.position_eq fun hon => ?_, ?_⟩
    · rw [hg] at hon
      cases hon
    · show (fault _).viewed g.view = (fault _).viewed g.view
      rw [hview, hview, hheads.raw?_eq hg]

/-- Less may be said of the bounds and of the tree. -/
theorem weaken (h : Outcome n k j b Φ again s x) (hk : k ≤ k') (hj : j ≤ j')
    {Φ' : List Token → α → Prop}
    (hΦ : ∀ taken a rest, s = prepend taken rest → Φ taken a → Φ' taken a) :
    Outcome n k' j' b Φ' again s x := by
  cases h with
  | ok taken hlt htree hagain =>
    exact .ok taken (Nat.lt_of_lt_of_le hlt hj) (hΦ taken _ _ rfl htree) hagain
  | error taken hrefusal hposition hagain => exact .error taken hrefusal hposition hagain
  | cut hdeep hn => exact .cut hdeep (Nat.lt_of_lt_of_le hn hk)

/-- One more for the bound. -/
theorem succ (h : Outcome n k j b Φ (fun g m => again g (m + 1)) s x) (hk : k + 1 ≤ k') :
    Outcome (n + 1) k' j b Φ again s x := by
  have larger : ∀ {m}, n + 1 ≤ m → m - 1 + 1 = m ∧ n ≤ m - 1 := by omega
  cases h with
  | ok taken hlt htree hagain =>
    refine .ok taken hlt htree fun g m s' rest' hm hopen hup => ?_
    rw [← (larger hm).1]
    exact hagain g (m - 1) s' rest' (larger hm).2 hopen hup
  | error taken hrefusal hposition hagain =>
    refine .error taken hrefusal hposition fun g m s' rest' hm hg hup => ?_
    rw [← (larger hm).1]
    exact hagain g (m - 1) s' rest' (larger hm).2 hg hup
  | cut hdeep hn => exact .cut hdeep (by omega)

/-! ### Steps -/

/-- Tokens in front that were taken, by all runs alike. What a second run that goes on does at the
end of the first stream matters only where the first one succeeds there, and is not a block. -/
theorem prepend (taken : List Token) {rest : Stream}
    (h : Outcome n k j b (fun more => Φ (taken ++ more)) again rest x)
    (heq : ∀ g m s' rest', n ≤ m →
      ((b = true ∨ ∃ e, x = .error e) → g.goesOn = true → rest.lexeme? ≠ none) →
      g.Upto rest rest' taken s' → again' g m s' = again g m rest') :
    Outcome n k j b Φ again' (prepend taken rest) x := by
  cases h with
  | @ok more a rest hlt htree hagain =>
    rw [← prepend_append]
    refine .ok (taken ++ more) hlt htree fun g m s' rest' hm hopen hup => ?_
    obtain ⟨middle, htaken, hmore⟩ := hup.split
    rw [heq g m s' middle hm ?_ htaken]
    · exact hagain g m middle rest' hm hopen hmore
    · rintro (hb | ⟨e, he⟩) hon hnone
      · cases more with
        | nil => exact hopen hb hon hnone
        | cons => cases hnone
      · cases he
  | @error more e rest hrefusal hposition hagain =>
    rw [← prepend_append]
    refine .error (taken ++ more) hrefusal hposition fun g m s' rest' hm hg hup => ?_
    obtain ⟨middle, htaken, hmore⟩ := hup.split
    rw [heq g m s' middle hm (fun _ hon => by rw [hg] at hon; cases hon) htaken]
    exact hagain g m middle rest' hm hg hmore
  | cut hdeep hn => exact .cut hdeep hn

/-- Only runs on streams that begin alike matter. -/
theorem congr (h : Outcome n k j b Φ again s x)
    (heq : ∀ g m s', n ≤ m → ((b = true ∨ ∃ e, x = .error e) → g.goesOn = true → s.lexeme? ≠ none) →
      g.Heads s s' → again' g m s' = again g m s') :
    Outcome n k j b Φ again' s x := by
  refine prepend [] h fun g m s' rest' hm hstrict hup => ?_
  cases hup with
  | here hheads => exact heq g m _ hm hstrict hheads

/-- The first token is taken. Its written form does not matter. -/
theorem next {l : Lexeme} {raw : Text} {p : Position} {rest : Stream}
    (hraw : ∀ g m raw' s', again g m (.next ⟨l, raw', g.move p⟩ s') =
      again g m (.next ⟨l, raw, g.move p⟩ s'))
    (h : Outcome n k j b (fun more => Φ (⟨l, raw, p⟩ :: more))
      (fun g m s' => again g m (.next ⟨l, raw, g.move p⟩ s')) rest x) :
    Outcome n k j b Φ again (.next ⟨l, raw, p⟩ rest) x := by
  refine prepend [⟨l, raw, p⟩] h fun g m s' rest' _ _ hup => ?_
  cases hup with
  | next _ _ hup =>
    cases hup
    exact hraw g m _ _

/-- A dot and the token behind it, whose written form matters, are taken. -/
theorem dot {l : Lexeme} {raw word : Text} {p q : Position} {rest : Stream}
    (hraw : ∀ g m raw' s', again g m
      (.next ⟨.mark .dot, raw', g.move p⟩ (.next ⟨l, word, g.move q⟩ s')) =
      again g m (.next ⟨.mark .dot, raw, g.move p⟩ (.next ⟨l, word, g.move q⟩ s')))
    (h : Outcome n k j b (fun more => Φ (⟨.mark .dot, raw, p⟩ :: ⟨l, word, q⟩ :: more))
      (fun g m s' => again g m (.next ⟨.mark .dot, raw, g.move p⟩ (.next ⟨l, word, g.move q⟩ s')))
      rest x) :
    Outcome n k j b Φ again (.next ⟨.mark .dot, raw, p⟩ (.next ⟨l, word, q⟩ rest)) x := by
  refine prepend [⟨.mark .dot, raw, p⟩, ⟨l, word, q⟩] h fun g m s' rest' _ _ hup => ?_
  cases hup with
  | next _ hd hup =>
    cases hup with
    | next _ _ hup =>
      cases hup
      obtain rfl : _ = word := Option.some.inj (hd rfl word rfl)
      exact hraw g m _ _

section

variable {f : α × Stream → Except SyntaxError (β × Stream)}
  {f' : Guise → Nat → α × Stream → Except SyntaxError (β × Stream)}

/-- What two steps make. Where the first one is a block, the second one has to fail at the end of
the stream. -/
theorem seq {o : Bool} (h : Outcome n k j o Φ again s x) (hk : k ≤ k')
    (hend : o = true → ∀ a p, ∃ e, f (a, .finish p) = .error e)
    (hf : ∀ taken a rest, s = Stream.prepend taken rest → rest.length < j → Φ taken a →
      Outcome n k' j' b (fun more => Ψ (taken ++ more))
        (fun g m s' => f' g m (relocate g.move a, s')) rest (f (a, rest))) :
    Outcome n k' j' b Ψ (fun g m s' => again g m s' >>= f' g m) s (x >>= f) := by
  cases h with
  | @ok taken a rest hlt htree hagain =>
    refine prepend taken (hf taken a rest rfl hlt htree) fun g m s' rest' hm hstrict hup => ?_
    have hopen : o = true → g.goesOn = true → rest.lexeme? ≠ none := by
      intro ho hon
      cases rest with
      | finish p => exact hstrict (.inr (hend ho a p)) hon
      | next => exact Option.some_ne_none _
    rw [hagain g m s' rest' hm hopen hup]
    rfl
  | error taken hrefusal hposition hagain =>
    refine .error taken hrefusal hposition fun g m s' rest' hm hg hup => ?_
    obtain ⟨e', he', hsame⟩ := hagain g m s' rest' hm hg hup
    exact ⟨e', by rw [he']; rfl, hsame⟩
  | cut hdeep hn => exact .cut hdeep (Nat.lt_of_lt_of_le hn hk)

/-- What two steps make, where the first one is not a block. -/
theorem bind (h : Outcome n k j false Φ again s x) (hk : k ≤ k')
    (hf : ∀ taken a rest, rest.length < j → Φ taken a →
      Outcome n k' j' b (fun more => Ψ (taken ++ more))
        (fun g m s' => f' g m (relocate g.move a, s')) rest (f (a, rest))) :
    Outcome n k' j' b Ψ (fun g m s' => again g m s' >>= f' g m) s (x >>= f) :=
  h.seq hk (fun ho => nomatch ho) fun taken a rest _ => hf taken a rest

/-- What a block and the step behind it make, which closes the block. -/
theorem close (h : Outcome n k j true Φ again s x) (hk : k ≤ k')
    (hend : ∀ a p, ∃ e, f (a, .finish p) = .error e)
    (hf : ∀ taken a rest, rest.length < j → Φ taken a →
      Outcome n k' j' b (fun more => Ψ (taken ++ more))
        (fun g m s' => f' g m (relocate g.move a, s')) rest (f (a, rest))) :
    Outcome n k' j' b Ψ (fun g m s' => again g m s' >>= f' g m) s (x >>= f) :=
  h.seq hk (fun _ => hend) fun taken a rest _ => hf taken a rest

/-- The last step only makes another tree. -/
theorem last (h : Outcome n k j b Φ again s x) (hk : k ≤ k') (hj : j ≤ j')
    (hf : ∀ taken a, Φ taken a → ∃ c, Ψ taken c ∧ (∀ rest, f (a, rest) = .ok (c, rest)) ∧
      ∀ g m rest, f' g m (relocate g.move a, rest) = .ok (relocate g.move c, rest)) :
    Outcome n k' j' b Ψ (fun g m s' => again g m s' >>= f' g m) s (x >>= f) := by
  cases h with
  | @ok taken a rest hlt htree hagain =>
    obtain ⟨c, hc, hfirst, hsecond⟩ := hf taken a htree
    change Outcome n k' j' b Ψ _ _ (f (a, rest))
    rw [hfirst]
    refine .ok taken (Nat.lt_of_lt_of_le hlt hj) hc fun g m s' rest' hm hopen hup => ?_
    rw [hagain g m s' rest' hm hopen hup]
    exact hsecond g m rest'
  | error taken hrefusal hposition hagain =>
    refine .error taken hrefusal hposition fun g m s' rest' hm hg hup => ?_
    obtain ⟨e', he', hsame⟩ := hagain g m s' rest' hm hg hup
    exact ⟨e', by rw [he']; rfl, hsame⟩
  | cut hdeep hn => exact .cut hdeep (Nat.lt_of_lt_of_le hn hk)

end

/-! ### Single tokens -/

section

variable {l : Lexeme}

/-- A token that may be absent. -/
theorem take (hl : l ≠ .mark .semicolon) {A B : Stream → Except SyntaxError (α × Stream)}
    {A' B' : Guise → Nat → Stream → Except SyntaxError (α × Stream)}
    (htrue : ∀ t rest, s = .next t rest → t.lexeme = l → rest.length < s.length →
      Outcome n k j b (fun more => Φ (t :: more)) A' rest (A rest))
    (hfalse : Outcome n k j b Φ B' s (B s)) :
    Outcome n k j b Φ
      (fun g m s' =>
        match if s'.lexeme? == some l then (true, s'.tail) else (false, s') with
        | (true, r) => A' g m r
        | (false, r) => B' g m r) s
      (match if s.lexeme? == some l then (true, s.tail) else (false, s) with
        | (true, r) => A r
        | (false, r) => B r) := by
  by_cases hs : s.lexeme? = some l
  · cases s with
    | finish p => cases hs
    | next t rest =>
      obtain rfl : t.lexeme = l := Option.some.inj hs
      have hcond : ∀ raw p r,
          ((Stream.next ⟨t.lexeme, raw, p⟩ r).lexeme? == some t.lexeme) = true :=
        fun _ _ _ => beq_self_eq_true _
      rw [if_pos (hcond t.raw t.position rest)]
      refine next (fun g m raw' s' => ?_) ((htrue t rest rfl rfl (Nat.lt_succ_self _)).congr ?_)
      · rw [if_pos (hcond _ _ _), if_pos (hcond _ _ _)]
        rfl
      · intro g m s' _ _ _
        rw [if_pos (hcond _ _ _)]
        rfl
  · rw [if_neg (by simpa using hs)]
    refine hfalse.congr fun g m s' _ _ hheads => ?_
    rw [hheads.lexeme?_beq hl, if_neg (by simpa using hs)]

/-- A token that has to come first. -/
theorem expect (hl : l ≠ .mark .semicolon) (fault : Option Text → SyntaxFault)
    (hrefusal : ∀ found, (fault found).isRefusal = true)
    (hview : ∀ view found, (fault found).viewed view = fault (found.map view))
    {f : Stream → Except SyntaxError (α × Stream)}
    {f' : Guise → Nat → Stream → Except SyntaxError (α × Stream)}
    (hf : ∀ t rest, s = .next t rest → t.lexeme = l → rest.length < s.length →
      Outcome n k j b (fun more => Φ (t :: more)) f' rest (f rest)) :
    Outcome n k j b Φ
      (fun g m s' =>
        (if s'.lexeme? == some l then .ok s'.tail else s'.fail (fault s'.raw?)) >>= f' g m) s
      ((if s.lexeme? == some l then .ok s.tail else s.fail (fault s.raw?)) >>= f) := by
  have heq : ∀ (s : Stream) (f : Stream → Except SyntaxError (α × Stream)),
      ((if s.lexeme? == some l then .ok s.tail else s.fail (fault s.raw?)) >>= f) =
        match if s.lexeme? == some l then (true, s.tail) else (false, s) with
        | (true, r) => f r
        | (false, r) => r.fail (fault r.raw?) := by
    intro s f
    split <;> rfl
  simp only [heq]
  exact take hl hf (fail fault hrefusal hview s)

end

variable {f : Stream → Except SyntaxError (α × Stream)}
  {f' : Guise → Nat → Stream → Except SyntaxError (α × Stream)}

/-- A mark that has to come first. -/
theorem expectMark {m : Mark} (hm : m ≠ .semicolon)
    (hf : ∀ t rest, t.lexeme = .mark m → rest.length < s.length →
      Outcome n k j b (fun more => Φ (t :: more)) f' rest (f rest)) :
    Outcome n k j b Φ (fun g i s' => s'.expectMark m >>= f' g i) s (s.expectMark m >>= f) :=
  expect (fun hl => hm (Lexeme.mark.inj hl)) (.expectedMark m) (fun _ => rfl) (fun _ _ => rfl)
    fun t rest _ => hf t rest

/-- A keyword that has to come first. -/
theorem expectWord {w : Keyword}
    (hf : ∀ t rest, t.lexeme = .keyword w → rest.length < s.length →
      Outcome n k j b (fun more => Φ (t :: more)) f' rest (f rest)) :
    Outcome n k j b Φ (fun g m s' => s'.expectWord w >>= f' g m) s (s.expectWord w >>= f) :=
  expect Lexeme.noConfusion (.expectedKeyword w) (fun _ => rfl) (fun _ _ => rfl)
    fun t rest _ => hf t rest

/-- A name that has to come first. -/
theorem expectName {role : NameRole}
    {f : (Text × Position) × Stream → Except SyntaxError (α × Stream)}
    {f' : Guise → Nat → (Text × Position) × Stream → Except SyntaxError (α × Stream)}
    (hf : ∀ t name rest, t.lexeme = .identifier name → rest.length < s.length →
      Outcome n k j b (fun more => Φ (t :: more))
        (fun g m s' => f' g m ((name, g.move t.position), s')) rest
        (f ((name, t.position), rest))) :
    Outcome n k j b Φ (fun g m s' => s'.expectName role >>= f' g m) s
      (s.expectName role >>= f) := by
  have hfail : Outcome n k j b Φ (fun _ _ s' => s'.fail (.expectedName role s'.raw?)) s
      (s.fail (.expectedName role s.raw?)) :=
    fail (.expectedName role) (fun _ => rfl) (fun _ _ => rfl) s
  cases s with
  | finish p => exact hfail.congr fun _ _ _ _ _ hheads => by cases hheads <;> rfl
  | next t rest =>
    rcases t with ⟨l, raw, p⟩
    cases l with
    | identifier name =>
      exact next (fun _ _ _ _ => rfl)
        (hf ⟨.identifier name, raw, p⟩ name rest rfl (Nat.lt_succ_self _))
    | _ => exact hfail.congr fun _ _ _ _ _ hheads => by cases hheads; rfl

variable {A B : Stream → Except SyntaxError (α × Stream)}
  {A' B' : Guise → Nat → Stream → Except SyntaxError (α × Stream)}

/-- A mark that may be absent. -/
theorem takeMark {m : Mark} (hm : m ≠ .semicolon)
    (htrue : ∀ t rest, t.lexeme = .mark m → rest.length < s.length →
      Outcome n k j b (fun more => Φ (t :: more)) A' rest (A rest))
    (hfalse : Outcome n k j b Φ B' s (B s)) :
    Outcome n k j b Φ
      (fun g i s' =>
        match s'.takeMark m with
        | (true, r) => A' g i r
        | (false, r) => B' g i r) s
      (match s.takeMark m with
        | (true, r) => A r
        | (false, r) => B r) :=
  take (fun hl => hm (Lexeme.mark.inj hl)) (fun t rest _ => htrue t rest) hfalse

/-- A keyword that may be absent. -/
theorem takeWord {w : Keyword}
    (htrue : ∀ t rest, t.lexeme = .keyword w → rest.length < s.length →
      Outcome n k j b (fun more => Φ (t :: more)) A' rest (A rest))
    (hfalse : Outcome n k j b Φ B' s (B s)) :
    Outcome n k j b Φ
      (fun g m s' =>
        match s'.takeWord w with
        | (true, r) => A' g m r
        | (false, r) => B' g m r) s
      (match s.takeWord w with
        | (true, r) => A r
        | (false, r) => B r) :=
  take Lexeme.noConfusion (fun t rest _ => htrue t rest) hfalse

/-- A keyword that may be absent, and whose presence is part of the tree. -/
theorem flag (w : Keyword)
    (hf : ∀ present taken rest, s.takeWord w = (present, rest) → rest.length ≤ s.length →
      Derives taken (.flag w present) →
      ∃ A', (∀ g m s' rest', s'.takeWord w = (present, rest') → again g m s' = A' g m rest') ∧
        Outcome n k j b (fun more => Φ (taken ++ more)) A' rest x) :
    Outcome n k j b Φ again s x := by
  rcases hs : s.takeWord w with ⟨present, rest⟩
  cases present with
  | true =>
    obtain ⟨⟨l, raw, p⟩, rfl, rfl⟩ := Stream.takeWord_eq_true.1 hs
    have hlength : rest.length ≤ (Stream.next ⟨.keyword w, raw, p⟩ rest).length := Nat.le_succ _
    obtain ⟨A', hA', h⟩ := hf true [⟨.keyword w, raw, p⟩] rest hs hlength (.present rfl)
    refine prepend [⟨.keyword w, raw, p⟩] h fun g m s' rest' _ _ hup => ?_
    cases hup with
    | next _ _ hup =>
      cases hup
      exact hA' g m _ _ (Stream.takeWord_eq_true.2 ⟨_, rfl, rfl⟩)
  | false =>
    obtain ⟨hl, rfl⟩ := Stream.takeWord_eq_false.1 hs
    obtain ⟨A', hA', h⟩ := hf false [] rest hs (Nat.le_refl _) .absent
    refine h.congr fun g m s' _ _ hheads => hA' g m s' s' (Stream.takeWord_eq_false.2 ⟨?_, rfl⟩)
    rw [← beq_eq_false_iff_ne, hheads.lexeme?_beq Lexeme.noConfusion, beq_eq_false_iff_ne]
    exact hl

end Outcome

end Parser

/-- The semicolons in front are skipped, up to what begins as the rest does. -/
theorem Guise.Upto.skipSemicolons {g : Guise} {rest rest' s : Stream} {semicolons : List Token}
    (h : g.Upto rest rest' semicolons s) (hsemi : ∀ t ∈ semicolons, t.lexeme = .mark .semicolon)
    (hrest : rest.lexeme? ≠ some (.mark .semicolon))
    (hstrict : g.goesOn = true → rest.lexeme? ≠ none) : s.skipSemicolons = rest' := by
  induction h with
  | here hheads =>
    cases hheads with
    | finish => rfl
    | goesOn hon => exact absurd rfl (hstrict hon)
    | next =>
      rw [Stream.skipSemicolons, if_neg]
      intro hl
      exact hrest (congrArg some hl)
  | next _ _ _ ih =>
    have hl := hsemi _ List.mem_cons_self
    rw [Stream.skipSemicolons, if_pos hl]
    exact ih fun t ht => hsemi t (List.mem_cons_of_mem _ ht)

end Gradual
