import Gradual.Proofs.Syntax.Lexed
import Gradual.Proofs.Syntax.Stream

/-!
# Reading a text piece by piece

`Lexer.Reads rest b p text ts b'` says that the text, where it stands in front of `rest`, is cut
into gaps and lexemes none of which reaches into `rest`, and that the lexemes are the tokens `ts`.
The scanner is at position `p` before the text, and `b` and `b'` tell whether only gaps were read on
the line before and after it.

What follows a piece matters only by its first unit: `Lexer.Tame y y'` says that `y'` goes on with
nothing that `y` does not go on with, and then what was read in front of `y` is read in front of
`y'` as well. For a single lexeme `Lexer.Calm` is enough, which does not care whether the line goes
on.

Main statements: `Lexer.reads_until`, `Lexer.reads_of_scan`, `Lexer.Reads.scan_eq`,
`Lexer.Reads.follow`, `Lexer.Reads.split`.
-/

namespace Gradual

namespace Position

/-- The position behind a text that starts at the position. -/
def after (p : Position) (t : Text) : Position := t.foldl advance p

@[simp] theorem after_nil (p : Position) : p.after [] = p := rfl

@[simp] theorem after_cons (p : Position) (c : CodeUnit) (t : Text) :
    p.after (c :: t) = (p.advance c).after t := rfl

/-- The position behind two texts is that behind the second, from behind the first. -/
@[simp] theorem after_append (p : Position) (t u : Text) :
    p.after (t ++ u) = (p.after t).after u := by
  unfold after
  rw [List.foldl_append]

end Position

/-- A mark is one or two units long. -/
theorem Mark.length_text (m : Mark) : 1 ≤ m.text.length ∧ m.text.length ≤ 2 := by
  cases m <;> decide

/-- The longer marks end in an equals sign or a greater sign. -/
theorem Mark.text_of_length {m : Mark} (h : m.text.length = 2) :
    ∃ c d, m.text = [c, d] ∧ (d = 0x3D ∨ d = 0x3E) := by
  cases m with
  | notEqual => exact ⟨0x3C, 0x3E, rfl, Or.inr rfl⟩
  | lessEqual => exact ⟨0x3C, 0x3D, rfl, Or.inl rfl⟩
  | greaterEqual => exact ⟨0x3E, 0x3D, rfl, Or.inl rfl⟩
  | _ => exact absurd h (by decide)

namespace Lexer

open Text

/-! ## Lengths of gaps and lexemes -/

/-- What a gap without line feeds is: one blank, or the rest of the line from a comment or a
directive on. -/
theorem gap?_cases {b : Bool} {c : CodeUnit} {rest : Text} {n : Nat}
    (h : gap? b (c :: rest) = some n) : (isBlank c = true ∧ n = 1) ∨
      (((c = slash ∧ rest.head? = some slash) ∨ (b = true ∧ isDirective c = true)) ∧
        n = ((c :: rest).takeWhile inLine).length) := by
  change (if isBlank c then _ else _) = _ at h
  split at h
  · next hc =>
    cases h
    exact Or.inl ⟨hc, rfl⟩
  · split at h
    · next hs =>
      cases h
      refine Or.inr ⟨Or.inl ?_, rfl⟩
      simpa using hs
    · split at h
      · next hd =>
        cases h
        refine Or.inr ⟨Or.inr ?_, rfl⟩
        simpa using hd
      · cases h

/-- No gap starts at a unit that is not blank, does not start a comment and starts no directive. -/
theorem gap?_eq_none_iff {b : Bool} {c : CodeUnit} {rest : Text} :
    gap? b (c :: rest) = none ↔
      isBlank c = false ∧ ¬(c = slash ∧ rest.head? = some slash) ∧
        ¬(b = true ∧ isDirective c = true) := by
  change (if isBlank c then _ else _) = _ ↔ _
  by_cases hblank : isBlank c = true
  · simp [hblank]
  · by_cases hslash : c = slash ∧ rest.head? = some slash
    · have hsolid : isBlank slash = false := by decide
      simp [hslash, hsolid]
    · by_cases hdirective : b = true ∧ isDirective c = true
      · simp [hblank, hslash, hdirective]
      · simp [hblank, hslash, hdirective]

/-- A line feed is not part of a gap. -/
theorem gap?_newline (b : Bool) (rest : Text) : gap? b (newline :: rest) = none := by
  cases b <;> rfl

/-- What starts a comment or a directive stays in its line. -/
theorem inLine_of_gap {b : Bool} {c : CodeUnit} {rest : Text}
    (h : (c = slash ∧ rest.head? = some slash) ∨ (b = true ∧ isDirective c = true)) :
    inLine c = true := by
  rcases h with ⟨rfl, -⟩ | ⟨-, hd⟩
  · decide
  · unfold isDirective at hd
    rw [Bool.or_eq_true, beq_iff_eq, beq_iff_eq] at hd
    rcases hd with rfl | rfl <;> decide

/-- A gap is not empty and ends within the text. -/
theorem gap?_bounds {b : Bool} {c : CodeUnit} {rest : Text} {n : Nat}
    (h : gap? b (c :: rest) = some n) :
    1 ≤ n ∧ n ≤ rest.length + 1 := by
  rcases gap?_cases h with ⟨-, rfl⟩ | ⟨hc, rfl⟩
  · omega
  · -- A comment or directive takes its own first unit, which is no line feed.
    constructor
    · simp [inLine_of_gap hc]
    · exact (List.takeWhile_prefix inLine).length_le

/-- The fraction at the head of a text: a point and digits, or nothing. -/
def fraction : Text → Text
  | [] => []
  | p :: rest => if p == point && rest.head?.any isDigit then p :: rest.takeWhile isDigit else []

/-- A numeral is its digits and the fraction behind them. -/
theorem numeral_eq (s : Text) :
    numeral s = s.takeWhile isDigit ++ fraction (s.drop (s.takeWhile isDigit).length) := by
  unfold numeral fraction
  dsimp only
  rcases s.drop (s.takeWhile isDigit).length with _ | ⟨p, _ | ⟨d, rest⟩⟩
  · simp
  · simp
  · by_cases hp : p = point
    · by_cases hd : isDigit d = true <;> simp [hp, hd]
    · simp [hp]

/-- A fraction is the beginning of the text it is read from. -/
theorem fraction_isPrefix (s : Text) : fraction s <+: s := by
  unfold fraction
  split
  · exact List.nil_prefix
  · split
    · exact List.cons_prefix_cons.2 ⟨rfl, List.takeWhile_prefix _⟩
    · exact List.nil_prefix

theorem numeral_isPrefix (s : Text) : numeral s <+: s := by
  have hsplit := List.prefix_iff_eq_append.1 (List.takeWhile_prefix (l := s) isDigit)
  obtain ⟨z, hz⟩ := fraction_isPrefix (s.drop (s.takeWhile isDigit).length)
  refine ⟨z, ?_⟩
  rw [numeral_eq, List.append_assoc, hz, hsplit]

/-- The rest of a string takes its closing quote at least, and no more than there is. -/
theorem stringRest_bounds {m : Bool} {s v : Text} {n : Nat} (h : stringRest m s = some (v, n)) :
    1 ≤ n ∧ n ≤ s.length := by
  fun_induction stringRest m s generalizing v n with
  | case1 => simp at h
  | case2 c rest hc ih | case3 c rest hc hb ih | case8 c rest hc hn ih | case9 c rest hc hn ih =>
    simp only [Option.map_eq_some_iff, Prod.exists] at h
    obtain ⟨v', n', h', heq⟩ := h
    have hih := ih h'
    cases heq
    simp only [List.length_cons]
    omega
  | case4 => simp at h
  | case5 c hc d rest' hd ih =>
    simp only [Option.map_eq_some_iff, Prod.exists] at h
    obtain ⟨v', n', h', heq⟩ := h
    have hih := ih h'
    cases heq
    simp only [List.length_cons]
    omega
  | case6 | case7 =>
    cases h
    simp

/-- A date takes its closing quote beyond its own units. -/
theorem dateRest_bounds {s v : Text} (h : dateRest s = some v) : v.length + 1 ≤ s.length := by
  unfold dateRest at h
  dsimp only at h
  split at h
  · next hq =>
    cases h
    -- Behind the value stands the closing quote.
    have hne : s.drop (s.takeWhile fun c => c != singleQuote && inLine c).length ≠ [] := by
      intro hnil
      rw [hnil] at hq
      simp at hq
    have hlt := List.length_pos_iff.2 hne
    rw [List.length_drop] at hlt
    omega
  · cases h

/-- A mark is the beginning of the text it is read from. -/
theorem prefix_of_mark? {s : Text} {m : Mark} (h : mark? s = some m) : m.text <+: s := by
  unfold mark? at h
  have hm := List.find?_some h
  exact List.isPrefixOf_iff_prefix.1 hm

/-- A lexeme is not empty and ends within the text. -/
theorem lexeme_bounds {c : CodeUnit} {rest : Text} {l : Lexeme} {n : Nat}
    (h : lexeme c rest = .ok (l, n)) :
    1 ≤ n ∧ n ≤ rest.length + 1 := by
  unfold lexeme at h
  dsimp only at h
  split at h
  · next hc =>
    cases h
    constructor
    · simp [isWordPart_of_isWordStart hc]
    · exact (List.takeWhile_prefix isWordPart).length_le
  · split at h
    · next hc =>
      cases h
      constructor
      · rcases isNumeral_numeral hc rest with hd | ⟨whole, fraction, hw, -, hd⟩
        · exact List.length_pos_iff.2 hd.1
        · rw [hd, List.length_append, List.length_cons]
          omega
      · exact (numeral_isPrefix (c :: rest)).length_le
    · split at h
      · split at h
        · next hs =>
          cases h
          have hb := stringRest_bounds hs
          omega
        · cases h
      · split at h
        · split at h
          · next hs =>
            cases h
            have hb := dateRest_bounds hs
            omega
          · cases h
        · split at h
          · next m hm =>
            cases h
            have hb := Mark.length_text m
            exact ⟨hb.1, (prefix_of_mark? hm).length_le⟩
          · cases h

/-! ## What follows a piece -/

/-- The classes of units that decide, behind a piece, whether it goes on. -/
def continuing : List (CodeUnit → Bool) :=
  [isWordPart, isDigit, (· == doubleQuote), (· == 0x3D), (· == 0x3E), (· == slash), inLine]

/-- The second text goes on with nothing that the first does not go on with, and with no
fraction. -/
structure Tame (y y' : Text) : Prop where
  continuing : ∀ p ∈ continuing, y'.head?.any p = true → y.head?.any p = true
  point : y'.head? ≠ some point

/-- A line feed goes on with nothing. -/
theorem tame_newline (y rest : Text) : Tame y (newline :: rest) where
  continuing := by
    intro p hp h
    have none : Lexer.continuing.all (fun p => !p newline) = true := by decide
    have hnot := List.all_eq_true.1 none p hp
    rw [List.head?_cons, Option.any_some] at h
    rw [h] at hnot
    cases hnot
  point := by simp [newline, point]

/-- The classes of units that decide, behind a lexeme, whether it goes on. -/
def extending : List (CodeUnit → Bool) :=
  [isWordPart, isDigit, (· == doubleQuote), (· == 0x3D), (· == 0x3E)]

/-- The second text extends no lexeme that the first does not extend. -/
structure Calm (y y' : Text) : Prop where
  extending : ∀ p ∈ extending, y'.head?.any p = true → y.head?.any p = true
  point : y'.head? ≠ some point

/-- A text that goes on with nothing new extends no lexeme either. -/
theorem Tame.calm {y y' : Text} (h : Tame y y') : Calm y y' where
  extending := by
    intro p hp
    have hmem : Lexer.extending ⊆ Lexer.continuing := by
      unfold Lexer.extending Lexer.continuing
      simp
    exact h.continuing p (hmem hp)
  point := h.point

/-- A first unit that satisfies an equality is that unit. -/
theorem head?_of_any {y : Text} {c : CodeUnit} (h : y.head?.any (· == c) = true) :
    y.head? = some c := by
  cases y with
  | nil => simp at h
  | cons d y => simpa using h

/-- A stretch of units of one class that ends before `y` ends before `y'`. -/
theorem takeWhile_follow {p : CodeUnit → Bool} {x y y' : Text}
    (hy : y'.head?.any p = true → y.head?.any p = true)
    (h : ((x ++ y).takeWhile p).length ≤ x.length) :
    (x ++ y').takeWhile p = (x ++ y).takeWhile p := by
  induction x with
  | nil =>
    cases y' with
    | nil =>
      rw [List.nil_append, List.takeWhile_nil]
      exact (List.eq_nil_of_length_eq_zero (Nat.le_zero.1 h)).symm
    | cons d y' =>
      cases y with
      | nil =>
        have hd : p d = false := by simpa using hy
        simp [hd]
      | cons e y =>
        have he : p e = false := by
          cases hpe : p e with
          | false => rfl
          | true => simp [hpe] at h
        have hd : p d = false := by simpa [he] using hy
        simp [hd, he]
  | cons c x ih =>
    cases hc : p c with
    | false => simp [hc]
    | true =>
      simp only [List.cons_append, List.takeWhile_cons, hc, if_true, List.length_cons,
        Nat.add_le_add_iff_right] at h ⊢
      rw [ih h]

/-- A fraction that ends within the text does not depend on what follows calmly. -/
theorem fraction_follow {x y y' : Text} (ht : Calm y y')
    (h : (fraction (x ++ y)).length ≤ x.length) :
    fraction (x ++ y') = fraction (x ++ y) := by
  have digit : y'.head?.any isDigit = true → y.head?.any isDigit = true :=
    ht.extending _ (by simp [extending])
  match x with
  | [] =>
    -- No fraction starts with `y'`, and one that starts with `y` would not lie in `x`.
    have hy : fraction y = [] := List.eq_nil_of_length_eq_zero (Nat.le_zero.1 h)
    rw [List.nil_append, List.nil_append, hy]
    cases y' with
    | nil => rfl
    | cons p y' =>
      have hp : p ≠ point := fun hp => ht.point (by rw [hp, List.head?_cons])
      rw [fraction, if_neg (by simp [hp])]
  | [p] =>
    rw [List.cons_append, List.nil_append, fraction] at h
    rw [List.cons_append, List.cons_append, List.nil_append, List.nil_append, fraction, fraction]
    by_cases hy : (p == point && y.head?.any isDigit) = true
    · -- A digit behind the point would not lie in `x`.
      rw [if_pos hy] at h
      rw [Bool.and_eq_true] at hy
      cases y with
      | nil => simp at hy
      | cons d y =>
        have hd : isDigit d = true := by simpa using hy.2
        simp [hd] at h
    · rw [if_neg hy]
      refine if_neg fun hy' => hy ?_
      rw [Bool.and_eq_true] at hy' ⊢
      exact ⟨hy'.1, digit hy'.2⟩
  | p :: d :: x =>
    change (fraction (p :: (d :: x ++ y))).length ≤ _ at h
    change fraction (p :: (d :: x ++ y')) = fraction (p :: (d :: x ++ y))
    rw [fraction] at h
    rw [fraction, fraction]
    by_cases hd : (p == point && isDigit d) = true
    · rw [if_pos (by simpa using hd), List.length_cons, List.length_cons,
        Nat.add_le_add_iff_right] at h
      rw [if_pos (by simpa using hd), if_pos (by simpa using hd), takeWhile_follow digit h]
    · rw [if_neg (by simpa using hd), if_neg (by simpa using hd)]

theorem numeral_follow {x y y' : Text} (ht : Calm y y') (h : (numeral (x ++ y)).length ≤ x.length) :
    numeral (x ++ y') = numeral (x ++ y) := by
  rw [numeral_eq, List.length_append] at h
  -- The whole part lies in `x`, and what is left of `x` holds the fraction.
  have whole : ((x ++ y).takeWhile isDigit).length ≤ x.length := by omega
  rw [List.drop_append_of_le_length whole] at h
  rw [numeral_eq, numeral_eq (x ++ y),
    takeWhile_follow (ht.extending _ (by simp [extending])) whole,
    List.drop_append_of_le_length whole, List.drop_append_of_le_length whole, fraction_follow ht]
  rw [List.length_drop]
  omega

/-- A string literal whose first unit takes no part in what is looked up behind it is read from the
second unit on. -/
theorem stringRest_step {m m' : Bool} {c : CodeUnit} {g : Text → Text}
    {x y y' rest v : Text} {n : Nat}
    (step : ∀ t, stringRest m (c :: t) = (stringRest m' t).map fun r => (g r.1, r.2 + 1))
    (ih : ∀ {x v : Text} {n : Nat}, n ≤ x.length → x ++ y = rest →
      stringRest m' rest = some (v, n) → stringRest m' (x ++ y') = some (v, n))
    (hz : x ++ y = c :: rest)
    (h : ((stringRest m' rest).map fun r => (g r.1, r.2 + 1)) = some (v, n)) (hn : n ≤ x.length) :
    stringRest m (x ++ y') = some (v, n) := by
  simp only [Option.map_eq_some_iff, Prod.exists] at h
  obtain ⟨v', n', h', heq⟩ := h
  cases heq
  cases x with
  | nil => simp at hn
  | cons c' x =>
    rw [List.cons_append, List.cons.injEq] at hz
    obtain ⟨rfl, hrest⟩ := hz
    rw [List.length_cons, Nat.add_le_add_iff_right] at hn
    rw [List.cons_append, step, ih hn hrest h', Option.map_some]

theorem stringRest_follow {m : Bool} {x y y' v : Text} {n : Nat} (ht : Calm y y')
    (h : stringRest m (x ++ y) = some (v, n)) (hn : n ≤ x.length) :
    stringRest m (x ++ y') = some (v, n) := by
  have quote : y'.head?.any (· == doubleQuote) = true → y.head?.any (· == doubleQuote) = true :=
    ht.extending _ (by simp [extending])
  generalize hz : x ++ y = z at h
  fun_induction stringRest m z generalizing x v n with
  | case1 => simp at h
  | case2 c rest hc ih =>
    exact stringRest_step (g := fun v => v) (fun t => by rw [stringRest, if_pos hc]) ih hz h hn
  | case3 c rest hc hb ih =>
    exact stringRest_step (fun t => by rw [stringRest, if_neg hc, if_pos hb]) ih hz h hn
  | case4 => simp at h
  | case5 c hc d rest hd ih =>
    -- Both quotes of a pair lie in `x`.
    simp only [Option.map_eq_some_iff, Prod.exists] at h
    obtain ⟨v', n', h', heq⟩ := h
    cases heq
    match x with
    | [] => simp at hn
    | [_] => simp at hn
    | c' :: d' :: x =>
      simp only [List.cons_append, List.cons.injEq] at hz
      obtain ⟨rfl, rfl, hrest⟩ := hz
      simp only [List.length_cons, Nat.add_le_add_iff_right] at hn
      simp only [List.cons_append, stringRest, hc, hd, if_true, ih hn hrest h', Option.map_some]
  | case6 c hc d rest hd =>
    cases h
    match x with
    | [] => simp at hn
    | [c'] =>
      -- The closing quote is the end of `x`, and no second quote follows it.
      simp only [List.cons_append, List.nil_append, List.cons.injEq] at hz
      obtain ⟨rfl, rfl⟩ := hz
      cases y' with
      | nil => simp [stringRest, hc]
      | cons e y' =>
        have he : (e == doubleQuote) = false := by simpa [hd] using quote
        simp [stringRest, hc, he]
    | c' :: d' :: x =>
      simp only [List.cons_append, List.cons.injEq] at hz
      obtain ⟨rfl, rfl, -⟩ := hz
      simp [stringRest, hc, hd]
  | case7 c hc =>
    cases h
    match x with
    | [] => simp at hn
    | c' :: x =>
      rw [List.cons_append, List.cons.injEq, List.append_eq_nil_iff] at hz
      obtain ⟨rfl, rfl, rfl⟩ := hz
      cases y' with
      | nil => simp [stringRest, hc]
      | cons e y' =>
        have he : (e == doubleQuote) = false := by simpa using quote
        simp [stringRest, hc, he]
  | case8 c rest hc hl ih =>
    exact stringRest_step (g := fun v => v)
      (fun t => by rw [stringRest.eq_def]; simp [hc, hl]) ih hz h hn
  | case9 c rest hc hl ih =>
    exact stringRest_step (fun t => by rw [stringRest.eq_def]; simp [hc, hl]) ih hz h hn

/-- A run that ends strictly within the text does not depend on anything behind. -/
theorem takeWhile_follow_of_lt {p : CodeUnit → Bool} {x y : Text} (y' : Text)
    (h : ((x ++ y).takeWhile p).length < x.length) :
    (x ++ y').takeWhile p = (x ++ y).takeWhile p := by
  rw [List.takeWhile_append] at h ⊢
  split at h
  · rw [List.length_append] at h
    omega
  · next hx => rw [if_neg hx, List.takeWhile_append, if_neg hx]

theorem dateRest_follow {x y v : Text} (y' : Text) (h : dateRest (x ++ y) = some v)
    (hv : v.length + 1 ≤ x.length) :
    dateRest (x ++ y') = some v := by
  unfold dateRest at h ⊢
  dsimp only at h ⊢
  split at h
  · next hq =>
    cases h
    rw [takeWhile_follow_of_lt y' hv]
    -- The closing quote lies in `x`.
    have head : ∀ z : Text, ((x ++ z).drop
      ((x ++ y).takeWhile fun c => c != singleQuote && inLine c).length).head? =
        (x.drop ((x ++ y).takeWhile fun c => c != singleQuote && inLine c).length).head? := by
      intro z
      rw [List.drop_append_of_le_length (by omega)]
      cases hx : x.drop ((x ++ y).takeWhile fun c => c != singleQuote && inLine c).length with
      | nil =>
        rw [List.drop_eq_nil_iff] at hx
        omega
      | cons d x' => rfl
    rw [head] at hq ⊢
    rw [if_pos hq]
  · cases h

/-- A longer mark would have to lie in front of `y` as well. -/
theorem mark?_follow {c : CodeUnit} {x y y' : Text} {m : Mark} (ht : Calm y y')
    (h : mark? (c :: (x ++ y)) = some m) (hm : m.text.length ≤ x.length + 1) :
    mark? (c :: (x ++ y')) = some m := by
  have hpre := prefix_of_mark? h
  -- What is a mark in front of `y'` is one in front of `y`.
  have back : ∀ k : Mark, k.text <+: c :: (x ++ y') → k.text <+: c :: (x ++ y) := by
    intro k hk
    by_cases hlen : k.text.length ≤ x.length + 1
    · have hkx : k.text <+: c :: x := List.prefix_of_prefix_length_le hk ⟨y', rfl⟩ hlen
      exact hkx.trans ⟨y, rfl⟩
    · have hk2 := k.length_text
      obtain rfl : x = [] := List.eq_nil_of_length_eq_zero (by omega)
      obtain ⟨a, d, htext, hd⟩ := Mark.text_of_length (m := k) (by omega)
      rw [htext, List.nil_append, List.cons_prefix_cons] at hk ⊢
      refine ⟨hk.1, ?_⟩
      have hy' : y'.head? = some d := by
        obtain ⟨z, rfl⟩ := hk.2
        rfl
      have hy : y.head? = some d := by
        rcases hd with rfl | rfl
        · exact head?_of_any (ht.extending (· == 0x3D) (by simp [extending]) (by simp [hy']))
        · exact head?_of_any (ht.extending (· == 0x3E) (by simp [extending]) (by simp [hy']))
      obtain ⟨z, rfl⟩ := List.head?_eq_some_iff.1 hy
      exact ⟨z, rfl⟩
  unfold mark? at h ⊢
  rw [List.find?_eq_some_iff_append] at h ⊢
  obtain ⟨-, as, bs, hall, has⟩ := h
  refine ⟨?_, as, bs, hall, ?_⟩
  · have hmx : m.text <+: c :: x := List.prefix_of_prefix_length_le hpre ⟨y, rfl⟩ hm
    exact List.isPrefixOf_iff_prefix.2 (hmx.trans ⟨y', rfl⟩)
  · intro k hk
    have hno := has k hk
    simp only [Bool.not_eq_true', ← Bool.not_eq_true, List.isPrefixOf_iff_prefix] at hno ⊢
    exact fun hk' => hno (back k hk')

/-- A lexeme that lies in front of `y` is read in front of `y'`. -/
theorem lexeme_follow {c : CodeUnit} {x y y' : Text} {l : Lexeme} {n : Nat} (ht : Calm y y')
    (h : lexeme c (x ++ y) = .ok (l, n)) (hn : n ≤ x.length + 1) :
    lexeme c (x ++ y') = .ok (l, n) := by
  unfold lexeme at h ⊢
  dsimp only at h ⊢
  split at h
  · next hc =>
    cases h
    have hword := takeWhile_follow (x := c :: x) (ht.extending isWordPart (by simp [extending])) hn
    rw [List.cons_append, List.cons_append] at hword
    rw [if_pos hc, hword]
  · next hc =>
    rw [if_neg hc]
    split at h
    · next hc =>
      cases h
      have hnumeral := numeral_follow (x := c :: x) ht hn
      rw [List.cons_append, List.cons_append] at hnumeral
      rw [if_pos hc, hnumeral]
    · next hc =>
      rw [if_neg hc]
      split at h
      · next hc =>
        rw [if_pos hc]
        split at h
        · next hs =>
          cases h
          rw [stringRest_follow ht hs (by omega)]
        · cases h
      · next hc =>
        rw [if_neg hc]
        split at h
        · next hc =>
          rw [if_pos hc]
          split at h
          · next hs =>
            cases h
            rw [dateRest_follow y' hs (by omega)]
          · cases h
        · next hc =>
          rw [if_neg hc]
          split at h
          · next hm =>
            cases h
            rw [mark?_follow ht hm hn]
          · cases h

/-- A gap that lies in front of `y` is one in front of `y'`, and where a lexeme starts no gap
does. -/
theorem gap?_follow {b : Bool} {c : CodeUnit} {x y y' : Text} (ht : Tame y y')
    (h : ∀ n, gap? b (c :: (x ++ y)) = some n → n ≤ x.length + 1) :
    gap? b (c :: (x ++ y')) = gap? b (c :: (x ++ y)) := by
  have line : ((c :: (x ++ y)).takeWhile inLine).length ≤ x.length + 1 →
      (c :: (x ++ y')).takeWhile inLine = (c :: (x ++ y)).takeWhile inLine :=
    takeWhile_follow (x := c :: x) (ht.continuing inLine (by simp [continuing]))
  change ∀ n, (if isBlank c then _ else _) = some n → _ at h
  change (if isBlank c then _ else _) = (if isBlank c then _ else _)
  split
  · rfl
  · next hc =>
    rw [if_neg hc] at h
    -- Two slashes that start a comment both lie in `x`.
    have comment : (c == slash && (x ++ y').head? == some slash) =
        (c == slash && (x ++ y).head? == some slash) := by
      cases x with
      | cons d x => rfl
      | nil =>
        by_cases hs : c = slash
        · have hy : y.head? ≠ some slash := by
            intro hy
            have hlen := h _ (if_pos (by simp [hs, hy]))
            obtain ⟨z, rfl⟩ := List.head?_eq_some_iff.1 hy
            rw [hs] at hlen
            have h1 : inLine slash = true := by decide
            simp [h1] at hlen
          have hy' : y'.head? ≠ some slash := fun hy' =>
            hy (head?_of_any (ht.continuing (· == slash) (by simp [continuing]) (by simp [hy'])))
          rw [List.nil_append, List.nil_append, beq_eq_false_iff_ne.2 hy, beq_eq_false_iff_ne.2 hy']
        · rw [beq_eq_false_iff_ne.2 hs, Bool.false_and, Bool.false_and]
    rw [comment]
    split
    · next hs =>
      rw [line (h _ (if_pos hs))]
    · next hs =>
      rw [if_neg hs] at h
      split
      · next hd => rw [line (h _ (if_pos hd))]
      · rfl

/-! ## Pieces of a source -/

/-- In front of `rest`, the text is read as the tokens. The first unit of it stands at the position.
The truth values tell, before and after the text, whether only gaps were read on the line. -/
inductive Reads (rest : Text) : Bool → Position → Text → List Token → Bool → Prop where
  | nil {b : Bool} {p : Position} : Reads rest b p [] [] b
  | newline {b b' : Bool} {p : Position} {x : Text} {ts : List Token} :
      Reads rest true (p.advance newline) x ts b' → Reads rest b p (newline :: x) ts b'
  | gap {b b' : Bool} {p : Position} {c : CodeUnit} {g x : Text} {ts : List Token} :
      gap? b (c :: (g ++ (x ++ rest))) = some (g.length + 1) →
      Reads rest b (p.after (c :: g)) x ts b' →
      Reads rest b p (c :: (g ++ x)) ts b'
  | token {b b' : Bool} {p : Position} {c : CodeUnit} {r x : Text} {l : Lexeme} {ts : List Token} :
      c ≠ Text.newline → gap? b (c :: (r ++ (x ++ rest))) = none →
      lexeme c (r ++ (x ++ rest)) = .ok (l, r.length + 1) →
      Reads rest false (p.after (c :: r)) x ts b' →
      Reads rest b p (c :: (r ++ x)) (⟨l, c :: r, p⟩ :: ts) b'

/-- What is skipped is passed without being looked at. -/
theorem scan_skip (b : Bool) (p : Position) (n : Nat) (source : Text) :
    scan b p n source = scan b (p.after (source.take n)) 0 (source.drop n) := by
  induction source generalizing p n with
  | nil =>
    rw [List.take_nil, List.drop_nil]
    cases n <;> rfl
  | cons c rest ih =>
    cases n with
    | zero => rfl
    | succ n =>
      rw [scan, ih, List.take_succ_cons, List.drop_succ_cons, Position.after_cons]

/-- Where neither a gap nor a lexeme starts, scanning ends. -/
theorem scan_fault {b : Bool} {p : Position} {c : CodeUnit} {rest : Text} {fault : LexicalFault}
    (hc : c ≠ newline) (hg : gap? b (c :: rest) = none) (hl : lexeme c rest = .error fault) :
    scan b p 0 (c :: rest) = .error (fault, p) := by
  rw [scan, if_neg (by simpa using hc), hg]
  dsimp only
  rw [hl]

/-- No piece of the text can be read: it is empty, or it starts with what is neither a gap nor a
lexeme. -/
inductive Stops (b : Bool) : Text → Prop where
  | finish : Stops b []
  | fault {c : CodeUnit} {rest : Text} {fault : LexicalFault} :
      c ≠ newline → gap? b (c :: rest) = none → lexeme c rest = .error fault → Stops b (c :: rest)

/-- Every source is read up to its end or up to where it cannot be read. -/
theorem reads_until (b : Bool) (p : Position) (source : Text) :
    ∃ x y ts b', source = x ++ y ∧ Reads y b p x ts b' ∧ Stops b' y := by
  match source with
  | [] => exact ⟨[], [], [], b, rfl, .nil, .finish⟩
  | c :: rest =>
    by_cases hc : c = newline
    · subst hc
      obtain ⟨x, y, ts, b', hrest, hr, hstop⟩ := reads_until true (p.advance newline) rest
      exact ⟨newline :: x, y, ts, b', by rw [hrest, List.cons_append], .newline hr, hstop⟩
    · -- The rest is cut behind the gap or lexeme.
      have cut : ∀ n, 1 ≤ n ∧ n ≤ rest.length + 1 → ∃ g z, rest = g ++ z ∧ n = g.length + 1 := by
        intro n hn
        refine ⟨rest.take (n - 1), rest.drop (n - 1), (List.take_append_drop _ _).symm, ?_⟩
        rw [List.length_take]
        omega
      cases hg : gap? b (c :: rest) with
      | some n =>
        obtain ⟨g, z, rfl, rfl⟩ := cut n (gap?_bounds hg)
        obtain ⟨x, y, ts, b', rfl, hr, hstop⟩ := reads_until b (p.after (c :: g)) z
        exact ⟨c :: (g ++ x), y, ts, b', by simp, .gap hg hr, hstop⟩
      | none =>
        cases hl : lexeme c rest with
        | ok r =>
          obtain ⟨l, n⟩ := r
          obtain ⟨g, z, rfl, rfl⟩ := cut n (lexeme_bounds hl)
          obtain ⟨x, y, ts, b', rfl, hr, hstop⟩ := reads_until false (p.after (c :: g)) z
          exact ⟨c :: (g ++ x), y, _, b', by simp, .token hc hg hl hr, hstop⟩
        | error fault => exact ⟨[], c :: rest, [], b, rfl, .nil, .fault hc hg hl⟩
termination_by source.length

namespace Reads

variable {rest rest' : Text} {b b' b'' : Bool} {p : Position} {x y : Text} {ts us : List Token}

/-- What is read in front of `rest` is what the scanner puts in front of the tokens of `rest`. -/
theorem scan_eq (h : Reads rest b p x ts b') :
    scan b p 0 (x ++ rest) = (scan b' (p.after x) 0 rest).map (Stream.prepend ts) := by
  induction h with
  | nil =>
    rw [List.nil_append, Position.after_nil]
    cases scan _ _ 0 rest <;> rfl
  | newline hr ih => exact ih
  | @gap b b' p c g x ts hg hr ih =>
    have hc : ¬(c == Text.newline) = true := by
      rw [beq_iff_eq]
      rintro rfl
      rw [gap?_newline] at hg
      cases hg
    rw [List.cons_append, List.append_assoc, scan, if_neg hc, hg]
    dsimp only
    rw [scan_skip, Nat.add_sub_cancel, List.take_left, List.drop_left]
    rw [Position.after_cons] at ih
    rw [ih, Position.after_cons, Position.after_append]
  | @token b b' p c r x l ts hc hg hl hr ih =>
    rw [List.cons_append, List.append_assoc, scan, if_neg (by simpa using hc), hg]
    dsimp only
    rw [hl]
    dsimp only
    rw [scan_skip, Nat.add_sub_cancel, List.take_left, List.drop_left, List.take_succ_cons,
      List.take_left]
    rw [Position.after_cons] at ih
    rw [ih, Position.after_cons, Position.after_append]
    cases scan b' (((p.advance c).after r).after x) 0 rest <;> rfl

/-- Only the start of what follows a piece matters for it. -/
theorem follow (h : Reads rest b p x ts b') (ht : Tame rest rest') : Reads rest' b p x ts b' := by
  induction h with
  | nil => exact .nil
  | newline hr ih => exact .newline ih
  | @gap b b' p c g x ts hg hr ih =>
    refine .gap ?_ ih
    rw [← List.append_assoc] at hg ⊢
    rw [gap?_follow ht, hg]
    intro n hn
    rw [hg] at hn
    cases hn
    rw [List.length_append]
    omega
  | @token b b' p c r x l ts hc hg hl hr ih =>
    rw [← List.append_assoc] at hg hl
    refine .token hc ?_ ?_ ih
    · rw [← List.append_assoc, gap?_follow ht, hg]
      intro n hn
      rw [hg] at hn
      cases hn
    · rw [← List.append_assoc]
      refine lexeme_follow ht.calm hl ?_
      rw [List.length_append]
      omega

/-- Two pieces one after the other. -/
theorem append (h : Reads (y ++ rest) b p x ts b') (hy : Reads rest b' (p.after x) y us b'') :
    Reads rest b p (x ++ y) (ts ++ us) b'' := by
  induction h with
  | nil => exact hy
  | newline hr ih => exact .newline (ih hy)
  | @gap b b' p c g x ts hg hr ih =>
    rw [List.cons_append, List.append_assoc]
    refine .gap (by rwa [List.append_assoc]) (ih ?_)
    rwa [Position.after_cons, Position.after_append] at hy
  | @token b b' p c r x l ts hc hg hl hr ih =>
    rw [List.cons_append, List.append_assoc]
    refine .token hc (by rwa [List.append_assoc]) (by rwa [List.append_assoc]) (ih ?_)
    rwa [Position.after_cons, Position.after_append] at hy

/-- The text of the first token, with the gaps in front of it. -/
theorem first {t : Token} (h : Reads rest b p x (t :: ts) b') :
    ∃ g c r y b₁, x = g ++ (c :: (r ++ y)) ∧ Reads (c :: (r ++ (y ++ rest))) b p g [] b₁ ∧
      c ≠ Text.newline ∧ gap? b₁ (c :: (r ++ (y ++ rest))) = none ∧
      lexeme c (r ++ (y ++ rest)) = .ok (t.lexeme, r.length + 1) ∧ t.raw = c :: r ∧
      t.position = p.after g ∧
      Reads rest false (p.after (g ++ (c :: r))) y ts b' := by
  generalize hus : t :: ts = us at h
  induction h with
  | nil => cases hus
  | newline hr ih =>
    obtain ⟨g, c, r, y, b₁, rfl, hg, htoken⟩ := ih hus
    exact ⟨Text.newline :: g, c, r, y, b₁, rfl, .newline hg, htoken⟩
  | @gap b b' p d g' x us hgap hr ih =>
    obtain ⟨g, c, r, y, b₁, rfl, hg, htoken⟩ := ih hus
    refine ⟨d :: (g' ++ g), c, r, y, b₁, by simp, .gap (by simpa using hgap) hg, ?_⟩
    simpa using htoken
  | @token b b' p c r x l us hc hg hl hr ih =>
    cases hus
    exact ⟨[], c, r, x, b, rfl, .nil, hc, hg, hl, rfl, rfl, hr⟩

/-- The text is cut where the tokens are. -/
theorem split (h : Reads rest b p x (ts ++ us) b') :
    ∃ x₁ x₂ b₁, x = x₁ ++ x₂ ∧ Reads (x₂ ++ rest) b p x₁ ts b₁ ∧
      Reads rest b₁ (p.after x₁) x₂ us b' := by
  induction ts generalizing b p x with
  | nil => exact ⟨[], x, b, rfl, .nil, h⟩
  | cons t ts ih =>
    obtain ⟨g, c, r, y, b₁, rfl, hg, hc, hgap, hl, hraw, hp, hr⟩ := h.first
    obtain ⟨y₁, y₂, b₂, rfl, h₁, h₂⟩ := ih hr
    obtain ⟨l, raw, q⟩ := t
    cases hraw
    cases hp
    refine ⟨g ++ (c :: (r ++ y₁)), y₂, b₂, by simp, ?_, by simpa using h₂⟩
    rw [List.append_assoc] at hg hgap hl
    rw [Position.after_append] at h₁
    have hgap' : Reads ((c :: (r ++ y₁)) ++ (y₂ ++ rest)) b p g [] b₁ := by simpa using hg
    exact hgap'.append (.token hc hgap hl h₁)

end Reads

/-- A source that is read is read to its end. -/
theorem reads_of_scan {b : Bool} {p : Position} {n : Nat} {source : Text} {s : Stream}
    (h : scan b p n source = .ok s) :
    ∃ b', Reads [] b (p.after (source.take n)) (source.drop n) s.tokens b' ∧
      s.finishPosition = p.after source := by
  obtain ⟨x, y, ts, b', hx, hr, hstop⟩ := reads_until b (p.after (source.take n)) (source.drop n)
  rw [scan_skip, hx, hr.scan_eq] at h
  cases hstop with
  | finish =>
    cases h
    rw [List.append_nil] at hx
    refine ⟨b', ?_, ?_⟩
    · rw [hx, Stream.tokens_prepend, Stream.tokens, List.append_nil]
      exact hr
    · rw [Stream.finishPosition_prepend, Stream.finishPosition, ← Position.after_append, ← hx,
        List.take_append_drop]
  | fault hc hg hl =>
    rw [scan_fault hc hg hl] at h
    cases h

end Lexer

end Gradual
