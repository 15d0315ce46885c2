import Mathlib.Data.List.Basic
import Gradual.Graph.Dependency
import Gradual.Proofs.Syntax.Lexed

/-!
# Keys that identify

Scopes and nodes are told apart by texts that are put together from names, numbers and separators. A
number is written with digits only, so that the last separator in front of it can be found again,
whatever the names hold. A word holds no separator, so that the last separator in a key with a word
behind it can be found as well; the file of a module, which may hold any of them, is always in front
of it.

Main statements: `Scope.key_injective`, `Node.key_eq_key_function_iff` and `Node.key_eq_key_iff`.
-/

namespace Gradual

/-! ## Numbers -/

namespace Text

theorem toNat_le_of_isDigit {c : Char} (h : c.isDigit = true) : c.toNat ≤ 57 :=
  (Char.isDigit_iff_toNat.1 h).2

theorem isDigit_of_mem_toDigits {n : Nat} {c : Char} (h : c ∈ Nat.toDigits 10 n) :
    c.isDigit = true :=
  Nat.isDigit_of_mem_toDigits (by decide) (by decide) h

theorem toNat_toUInt16_of_mem_toDigits {n : Nat} {c : Char} (h : c ∈ Nat.toDigits 10 n) :
    c.toNat.toUInt16.toNat = c.toNat := by
  have hle := toNat_le_of_isDigit (isDigit_of_mem_toDigits h)
  exact UInt16.toNat_ofNat_of_lt (Nat.lt_of_le_of_lt hle (by decide))

/-- A number is written with one unit for each digit. -/
theorem ofNat_eq_map (n : Nat) : ofNat n = (Nat.toDigits 10 n).map fun c => c.toNat.toUInt16 := by
  have hunits : ∀ c ∈ Nat.toDigits 10 n, unitsOf c.toNat = [c.toNat.toUInt16] := by
    intro c hc
    have hle := toNat_le_of_isDigit (isDigit_of_mem_toDigits hc)
    rw [unitsOf, if_pos (by omega)]
  rw [ofNat, ofString, Nat.repr_eq_ofList_toDigits, String.toList_ofList, ofPoints,
    List.flatMap_map, List.flatMap_congr hunits, ← List.map_eq_flatMap]

/-- No two naturals are written alike. -/
theorem ofNat_injective : Function.Injective ofNat := by
  intro m n h
  -- The digits can be read back from the units.
  have hdigits : ∀ k, (ofNat k).map (fun u => Char.ofNat u.toNat) = Nat.toDigits 10 k := by
    intro k
    rw [ofNat_eq_map, List.map_map]
    refine (List.map_congr_left fun c hc => ?_).trans (List.map_id _)
    rw [Function.comp_apply, toNat_toUInt16_of_mem_toDigits hc, Char.ofNat_toNat]
    rfl
  have heq : Nat.toDigits 10 m = Nat.toDigits 10 n := by rw [← hdigits m, ← hdigits n, h]
  rw [← Nat.ofDigitChars_ten_toDigits (n := m), heq, Nat.ofDigitChars_ten_toDigits]

/-- No number is written with a number sign. -/
theorem numberSign_not_mem_ofNat (n : Nat) : 0x23 ∉ ofNat n := by
  rw [ofNat_eq_map, List.mem_map]
  rintro ⟨c, hc, hsign⟩
  have hge : 48 ≤ c.toNat := (Char.isDigit_iff_toNat.1 (isDigit_of_mem_toDigits hc)).1
  have hunit : c.toNat = 0x23 := by rw [← toNat_toUInt16_of_mem_toDigits hc, hsign]; rfl
  omega

end Text

/-- A list is cut in one way at the last place of an element. -/
theorem append_cons_inj_of_not_mem_right {α : Type} {xs xs' ys ys' : List α} {a : α} (hy : a ∉ ys)
    (hy' : a ∉ ys') (h : xs ++ a :: ys = xs' ++ a :: ys') : xs = xs' ∧ ys = ys' := by
  rcases List.append_eq_append_iff.1 h with ⟨zs, rfl, hcons⟩ | ⟨zs, rfl, hcons⟩
  · cases zs with
    | nil =>
      rw [List.append_nil]
      exact ⟨rfl, List.tail_eq_of_cons_eq hcons⟩
    | cons b zs =>
      refine absurd ?_ hy
      rw [List.tail_eq_of_cons_eq hcons]
      simp
  · cases zs with
    | nil =>
      rw [List.append_nil]
      exact ⟨rfl, (List.tail_eq_of_cons_eq hcons).symm⟩
    | cons b zs =>
      refine absurd ?_ hy'
      rw [List.tail_eq_of_cons_eq hcons]
      simp

/-! ## Scopes -/

namespace Scope

/-- The first unit of a key. -/
def initial : Scope → CodeUnit
  | global => 0x67
  | module _ => 0x6D
  | function _ => 0x66
  | block _ _ => 0x6C

theorem head?_key (s : Scope) : s.key.head? = some s.initial := by cases s <;> rfl

theorem separated_key {owner : Text} {id : Nat} :
    (block owner id).key = (Text.ofString "local:" ++ owner) ++ 0x23 :: Text.ofNat id := by
  rw [key, List.append_assoc _ (Text.ofString "#")]
  rfl

/-- **A scope is determined by its key.** -/
theorem key_injective : Function.Injective key := by
  intro s t h
  have hinitial : s.initial = t.initial := by
    have hhead := congrArg List.head? h
    rw [head?_key, head?_key] at hhead
    exact Option.some.inj hhead
  cases s with
  | global =>
    cases t with
    | global => rfl
    | _ => simp [initial] at hinitial
  | module name =>
    cases t with
    | module name' => rw [List.append_cancel_left h]
    | _ => simp [initial] at hinitial
  | function name =>
    cases t with
    | function name' => rw [List.append_cancel_left h]
    | _ => simp [initial] at hinitial
  | block owner id =>
    cases t with
    | block owner' id' =>
      obtain ⟨howner, hid⟩ := append_cons_inj_of_not_mem_right (Text.numberSign_not_mem_ofNat id)
        (Text.numberSign_not_mem_ofNat id') (separated_key.symm.trans (h.trans separated_key))
      rw [List.append_cancel_left howner, Text.ofNat_injective hid]
    | _ => simp [initial] at hinitial

end Scope

/-! ## Nodes of routines -/

namespace Node

/-- The first two units of a key. -/
def mark : Node → List CodeUnit
  | var .. => [0x76, 0x61]
  | function .. => [0x66, 0x6E]
  | parameter .. => [0x70, 0x61]
  | result .. => [0x72, 0x65]
  | field .. => [0x66, 0x69]
  | method .. => [0x6D, 0x65]

theorem take_key (n : Node) : n.key.take 2 = n.mark := by cases n <;> rfl

/-- The last unit of a routine's key tells whether the routine is exported. -/
theorem getLast?_key_function (name : Text) (exported : Bool) :
    (function name exported).key.getLast? = some (if exported then 0x74 else 0x6C) := by
  rw [key, List.getLast?_append]
  cases exported <;> rfl

/-- The node of a routine is determined by its key. -/
theorem key_eq_key_function_iff {n : Node} {name : Text} {exported : Bool} :
    n.key = (function name exported).key ↔ n = function name exported := by
  refine ⟨fun h => ?_, fun h => by rw [h]⟩
  have hmark : n.mark = [0x66, 0x6E] := by rw [← take_key, h]; rfl
  cases n with
  | function name' exported' =>
    have hlast := congrArg List.getLast? h
    rw [getLast?_key_function, getLast?_key_function, Option.some.injEq] at hlast
    have hflag : exported' = exported := by
      cases exported' <;> cases exported <;> simp at hlast <;> rfl
    subst hflag
    rw [List.append_cancel_left (List.append_cancel_right (List.append_cancel_right h))]
  | _ => simp [mark] at hmark

end Node

/-! ## Nodes with words for names -/

/-- A unit that is no part of words is in no word. -/
theorem Text.IsWord.not_mem {word : Text} (h : word.IsWord) {c : CodeUnit}
    (hc : isWordPart c = false) : c ∉ word := by
  intro hmem
  cases word with
  | nil => exact h
  | cons d rest =>
    have hpart : isWordPart c = true := by
      rcases List.mem_cons.1 hmem with rfl | hrest
      · exact Lexer.isWordPart_of_isWordStart h.1
      · exact h.2 c hrest
    rw [hc] at hpart
    cases hpart

/-- The names in a scope. The file of a module is none of them: it may be any text. -/
def Scope.names : Scope → List Text
  | global | module _ => []
  | function name | block name _ => [name]

namespace Node

/-- The names in a node, with those in its scope. -/
def names : Node → List Text
  | var name scope => name :: scope.names
  | function name _ => [name]
  | parameter routine name => [routine, name]
  | result routine => [routine]
  | field object name | method object name => [object, name]

/-- Two texts with a separator between them are determined by what they make together, if the
separator is in neither of the second ones. -/
theorem separated_inj {front before before' after after' : Text} {c : CodeUnit} (ha : c ∉ after)
    (ha' : c ∉ after') (h : front ++ before ++ [c] ++ after = front ++ before' ++ [c] ++ after') :
    before = before' ∧ after = after' := by
  simp only [List.append_assoc, List.singleton_append] at h
  exact append_cons_inj_of_not_mem_right ha ha' (List.append_cancel_left h)

/-- **A node is determined by its key**, if its names are words. -/
theorem key_eq_key_iff {a b : Node} (ha : ∀ name ∈ a.names, name.IsWord)
    (hb : ∀ name ∈ b.names, name.IsWord) : a.key = b.key ↔ a = b := by
  refine ⟨fun h => ?_, fun h => by rw [h]⟩
  have hmark : a.mark = b.mark := by rw [← take_key, ← take_key, h]
  have hcolon : Text.isWordPart 0x3A = false := by decide
  have hpoint : Text.isWordPart 0x2E = false := by decide
  cases a with
  | var name scope =>
    cases b with
    | var name' scope' =>
      -- The scope may hold colons, so the key is cut at the last one.
      obtain ⟨hscope, rfl⟩ := separated_inj ((ha name (by simp [names])).not_mem hcolon)
        ((hb name' (by simp [names])).not_mem hcolon) h
      rw [Scope.key_injective hscope]
    | _ => simp [mark] at hmark
  | function name exported => exact (key_eq_key_function_iff.1 h.symm).symm
  | parameter routine name =>
    cases b with
    | parameter routine' name' =>
      obtain ⟨rfl, rfl⟩ := separated_inj ((ha name (by simp [names])).not_mem hcolon)
        ((hb name' (by simp [names])).not_mem hcolon) h
      rfl
    | _ => simp [mark] at hmark
  | result routine =>
    cases b with
    | result routine' => rw [List.append_cancel_left h]
    | _ => simp [mark] at hmark
  | field object name =>
    cases b with
    | field object' name' =>
      obtain ⟨rfl, rfl⟩ := separated_inj ((ha name (by simp [names])).not_mem hpoint)
        ((hb name' (by simp [names])).not_mem hpoint) h
      rfl
    | _ => simp [mark] at hmark
  | method object name =>
    cases b with
    | method object' name' =>
      obtain ⟨rfl, rfl⟩ := separated_inj ((ha name (by simp [names])).not_mem hpoint)
        ((hb name' (by simp [names])).not_mem hpoint) (List.append_cancel_right h)
      rfl
    | _ => simp [mark] at hmark

/-- The variable `б` of the file `а:б` and the one of the file `а`, whose key is a start of the
other key. -/
theorem key_eq_key_iff_files :
    ∃ a b : Node, a = var [0x431] (.module [0x430, 0x3A, 0x431]) ∧
      b = var [0x431] (.module [0x430]) ∧
      (∀ name ∈ a.names, name.IsWord) ∧ (∀ name ∈ b.names, name.IsWord) ∧
        (a.key = b.key ↔ a = b) := by
  have hword : ∀ name ∈ [[0x431]], Text.IsWord name := by
    intro name hname
    rw [List.mem_singleton] at hname
    subst hname
    exact ⟨by decide, by simp⟩
  exact ⟨_, _, rfl, rfl, hword, hword, key_eq_key_iff hword hword⟩

-- Names with points in them would be mixed up.
example : (field [0x430, 0x2E, 0x431] [0x432]).key = (field [0x430] [0x431, 0x2E, 0x432]).key := by
  decide

end Node

end Gradual
