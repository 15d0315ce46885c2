import Mathlib.Data.List.Basic
import Gradual.Text.Basic

/-!
# Texts between delimiters

Keys are put together from names, with delimiters between them and lists joined by separators. As
long as no name is empty or holds a delimiter, a key can be read back from left to right: a name
ends where the next delimiter stands.

What is read back of a part is said by `Text.Tells`: two written parts that continue to the same
text are the same in what is compared of them, and so are their continuations. The continuations
have to be of a known kind, since the same delimiter may end a part or belong to it. Main statement:
`Text.Tells.join`, which passes from the items to their list.
-/

namespace Gradual

namespace Text

/-! ## Names -/

/-- The units that no name in a key may hold: `:`, `|`, `,`, brackets, `?`, `/` and the space. -/
def delimiters : List CodeUnit := [0x3A, 0x7C, 0x2C, 0x28, 0x29, 0x5B, 0x5D, 0x3F, 0x2F, 0x20]

/-- Whether a text is a name that can be read back: it is not empty and holds no delimiter. -/
def isPlain (t : Text) : Bool := !t.isEmpty && t.all fun c => !delimiters.contains c

/-- Nothing is left, or a delimiter comes next. -/
def Delimited (x : Text) : Prop := ∀ c ∈ x.head?, c ∈ delimiters

theorem isPlain_iff {t : Text} : isPlain t = true ↔ t ≠ [] ∧ ∀ c ∈ t, c ∉ delimiters := by
  unfold isPlain
  rw [Bool.and_eq_true, List.all_eq_true]
  simp

theorem delimited_of_head? {c : CodeUnit} {x : Text} (h : c ∈ delimiters) (hx : x.head? = some c) :
    Delimited x := by
  intro d hd
  rw [hx] at hd
  cases hd
  exact h

theorem delimited_cons {c : CodeUnit} (h : c ∈ delimiters) (x : Text) : Delimited (c :: x) :=
  delimited_of_head? h rfl

theorem delimited_nil : Delimited [] := by
  intro c hc
  cases hc

/-- A text that goes on with a name is not delimited. -/
theorem not_delimited_append {t : Text} (h : isPlain t = true) (x : Text) :
    ¬Delimited (t ++ x) := by
  obtain ⟨hne, hfree⟩ := isPlain_iff.1 h
  cases t with
  | nil => exact absurd rfl hne
  | cons c t => exact fun hx => hfree c List.mem_cons_self (hx c rfl)

/-- Without delimiters, two texts in front of delimiters are told by what they make together. -/
theorem append_inj_of_free {s t x y : Text} (hs : ∀ c ∈ s, c ∉ delimiters)
    (ht : ∀ c ∈ t, c ∉ delimiters) (hx : Delimited x) (hy : Delimited y) (h : s ++ x = t ++ y) :
    s = t ∧ x = y := by
  induction s generalizing t with
  | nil =>
    cases t with
    | nil => exact ⟨rfl, h⟩
    | cons d t =>
      rw [List.nil_append] at h
      subst h
      exact absurd (hx d rfl) (ht d List.mem_cons_self)
  | cons c s ih =>
    cases t with
    | nil =>
      rw [List.nil_append] at h
      subst h
      exact absurd (hy c rfl) (hs c List.mem_cons_self)
    | cons d t =>
      rw [List.cons_append, List.cons_append, List.cons.injEq] at h
      rw [List.forall_mem_cons] at hs ht
      obtain ⟨rfl, hrest⟩ := ih hs.2 ht.2 h.2
      exact ⟨by rw [h.1], hrest⟩

/-! ## Parts -/

/-- In front of continuations of a kind, written values of a kind are told in what is compared of
them. -/
def Tells {α β : Type} (good : α → Prop) (follows : Text → Prop) (write : α → Text)
    (compared : α → β) : Prop :=
  ∀ ⦃a b : α⦄ ⦃x y : Text⦄, good a → good b → follows x → follows y → write a ++ x = write b ++ y →
    compared a = compared b ∧ x = y

section

variable {α β : Type} {good good' : α → Prop} {follows follows' : Text → Prop}
  {write write' : α → Text} {compared : α → β}

/-- A part of a value, where only this part is written. -/
theorem Tells.comap (h : Tells good follows write compared) {γ : Type} (f : γ → α) :
    Tells (fun a => good (f a)) follows (fun a => write (f a)) fun a => compared (f a) :=
  fun _ _ _ _ ha hb hx hy heq => h ha hb hx hy heq

/-- Fewer continuations. -/
theorem Tells.mono (h : Tells good follows write compared)
    (hfollows : ∀ x, follows' x → follows x) :
    Tells good follows' write compared :=
  fun _ _ _ _ ha hb hx hy heq => h ha hb (hfollows _ hx) (hfollows _ hy) heq

/-- Fewer values, written in the same way, with less compared of them. -/
theorem Tells.congr (h : Tells good follows write compared) {γ : Type} {compared' : α → γ}
    (hgood : ∀ a, good' a → good a) (hwrite : ∀ a, write' a = write a)
    (hcompared : ∀ a b, compared a = compared b → compared' a = compared' b) :
    Tells good' follows write' compared' := by
  intro a b x y ha hb hx hy heq
  rw [hwrite, hwrite] at heq
  obtain ⟨hab, hxy⟩ := h (hgood a ha) (hgood b hb) hx hy heq
  exact ⟨hcompared a b hab, hxy⟩

/-- A fixed text in front is passed. -/
theorem Tells.behindText (h : Tells good follows write compared) (t : Text) :
    Tells good follows (fun a => t ++ write a) compared := by
  intro a b x y ha hb hx hy heq
  rw [List.append_assoc, List.append_assoc] at heq
  exact h ha hb hx hy (List.append_cancel_left heq)

/-- Two parts one after the other, where the second in front of its continuations can follow the
first. -/
theorem Tells.append (h : Tells good follows write compared) {γ : Type} {compared' : α → γ}
    (h' : Tells good' follows' write' compared')
    (hfollows : ∀ a x, good' a → follows' x → follows (write' a ++ x)) :
    Tells (fun a => good a ∧ good' a) follows' (fun a => write a ++ write' a) fun a =>
      (compared a, compared' a) := by
  intro a b x y ha hb hx hy heq
  rw [List.append_assoc, List.append_assoc] at heq
  obtain ⟨hfirst, hrest⟩ := h ha.1 hb.1 (hfollows a x ha.2 hx) (hfollows b y hb.2 hy) heq
  obtain ⟨hsecond, hxy⟩ := h' ha.2 hb.2 hx hy hrest
  exact ⟨Prod.ext hfirst hsecond, hxy⟩

end

/-- A fixed text tells nothing, and what follows it can still be told. -/
theorem tells_text {α : Type} (follows : Text → Prop) (t : Text) :
    Tells (fun _ : α => True) follows (fun _ => t) fun _ => () :=
  fun _ _ _ _ _ _ _ _ h => ⟨rfl, List.append_cancel_left h⟩

/-- A plain text tells itself in front of a delimiter. -/
theorem tells_plain : Tells (fun t => isPlain t = true) Delimited (fun t => t) fun t => t := by
  intro s t x y hs ht hx hy h
  exact append_inj_of_free (isPlain_iff.1 hs).2 (isPlain_iff.1 ht).2 hx hy h

/-- A name that may be absent, since a name is not empty. -/
theorem tells_optional :
    Tells (fun o : Option Text => o.all isPlain = true) Delimited
      (fun o => o.getD []) fun o => o := by
  have hfree : ∀ o : Option Text, o.all isPlain = true → ∀ c ∈ o.getD [], c ∉ delimiters := by
    intro o ho
    cases o with
    | none => simp
    | some t => exact (isPlain_iff.1 ho).2
  intro o o' x y ho ho' hx hy h
  obtain ⟨hname, hrest⟩ := append_inj_of_free (hfree o ho) (hfree o' ho') hx hy h
  refine ⟨?_, hrest⟩
  cases o with
  | none =>
    cases o' with
    | none => rfl
    | some t => exact absurd hname.symm (isPlain_iff.1 ho').1
  | some s =>
    cases o' with
    | none => exact absurd hname (isPlain_iff.1 ho).1
    | some t => exact congrArg some hname

/-- A sign that is written or not, in front of what does not start with it. -/
theorem tells_flag (sign : CodeUnit) :
    Tells (fun _ => True) (fun x => x.head? ≠ some sign)
      (fun b => if b = true then [sign] else []) fun b : Bool => b := by
  intro b b' x y _ _ hx hy h
  cases b with
  | false =>
    cases b' with
    | false => exact ⟨rfl, h⟩
    | true =>
      refine absurd ?_ hx
      exact congrArg List.head? h
  | true =>
    cases b' with
    | false =>
      refine absurd ?_ hy
      exact congrArg List.head? h.symm
    | true => exact ⟨rfl, List.tail_eq_of_cons_eq h⟩

/-- A name with or without a word and a space in front of it. -/
theorem tells_marked (word : Text) (hword : isPlain word = true) :
    Tells (fun r : Bool × Text => isPlain r.2 = true) (fun x => Delimited x ∧ x.head? ≠ some 0x20)
      (fun r => (if r.1 = true then word ++ [0x20] else []) ++ r.2) fun r => r := by
  rintro ⟨b, s⟩ ⟨b', t⟩ x y hs ht ⟨hx, hxs⟩ ⟨hy, hys⟩ h
  have hspace : ∀ z : Text, Delimited (0x20 :: z) := delimited_cons (by decide)
  -- A word that is taken for the name would be followed by a space.
  cases b with
  | false =>
    cases b' with
    | false =>
      obtain ⟨rfl, hrest⟩ := tells_plain hs ht hx hy h
      exact ⟨rfl, hrest⟩
    | true =>
      have hmark : s ++ x = word ++ (0x20 :: (t ++ y)) := by simpa using h
      obtain ⟨-, rfl⟩ := tells_plain hs hword hx (hspace _) hmark
      exact absurd rfl hxs
  | true =>
    cases b' with
    | false =>
      have hmark : t ++ y = word ++ (0x20 :: (s ++ x)) := by simpa using h.symm
      obtain ⟨-, rfl⟩ := tells_plain ht hword hy (hspace _) hmark
      exact absurd rfl hys
    | true =>
      have hnames : s ++ x = t ++ y := by simpa using h
      obtain ⟨rfl, hrest⟩ := tells_plain hs ht hx hy hnames
      exact ⟨rfl, hrest⟩

/-- A plain name, marked or not, is not delimited. -/
theorem not_delimited_marked {word name : Text} {b : Bool} (hword : isPlain word = true)
    (hname : isPlain name = true) (x : Text) :
    ¬Delimited (((if b = true then word ++ [0x20] else []) ++ name) ++ x) := by
  cases b with
  | false => exact not_delimited_append hname x
  | true =>
    rw [if_pos rfl, List.append_assoc, List.append_assoc]
    exact not_delimited_append hword _

/-! ## Lists -/

/-- Joined texts are the first one and the others, each behind a separator. -/
theorem join_cons (separator t : Text) (ts : List Text) :
    join separator (t :: ts) = t ++ ts.flatMap fun u => separator ++ u := by
  unfold join
  induction ts generalizing t with
  | nil => simp
  | cons u ts ih =>
    rw [List.intercalate_cons_cons, ih, List.flatMap_cons, List.append_assoc,
      List.append_assoc separator]

section

variable {α β : Type} {good : α → Prop} {follows : Text → Prop} {write : α → Text}
  {compared : α → β} {sep : CodeUnit}

/-- Items that each stand behind a separator. -/
theorem Tells.behind (h : Tells good (fun x => x.head? = some sep ∨ follows x) write compared)
    (hsep : ∀ x, follows x → x.head? ≠ some sep) :
    Tells (fun as => ∀ a ∈ as, good a) follows (fun as => as.flatMap fun a => sep :: write a)
      (List.map compared) := by
  intro as
  induction as with
  | nil =>
    intro bs x y _ hbs hx hy heq
    cases bs with
    | nil => exact ⟨rfl, heq⟩
    | cons b bs => exact absurd (congrArg List.head? heq) (hsep x hx)
  | cons a as ih =>
    intro bs x y has hbs hx hy heq
    cases bs with
    | nil => exact absurd (congrArg List.head? heq).symm (hsep y hy)
    | cons b bs =>
      rw [List.forall_mem_cons] at has hbs
      -- What follows an item is the next separator or what follows the list.
      have hnext : ∀ (cs : List α) (z : Text), follows z →
          (cs.flatMap (fun a => sep :: write a) ++ z).head? = some sep ∨
            follows (cs.flatMap (fun a => sep :: write a) ++ z) := by
        intro cs z hz
        cases cs with
        | nil => exact .inr hz
        | cons c cs => exact .inl rfl
      have hitem : write a ++ (as.flatMap (fun a => sep :: write a) ++ x) =
          write b ++ (bs.flatMap (fun a => sep :: write a) ++ y) := by
        simpa using heq
      obtain ⟨hab, hrest⟩ := h has.1 hbs.1 (hnext as x hx) (hnext bs y hy) hitem
      obtain ⟨hlist, hxy⟩ := ih has.2 hbs.2 hx hy hrest
      exact ⟨by rw [List.map_cons, List.map_cons, hab, hlist], hxy⟩

/-- **Joined items are told from left to right**, if what follows the list starts neither like an
item nor with the separator. -/
theorem Tells.join (h : Tells good (fun x => x.head? = some sep ∨ follows x) write compared)
    (hsep : ∀ x, follows x → x.head? ≠ some sep) (hopen : ∀ a x, good a → ¬follows (write a ++ x)) :
    Tells (fun as => ∀ a ∈ as, good a) follows (fun as => Text.join [sep] (as.map write))
      (List.map compared) := by
  have hwrite : ∀ (a : α) (as : List α) (x : Text), Text.join [sep] ((a :: as).map write) ++ x =
      write a ++ (as.flatMap (fun a => sep :: write a) ++ x) := by
    intro a as x
    rw [List.map_cons, join_cons, List.flatMap_map, List.append_assoc]
    rfl
  intro as bs x y has hbs hx hy heq
  dsimp only at heq
  cases as with
  | nil =>
    cases bs with
    | nil => exact ⟨rfl, heq⟩
    | cons b bs =>
      rw [hwrite] at heq
      subst heq
      exact absurd hx (hopen b _ (hbs b List.mem_cons_self))
  | cons a as =>
    cases bs with
    | nil =>
      rw [hwrite] at heq
      subst heq
      exact absurd hy (hopen a _ (has a List.mem_cons_self))
    | cons b bs =>
      -- With a separator in front of both they are lists behind separators.
      have hbehind := h.behind hsep has hbs hx hy
      rw [hwrite, hwrite] at heq
      apply hbehind
      simpa using heq

/-- Joined items that end where a delimiter comes next. -/
theorem Tells.joinDelimited (h : Tells good Delimited write compared) (hsep : sep ∈ delimiters)
    (hopen : ∀ a x, good a → ¬Delimited (write a ++ x))
    (hfollows : ∀ x, follows x → Delimited x ∧ x.head? ≠ some sep) :
    Tells (fun as => ∀ a ∈ as, good a) follows (fun as => Text.join [sep] (as.map write))
      (List.map compared) := by
  have hitem : Tells good (fun x => x.head? = some sep ∨ follows x) write compared := by
    refine h.mono ?_
    rintro x (hx | hx)
    · exact delimited_of_head? hsep hx
    · exact (hfollows x hx).1
  exact hitem.join (fun x hx => (hfollows x hx).2) fun a x ha hx => hopen a x ha (hfollows _ hx).1

end

end Text

end Gradual
