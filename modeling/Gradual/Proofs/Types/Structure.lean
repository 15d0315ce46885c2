import Gradual.Proofs.Delimited
import Gradual.Proofs.Types.Exact

/-!
# Equality of structure

Concrete types are compared by keys, flat texts that spell out names, parameters, properties and
attributes. The same delimiters serve several purposes there: a colon ends the name of a parameter,
announces what a function returns, and stands between methods and properties. Still no two
structures have one key, as long as names and types are texts without delimiters.

The one place where a key cannot be read from left to right by its next delimiter alone is behind
the parameters of a method: a colon there announces a returned type or ends the list of methods.
Which of the two it is can be seen from what comes later, since the key of a property is a name, a
colon and a type, and nothing else has a single colon in it there.

Main statement: `Concrete.same_iff_agrees`.
-/

namespace Gradual

open Text

variable {ω : Type}

/-! ## What is compared -/

/-- What is compared of a method: name, parameters, whether it is a function, and what it returns if
it is one. -/
def Method.outline (m : Method) : Text × List MethodParam × Option (Option Text) :=
  (m.name, m.params, if m.isFunction then some m.returns else none)

/-- What is compared of an attribute: name and type. -/
def Attribute.outline (a : Attribute) : Text × Text := (a.name, a.type)

/-- What is compared of a table: its name, and what is compared of its attributes. -/
def TabularSection.outline (s : TabularSection) : Text × List (Text × Text) :=
  (s.name, s.attributes.map Attribute.outline)

/-- What is compared of a parameter of a global function: its name, and whether it is optional. -/
def GlobalParam.outline (p : GlobalParam ω) : Text × Bool := (p.name, p.optional)

/-- Two types are of one kind and the same in all that is compared. Parameters of methods and
properties are compared in all their fields. -/
def Concrete.Agrees : Concrete ω → Concrete ω → Prop
  | platform name methods properties, platform name' methods' properties' =>
    name = name' ∧ methods.map Method.outline = methods'.map Method.outline ∧
      properties = properties'
  | configuration kind name attributes sections, configuration kind' name' attributes' sections' =>
    kind = kind' ∧ name = name' ∧
      attributes.map Attribute.outline = attributes'.map Attribute.outline ∧
      sections.map TabularSection.outline = sections'.map TabularSection.outline
  | primitive p, primitive q => p = q
  | special s, special t => s = t
  | function f, function g =>
    f.name = g.name ∧ f.englishName = g.englishName ∧
      f.params.map GlobalParam.outline = g.params.map GlobalParam.outline ∧
        f.polymorphic = g.polymorphic
  | _, _ => False

/-! ## Names without delimiters -/

/-- Whether name and type of a parameter are plain, the type if there is one. -/
def MethodParam.isPlain (p : MethodParam) : Bool := Text.isPlain p.name && p.type.all Text.isPlain

/-- Whether all names and types of a method are plain. -/
def Method.isPlain (m : Method) : Bool :=
  Text.isPlain m.name && m.params.all MethodParam.isPlain && m.returns.all Text.isPlain

/-- Whether name and type of a property are plain. -/
def Property.isPlain (p : Property) : Bool := Text.isPlain p.name && Text.isPlain p.type

/-- Whether name and type of an attribute are plain. -/
def Attribute.isPlain (a : Attribute) : Bool := Text.isPlain a.name && Text.isPlain a.type

/-- Whether all names and types of a table are plain. -/
def TabularSection.isPlain (s : TabularSection) : Bool :=
  Text.isPlain s.name && s.attributes.all Attribute.isPlain

/-- Whether the name of a parameter is plain. -/
def GlobalParam.isPlain (p : GlobalParam ω) : Bool := Text.isPlain p.name

/-- A parameter is plain when its name and its type are. -/
theorem MethodParam.isPlain_iff {p : MethodParam} :
    p.isPlain = true ↔ Text.isPlain p.name = true ∧ p.type.all Text.isPlain = true :=
  Bool.and_eq_true_iff

/-- A method is plain when its name, its parameters and its result are. -/
theorem Method.isPlain_iff {m : Method} :
    m.isPlain = true ↔ Text.isPlain m.name = true ∧ (∀ p ∈ m.params, p.isPlain = true) ∧
      m.returns.all Text.isPlain = true := by
  unfold isPlain
  rw [Bool.and_eq_true, Bool.and_eq_true, List.all_eq_true, and_assoc]

/-- A property is plain when its name and its type are. -/
theorem Property.isPlain_iff {p : Property} :
    p.isPlain = true ↔ Text.isPlain p.name = true ∧ Text.isPlain p.type = true :=
  Bool.and_eq_true_iff

/-- An attribute is plain when its name and its type are. -/
theorem Attribute.isPlain_iff {a : Attribute} :
    a.isPlain = true ↔ Text.isPlain a.name = true ∧ Text.isPlain a.type = true :=
  Bool.and_eq_true_iff

/-- A tabular section is plain when its name and its attributes are. -/
theorem TabularSection.isPlain_iff {s : TabularSection} :
    s.isPlain = true ↔ Text.isPlain s.name = true ∧ ∀ a ∈ s.attributes, a.isPlain = true := by
  unfold isPlain
  rw [Bool.and_eq_true, List.all_eq_true]

/-- Whether all names and types in a type are plain. -/
def Concrete.isPlain : Concrete ω → Bool
  | platform name methods properties =>
    Text.isPlain name && methods.all Method.isPlain && properties.all Property.isPlain
  | configuration _ name attributes sections =>
    Text.isPlain name && attributes.all Attribute.isPlain && sections.all TabularSection.isPlain
  | primitive _ => true
  | special _ => true
  | function f =>
    Text.isPlain f.name && Text.isPlain f.englishName && f.params.all GlobalParam.isPlain

/-! ## Parameters of methods -/

/-- The key of a parameter in two parts: what ends with the name, and what starts behind it. -/
theorem MethodParam.key_eq (p : MethodParam) :
    p.key = ((if p.byValue = true then [0x76, 0x61, 0x6C] ++ [0x20] else []) ++ p.name) ++
      ((if p.optional = true then [0x3F] else []) ++ (0x3A :: p.type.getD [])) := by
  unfold key
  cases p.byValue <;> cases p.optional <;> simp <;> rfl

/-- The key of a plain parameter tells everything about it. -/
theorem MethodParam.tells_key : Tells (fun p => isPlain p = true) Delimited key fun p => p := by
  have hname := (tells_marked [0x76, 0x61, 0x6C] (by decide)).comap fun p : MethodParam =>
    (p.byValue, p.name)
  have hflag := (tells_flag 0x3F).comap MethodParam.optional
  have htype := (tells_optional.behindText [0x3A]).comap MethodParam.type
  have hrest := hflag.append htype fun p x _ _ => by simp
  have hall := hname.append hrest ?_
  · refine hall.congr ?_ key_eq ?_
    · intro p hp
      obtain ⟨hname, htype⟩ := isPlain_iff.1 hp
      exact ⟨hname, trivial, htype⟩
    · rintro ⟨name, type, optional, byValue⟩ ⟨name', type', optional', byValue'⟩ h
      cases h
      rfl
  · -- The name ends with the question mark or with the colon.
    intro p x _ _
    cases p.optional with
    | false => exact ⟨delimited_cons (by decide) _, by simp⟩
    | true => exact ⟨delimited_cons (by decide) _, by simp⟩

/-! ## Properties -/

/-- The key of a property in two parts, its name and its type. -/
theorem Property.key_eq (p : Property) :
    p.key = ((if p.readOnly = true then [0x72, 0x6F] ++ [0x20] else []) ++ p.name) ++
      ([0x3A] ++ p.type) := by
  unfold key
  cases p.readOnly <;> simp <;> rfl

/-- The key of a plain property tells everything about it. -/
theorem Property.tells_key : Tells (fun p => isPlain p = true) Delimited key fun p => p := by
  have hname := (tells_marked [0x72, 0x6F] (by decide)).comap fun p : Property =>
    (p.readOnly, p.name)
  have htype := (tells_plain.behindText [0x3A]).comap Property.type
  have hall := hname.append htype fun p x _ _ => ⟨delimited_cons (by decide) _, by simp⟩
  refine hall.congr (fun _ hp => isPlain_iff.1 hp) key_eq ?_
  rintro ⟨name, type, readOnly⟩ ⟨name', type', readOnly'⟩ h
  cases h
  rfl

/-- The key of a property starts with a name or with the word in front of it. -/
theorem Property.not_delimited_key {p : Property} (hp : p.isPlain = true) (x : Text) :
    ¬Delimited (p.key ++ x) := by
  rw [key_eq, List.append_assoc]
  exact not_delimited_marked (by decide) (isPlain_iff.1 hp).1 _

/-- What follows the list of methods: a colon and the properties. -/
def Property.Listed (x : Text) : Prop :=
  ∃ ps : List Property, (∀ p ∈ ps, p.isPlain = true) ∧ x = 0x3A :: join [0x7C] (ps.map key)

/-- The keys of plain properties, joined by bars, tell all of them. -/
theorem Property.tells_list :
    Tells (fun ps : List Property => ∀ p ∈ ps, p.isPlain = true) (fun x => x = [])
      (fun ps => join [0x7C] (ps.map key)) fun ps => ps := by
  refine (tells_key.joinDelimited (by decide) (fun p x hp => not_delimited_key hp x) ?_).congr
    (fun _ h => h) (fun _ => rfl) fun _ _ h => by simpa using h
  rintro x rfl
  exact ⟨delimited_nil, by simp⟩

/-- A word at the start of a list of properties is the mark or the name of the first property. -/
theorem Property.word_of_list {ps : List Property} (hps : ∀ p ∈ ps, p.isPlain = true)
    {word x : Text} (hword : Text.isPlain word = true) (hx : Delimited x)
    (h : word ++ x = join [0x7C] (ps.map key)) :
    x.head? = some 0x20 ∨ ∃ type more, Text.isPlain type = true ∧ x = 0x3A :: (type ++ more) ∧
      (more = [] ∨ more.head? = some 0x7C) := by
  cases ps with
  | nil =>
    have hnil : word = [] := (List.append_eq_nil_iff.1 h).1
    exact absurd hnil (Text.isPlain_iff.1 hword).1
  | cons p ps =>
    rw [List.forall_mem_cons] at hps
    obtain ⟨hname, htype⟩ := isPlain_iff.1 hps.1
    rw [List.map_cons, join_cons, key_eq] at h
    cases hflag : p.readOnly with
    | true =>
      rw [hflag] at h
      have hmark : word ++ x = [0x72, 0x6F] ++ (0x20 :: (p.name ++ (0x3A :: p.type ++
          (ps.map key).flatMap fun u => [0x7C] ++ u))) := by simpa using h
      obtain ⟨-, rfl⟩ := tells_plain hword (by decide) hx (delimited_cons (by decide) _) hmark
      exact .inl rfl
    | false =>
      rw [hflag] at h
      have hwords : word ++ x = p.name ++
          (0x3A :: (p.type ++ (ps.map key).flatMap fun u => [0x7C] ++ u)) := by
        simpa using h
      obtain ⟨-, rfl⟩ := tells_plain hword hname hx (delimited_cons (by decide) _) hwords
      refine .inr ⟨p.type, _, htype, rfl, ?_⟩
      cases ps with
      | nil => exact .inl rfl
      | cons q ps => exact .inr rfl

/-! ## Methods -/

/-- What follows a method: another one, or the end of the list. -/
def Method.Followed (x : Text) : Prop := x.head? = some 0x7C ∨ Property.Listed x

/-- A method's key is followed by a bar or a colon. -/
theorem Method.Followed.head? {x : Text} (h : Followed x) :
    x.head? = some 0x7C ∨ x.head? = some 0x3A := by
  rcases h with h | ⟨ps, -, rfl⟩
  · exact .inl h
  · exact .inr rfl

/-- What follows a method's key is delimited. -/
theorem Method.Followed.delimited {x : Text} (h : Followed x) : Delimited x := by
  rcases h.head? with h | h
  · exact delimited_of_head? (by decide) h
  · exact delimited_of_head? (by decide) h

/-- A returned type is not taken for properties: there a name is followed by one colon, and a type
by none. -/
theorem Method.not_followed_returns {o : Option Text} (ho : o.all Text.isPlain = true) {x : Text}
    (hx : Followed x) :
    ¬Followed (0x3A :: (o.getD [] ++ x)) := by
  rintro (h | ⟨ps, hps, h⟩)
  · cases h
  · have hlist : o.getD [] ++ x = join [0x7C] (ps.map Property.key) := List.tail_eq_of_cons_eq h
    cases o with
    | none =>
      -- Nothing is returned, and a list of properties does not start with a delimiter.
      rw [Option.getD_none, List.nil_append] at hlist
      cases ps with
      | nil =>
        rw [hlist] at hx
        rcases hx.head? with hx | hx <;> cases hx
      | cons p ps =>
        rw [List.map_cons, join_cons] at hlist
        exact Property.not_delimited_key (hps p List.mem_cons_self) _ (hlist ▸ hx.delimited)
    | some word =>
      rcases Property.word_of_list hps ho hx.delimited hlist with
        hspace | ⟨type, more, htype, rfl, hmore⟩
      · rcases hx.head? with hx | hx <;> rw [hspace] at hx <;> cases hx
      · -- Behind the colon comes a type where the name of a property should be.
        have hdelimited : Delimited more := by
          rcases hmore with rfl | hmore
          · exact delimited_nil
          · exact delimited_of_head? (by decide) hmore
        rcases hx with hx | ⟨qs, hqs, hx⟩
        · cases hx
        · rcases Property.word_of_list hqs htype hdelimited (List.tail_eq_of_cons_eq hx) with
            hspace | ⟨t, m, -, rfl, -⟩
          · rcases hmore with rfl | hmore
            · cases hspace
            · rw [hspace] at hmore
              cases hmore
          · rcases hmore with hmore | hmore <;> cases hmore

/-- What is written behind the parameters tells a function from a procedure. -/
theorem Method.tells_returns :
    Tells (fun m : Method => m.returns.all Text.isPlain = true) Followed
      (fun m => if m.isFunction = true then 0x3A :: m.returns.getD [] else [])
      fun m => if m.isFunction then some m.returns else none := by
  intro m m' x y hm hm' hx hy h
  dsimp only at h ⊢
  cases hfun : m.isFunction with
  | false =>
    cases hfun' : m'.isFunction with
    | false =>
      rw [hfun, hfun'] at h
      exact ⟨rfl, h⟩
    | true =>
      rw [hfun, hfun'] at h
      have hreturned : x = 0x3A :: (m'.returns.getD [] ++ y) := h
      exact absurd (hreturned ▸ hx) (not_followed_returns hm' hy)
  | true =>
    cases hfun' : m'.isFunction with
    | false =>
      rw [hfun, hfun'] at h
      have hreturned : 0x3A :: (m.returns.getD [] ++ x) = y := h
      exact absurd (hreturned ▸ hy) (not_followed_returns hm hx)
    | true =>
      rw [hfun, hfun'] at h
      obtain ⟨hreturns, hxy⟩ :=
        tells_optional hm hm' hx.delimited hy.delimited (List.tail_eq_of_cons_eq h)
      exact ⟨congrArg some hreturns, hxy⟩

/-- The key of a method in three parts: its name, its parameters, its result. -/
theorem Method.key_eq (m : Method) :
    m.key = m.name ++ (([0x28] ++ join [0x2C] (m.params.map MethodParam.key)) ++
      ([0x29] ++ if m.isFunction = true then 0x3A :: m.returns.getD [] else [])) := by
  unfold key
  cases m.isFunction <;> simp <;> rfl

/-- The key of a parameter starts with a name or with the word in front of it. -/
theorem MethodParam.not_delimited_key {p : MethodParam} (hp : p.isPlain = true) (x : Text) :
    ¬Delimited (p.key ++ x) := by
  rw [key_eq, List.append_assoc]
  exact not_delimited_marked (by decide) (isPlain_iff.1 hp).1 _

/-- The keys of plain parameters, joined by commas, tell all of them up to the closing parenthesis.
-/
theorem MethodParam.tells_list :
    Tells (fun ps : List MethodParam => ∀ p ∈ ps, p.isPlain = true) (fun x => x.head? = some 0x29)
      (fun ps => join [0x2C] (ps.map key)) fun ps => ps := by
  refine (tells_key.joinDelimited (by decide) (fun p x hp => not_delimited_key hp x) ?_).congr
    (fun _ h => h) (fun _ => rfl) fun _ _ h => by simpa using h
  intro x hx
  exact ⟨delimited_of_head? (by decide) hx, by rw [hx]; decide⟩

/-- The key of a plain method tells its outline. -/
theorem Method.tells_key : Tells (fun m => isPlain m = true) Followed key outline := by
  have hparams := (MethodParam.tells_list.behindText [0x28]).comap Method.params
  have hrest := hparams.append (tells_returns.behindText [0x29]) fun _ _ _ _ => rfl
  have hall := (tells_plain.comap Method.name).append hrest fun _ _ _ _ =>
    delimited_cons (by decide) _
  exact hall.congr (fun _ hm => isPlain_iff.1 hm) key_eq fun _ _ h => h

/-- Methods in front of the properties. -/
theorem Method.tells_list :
    Tells (fun ms : List Method => ∀ m ∈ ms, m.isPlain = true) Property.Listed
      (fun ms => join [0x7C] (ms.map key)) (List.map outline) := by
  refine Tells.join tells_key ?_ ?_
  · rintro x ⟨ps, -, rfl⟩
    simp
  · rintro m x hm ⟨ps, -, hcolon⟩
    have hnot := not_delimited_append (isPlain_iff.1 hm).1
      (([0x28] ++ join [0x2C] (m.params.map MethodParam.key)) ++
      ([0x29] ++ if m.isFunction = true then 0x3A :: m.returns.getD [] else []) ++ x)
    rw [← List.append_assoc, ← key_eq, hcolon] at hnot
    exact hnot (delimited_cons (by decide) _)

/-! ## Attributes and tables -/

/-- The key of a plain attribute tells its outline. -/
theorem Attribute.tells_key : Tells (fun a => isPlain a = true) Delimited key outline := by
  have htype := (tells_plain.behindText [0x3A]).comap Attribute.type
  have hall := (tells_plain.comap Attribute.name).append htype fun _ _ _ _ =>
    delimited_cons (by decide) _
  exact hall.congr (fun _ ha => isPlain_iff.1 ha) (fun a => List.append_assoc _ _ _) fun _ _ h => h

/-- Attributes in front of the colon or the bracket that ends their list. -/
theorem Attribute.tells_list {last : CodeUnit} (hlast : last ∈ delimiters) (hne : last ≠ 0x7C) :
    Tells (fun as : List Attribute => ∀ a ∈ as, a.isPlain = true) (fun x => x.head? = some last)
      (fun as => join [0x7C] (as.map key)) (List.map outline) := by
  refine tells_key.joinDelimited (by decide) ?_ ?_
  · intro a x ha
    unfold key
    rw [List.append_assoc, List.append_assoc]
    exact not_delimited_append (isPlain_iff.1 ha).1 _
  · intro x hx
    rw [hx]
    exact ⟨delimited_of_head? hlast hx, by simpa using hne⟩

/-- The key of a tabular section in its parts: its name, and its attributes in brackets. -/
theorem TabularSection.key_eq (s : TabularSection) :
    s.key = s.name ++ (([0x5B] ++ join [0x7C] (s.attributes.map Attribute.key)) ++ [0x5D]) := by
  unfold key
  simp
  rfl

/-- The key of a plain tabular section tells its outline. -/
theorem TabularSection.tells_key : Tells (fun s => isPlain s = true) Delimited key outline := by
  have hlist := Attribute.tells_list (show 0x5D ∈ delimiters by decide) (by decide)
  have hattributes := (hlist.behindText [0x5B]).comap TabularSection.attributes
  have hrest := hattributes.append (tells_text Delimited [0x5D]) fun _ _ _ _ => rfl
  have hall := (tells_plain.comap TabularSection.name).append hrest fun _ _ _ _ =>
    delimited_cons (by decide) _
  refine hall.congr ?_ key_eq ?_
  · intro s hs
    obtain ⟨hname, hattributes⟩ := isPlain_iff.1 hs
    exact ⟨hname, hattributes, trivial⟩
  · intro s s' h
    simpa [outline] using h

/-- The keys of plain tabular sections, joined by bars, tell all outlines. -/
theorem TabularSection.tells_list :
    Tells (fun ss : List TabularSection => ∀ s ∈ ss, s.isPlain = true) (fun x => x = [])
      (fun ss => join [0x7C] (ss.map key)) (List.map outline) := by
  refine tells_key.joinDelimited (by decide) ?_ ?_
  · intro s x hs
    rw [key_eq, List.append_assoc]
    exact not_delimited_append (isPlain_iff.1 hs).1 _
  · rintro x rfl
    exact ⟨delimited_nil, by simp⟩

/-! ## Parameters of global functions -/

/-- The key of a parameter of a function is its name, with a mark behind it if the parameter is
optional. -/
theorem GlobalParam.key_eq (p : GlobalParam ω) :
    p.key = p.name ++ if p.optional = true then [0x3F] else [] := by
  unfold key
  cases p.optional <;> rfl

/-- The key of a plain parameter of a function tells its outline. -/
theorem GlobalParam.tells_key :
    Tells (fun p : GlobalParam ω => p.isPlain = true)
      (fun x => Delimited x ∧ x.head? ≠ some 0x3F) key outline := by
  have hflag := ((tells_flag 0x3F).comap fun p : GlobalParam ω => p.optional).mono
    fun x (hx : Delimited x ∧ x.head? ≠ some 0x3F) => hx.2
  have hall := (tells_plain.comap fun p : GlobalParam ω => p.name).append hflag ?_
  · exact hall.congr (fun p hp => ⟨hp, trivial⟩) key_eq fun _ _ h => h
  · intro p x _ hx
    cases p.optional with
    | false => exact hx.1
    | true => exact delimited_cons (by decide) _

/-- The keys of plain parameters of a function, joined by commas, tell all outlines up to the colon.
-/
theorem GlobalParam.tells_list :
    Tells (fun ps : List (GlobalParam ω) => ∀ p ∈ ps, p.isPlain = true)
      (fun x => x.head? = some 0x3A) (fun ps => join [0x2C] (ps.map key)) (List.map outline) := by
  have hitem := (tells_key (ω := ω)).mono fun x (hx : x.head? = some 0x2C ∨ x.head? = some 0x3A) =>
    ?_
  · refine hitem.join ?_ ?_
    · intro x hx
      rw [hx]
      decide
    · intro p x hp hx
      rw [key_eq, List.append_assoc] at hx
      exact not_delimited_append hp _ (delimited_of_head? (by decide) hx)
  · rcases hx with hx | hx
    · exact ⟨delimited_of_head? (by decide) hx, by rw [hx]; decide⟩
    · exact ⟨delimited_of_head? (by decide) hx, by rw [hx]; decide⟩

/-! ## Types -/

/-- Special types have different names. -/
theorem Special.name_injective : Function.Injective Special.name := by
  have hread : Special.ofName? ∘ Special.name = some := by
    funext s
    cases s <;> rfl
  apply Function.Injective.of_comp (f := Special.ofName?)
  rw [hread]
  exact Option.some_injective _

/-- No two kinds of configuration objects have one name. -/
theorem MetadataKind.name_injective : Function.Injective MetadataKind.name := by
  have hread : MetadataKind.ofName? ∘ MetadataKind.name = some := by
    funext k
    cases k <;> rfl
  apply Function.Injective.of_comp (f := MetadataKind.ofName?)
  rw [hread]
  exact Option.some_injective _

/-- The name of a kind is plain. -/
theorem MetadataKind.isPlain_name (k : MetadataKind) : Text.isPlain k.name = true := by
  cases k <;> decide

namespace Concrete

/-- The key of a platform type tells its name, its methods and its properties. -/
theorem tells_platform :
    Tells (fun t : Text × List Method × List Property =>
        (platform (ω := ω) t.1 t.2.1 t.2.2).isPlain = true) (fun x => x = [])
      (fun t => (platform (ω := ω) t.1 t.2.1 t.2.2).key) fun t =>
        (t.1, t.2.1.map Method.outline, t.2.2) := by
  have hproperties := (Property.tells_list.behindText [0x3A]).comap fun t : Text × List
    Method × List Property => t.2.2
  have hmethods := (Method.tells_list.behindText [0x3A]).comap fun t : Text × List Method × List
    Property => t.2.1
  have hrest := hmethods.append hproperties fun t x ht hx =>
    ⟨t.2.2, ht, by rw [hx, List.append_nil]; rfl⟩
  have hname := tells_plain.comap fun t : Text × List Method × List Property => t.1
  have hall := hname.append hrest fun _ _ _ _ => delimited_cons (by decide) _
  refine (hall.behindText "platform:").congr ?_ ?_ fun _ _ h => h
  · intro t ht
    unfold isPlain at ht
    rw [Bool.and_eq_true, Bool.and_eq_true, List.all_eq_true, List.all_eq_true] at ht
    exact ⟨ht.1.1, ht.1.2, ht.2⟩
  · intro t
    unfold key
    simp
    rfl

/-- The key of a configuration type tells its kind, its name, its attributes and its tables. -/
theorem tells_configuration :
    Tells (fun t : MetadataKind × Text × List Attribute × List TabularSection =>
        (configuration (ω := ω) t.1 t.2.1 t.2.2.1 t.2.2.2).isPlain = true) (fun x => x = [])
      (fun t => (configuration (ω := ω) t.1 t.2.1 t.2.2.1 t.2.2.2).key)
      fun t => (t.1, t.2.1, t.2.2.1.map Attribute.outline, t.2.2.2.map TabularSection.outline) := by
  have hsections := (TabularSection.tells_list.behindText [0x3A]).comap
    fun t : MetadataKind × Text × List Attribute × List TabularSection => t.2.2.2
  have hlist := Attribute.tells_list (show 0x3A ∈ delimiters by decide) (by decide)
  have hattributes := (hlist.behindText [0x3A]).comap
    fun t : MetadataKind × Text × List Attribute × List TabularSection => t.2.2.1
  have hrest := hattributes.append hsections fun _ _ _ _ => rfl
  have hname := (tells_plain.behindText [0x3A]).comap
    fun t : MetadataKind × Text × List Attribute × List TabularSection => t.2.1
  have hnamed := hname.append hrest fun _ _ _ _ => delimited_cons (by decide) _
  have hkind := tells_plain.comap fun t : MetadataKind × Text × List Attribute × List
    TabularSection => t.1.name
  have hall := hkind.append hnamed fun _ _ _ _ => delimited_cons (by decide) _
  refine (hall.behindText "config:").congr ?_ ?_ ?_
  · intro t ht
    unfold isPlain at ht
    rw [Bool.and_eq_true, Bool.and_eq_true, List.all_eq_true, List.all_eq_true] at ht
    exact ⟨t.1.isPlain_name, ht.1.1, ht.1.2, ht.2⟩
  · intro t
    unfold key
    simp
    rfl
  · intro t u h
    obtain ⟨hkind, hrest⟩ := Prod.mk.inj h
    exact Prod.ext (MetadataKind.name_injective hkind) hrest

/-- The key of a global function tells both names, its parameters and whether it is polymorphic. -/
theorem tells_function :
    Tells (fun f : GlobalFunction ω => (function f).isPlain = true) (fun x => x = [])
      (fun f => (function f).key)
      fun f => (f.name, f.englishName, f.params.map GlobalParam.outline, f.polymorphic) := by
  have hpoly : Tells (fun _ => True) (fun x => x = [])
      (fun b : Bool => [0x3A] ++ ofString (if b = true then "poly" else "mono")) fun b => b := by
    rintro b b' x y - - rfl rfl h
    cases b <;> cases b'
    · exact ⟨rfl, rfl⟩
    · exact absurd h (by decide)
    · exact absurd h (by decide)
    · exact ⟨rfl, rfl⟩
  have hparams := ((GlobalParam.tells_list (ω := ω)).behindText [0x3A]).comap
    fun f : GlobalFunction ω => f.params
  have hrest := hparams.append (hpoly.comap fun f : GlobalFunction ω => f.polymorphic)
    fun _ _ _ _ => rfl
  have henglish := (tells_plain.behindText [0x2F]).comap fun f : GlobalFunction ω => f.englishName
  have hnamed := henglish.append hrest fun _ _ _ _ => delimited_cons (by decide) _
  have hname := tells_plain.comap fun f : GlobalFunction ω => f.name
  have hall := hname.append hnamed fun _ _ _ _ => delimited_cons (by decide) _
  refine (hall.behindText "fn:").congr ?_ ?_ fun _ _ h => h
  · intro f hf
    unfold isPlain at hf
    rw [Bool.and_eq_true, Bool.and_eq_true, List.all_eq_true] at hf
    exact ⟨hf.1.1, hf.1.2, hf.2, trivial⟩
  · intro f
    unfold key
    simp
    rfl

/-- Plain types with one key agree. -/
theorem agrees_of_key {a b : Concrete ω} (ha : a.isPlain = true) (hb : b.isPlain = true)
    (h : a.key = b.key) : a.Agrees b := by
  have hmark : a.mark = b.mark := by rw [← take_key, ← take_key, h]
  have happend : a.key ++ [] = b.key ++ [] := by rw [h]
  cases a with
  | platform name methods properties =>
    cases b with
    | platform name' methods' properties' =>
      have htell := tells_platform (a := (name, methods, properties))
        (b := (name', methods', properties')) ha hb rfl rfl
        happend
      simpa [Agrees] using htell.1
    | _ => simp [mark] at hmark
  | configuration kind name attributes sections =>
    cases b with
    | configuration kind' name' attributes' sections' =>
      have htell := tells_configuration (a := (kind, name, attributes, sections))
        (b := (kind', name', attributes', sections')) ha hb rfl rfl happend
      simpa [Agrees] using htell.1
    | _ => simp [mark] at hmark
  | primitive p =>
    cases b with
    | primitive q => exact Primitive.name_injective (List.append_cancel_left h)
    | _ => simp [mark] at hmark
  | special s =>
    cases b with
    | special t => exact Special.name_injective (List.append_cancel_left h)
    | _ => simp [mark] at hmark
  | function f =>
    cases b with
    | function g =>
      have htell := tells_function ha hb rfl rfl happend
      simpa [Agrees] using htell.1
    | _ => simp [mark] at hmark

end Concrete

/-! ## Keys of what agrees -/

/-- Lists that agree in what decides a function agree in the function. -/
theorem map_eq_of_outlines {α β γ : Type} {f : α → γ} {g : α → β} (h : ∀ a b, g a = g b → f a = f b)
    {as bs : List α} (hab : as.map g = bs.map g) : as.map f = bs.map f := by
  induction as generalizing bs with
  | nil =>
    cases bs with
    | nil => rfl
    | cons b bs => cases hab
  | cons a as ih =>
    cases bs with
    | nil => cases hab
    | cons b bs =>
      obtain ⟨hhead, htail⟩ := List.cons.inj hab
      rw [List.map_cons, List.map_cons, h a b hhead, ih htail]

/-- The key of a method depends on its outline only. -/
theorem Method.key_of_outline (m m' : Method) (h : m.outline = m'.outline) : m.key = m'.key := by
  unfold outline at h
  simp only [Prod.mk.injEq] at h
  obtain ⟨hname, hparams, hreturns⟩ := h
  unfold key
  rw [hname, hparams]
  cases hfun : m.isFunction <;> cases hfun' : m'.isFunction <;> simp_all

/-- The key of an attribute depends on its outline only. -/
theorem Attribute.key_of_outline (a a' : Attribute) (h : a.outline = a'.outline) :
    a.key = a'.key := by
  unfold outline at h
  simp only [Prod.mk.injEq] at h
  unfold key
  rw [h.1, h.2]

/-- The key of a tabular section depends on its outline only. -/
theorem TabularSection.key_of_outline (s s' : TabularSection) (h : s.outline = s'.outline) :
    s.key = s'.key := by
  unfold outline at h
  simp only [Prod.mk.injEq] at h
  unfold key
  rw [h.1, map_eq_of_outlines Attribute.key_of_outline h.2]

/-- The key of a parameter of a function depends on its outline only. -/
theorem GlobalParam.key_of_outline (p p' : GlobalParam ω) (h : p.outline = p'.outline) :
    p.key = p'.key := by
  unfold outline at h
  simp only [Prod.mk.injEq] at h
  unfold key
  rw [h.1, h.2]

namespace Concrete

/-- Types that agree have one key. -/
theorem Agrees.key_eq {a b : Concrete ω} (h : a.Agrees b) : a.key = b.key := by
  cases a with
  | platform name methods properties =>
    cases b with
    | platform name' methods' properties' =>
      obtain ⟨rfl, hmethods, rfl⟩ := h
      rw [key, key, map_eq_of_outlines Method.key_of_outline hmethods]
    | _ => exact h.elim
  | configuration kind name attributes sections =>
    cases b with
    | configuration kind' name' attributes' sections' =>
      obtain ⟨rfl, rfl, hattributes, hsections⟩ := h
      rw [key, key, map_eq_of_outlines Attribute.key_of_outline hattributes,
        map_eq_of_outlines TabularSection.key_of_outline hsections]
    | _ => exact h.elim
  | primitive p =>
    cases b with
    | primitive q =>
      cases h
      rfl
    | _ => exact h.elim
  | special s =>
    cases b with
    | special t =>
      cases h
      rfl
    | _ => exact h.elim
  | function f =>
    cases b with
    | function g =>
      obtain ⟨hname, henglish, hparams, hpoly⟩ := h
      rw [key, key, hname, henglish, hpoly, map_eq_of_outlines GlobalParam.key_of_outline hparams]
    | _ => exact h.elim

/-- **Equality of structure is exact.** Where no name and no type that is present is empty or holds
a delimiter, two types have the same structure exactly if they are of one kind and agree in all that
is compared. -/
theorem same_iff_agrees {a b : Concrete ω} (ha : a.isPlain = true) (hb : b.isPlain = true) :
    a.same b = true ↔ a.Agrees b := by
  unfold same
  rw [beq_iff_eq]
  exact ⟨agrees_of_key ha hb, Agrees.key_eq⟩

/-- A function that returns `T` and a procedure with a property `T` behind it: up to the colon
behind `T` the keys are the same. -/
theorem same_iff_agrees_returns :
    let method (isFunction : Bool) : Method :=
      ⟨[0x6D], [⟨[0x70], none, true, true⟩], some [0x54], isFunction⟩
    let a : Concrete ℚ := .platform [0x4E] [method true] []
    let b : Concrete ℚ := .platform [0x4E] [method false] [⟨[0x54], [0x55], false⟩]
    a.isPlain = true ∧ b.isPlain = true ∧ b.key = a.key ++ [0x55] ∧
      (a.same b = true ↔ a.Agrees b) :=
  ⟨by decide, by decide, by decide, same_iff_agrees (by decide) (by decide)⟩

end Concrete

end Gradual
