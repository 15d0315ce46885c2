import Mathlib.Algebra.Order.Field.Rat
import Mathlib.Tactic.Linarith
import Gradual.Command.Config
import Gradual.Proofs.Command.CommandLine
import Gradual.Proofs.Listing
import Gradual.Proofs.Syntax.Stream

/-!
# Checked configurations

A JSON value is a configuration if it is an object, its fields have values of their kinds as far as
they are there, and every routine of another module is declared by an object with a natural number
of parameters. Otherwise the first fault is reported, in the order of the fields and, among the
routines, in listing order. What is accepted can be written as a JSON value again, which is accepted
as the same configuration.

What a configuration has to meet is said by `FieldFault.Absent`, without the functions that read
fields. Main statement: `Config.ofJson_exact`.
-/

namespace Gradual

/-! ## Natural numbers -/

namespace Decimal

theorem twoTo_pos (n : Nat) : 0 < twoTo n := Nat.two_pow_pos n

/-- The exact value of a finite double. -/
def toRat (x : Float) : ℚ :=
  (if isNegative x then -1 else 1) * ((mantissa x * twoTo (scale x) : ℕ) : ℚ) /
    ((twoTo 1075 : ℕ) : ℚ)

/-- A quotient of naturals is a natural exactly when the division leaves nothing over. -/
theorem cast_div_eq_iff {a d n : ℕ} (hd : 0 < d) :
    (a : ℚ) / (d : ℚ) = n ↔ a % d = 0 ∧ a / d = n := by
  rw [div_eq_iff (by exact_mod_cast hd.ne')]
  norm_cast
  constructor
  · rintro rfl
    exact ⟨Nat.mul_mod_left n d, Nat.mul_div_cancel n hd⟩
  · rintro ⟨hmod, rfl⟩
    exact (Nat.div_mul_cancel (Nat.dvd_of_mod_eq_zero hmod)).symm

/-- Below zero there is no natural number. -/
theorem neg_cast_div_eq_iff {a d n : ℕ} (hd : 0 < d) :
    -((a : ℚ) / (d : ℚ)) = n ↔ a = 0 ∧ n = 0 := by
  have hd' : (0 : ℚ) < d := by exact_mod_cast hd
  have ha : (0 : ℚ) ≤ a / d := div_nonneg (Nat.cast_nonneg a) hd'.le
  have hn : (0 : ℚ) ≤ n := Nat.cast_nonneg n
  constructor
  · intro h
    have ha' : (a : ℚ) / d = 0 := by linarith
    rw [div_eq_zero_iff] at ha'
    refine ⟨?_, ?_⟩
    · rcases ha' with ha' | ha'
      · exact_mod_cast ha'
      · exact absurd ha' hd'.ne'
    · have hn' : (n : ℚ) = 0 := by linarith
      exact_mod_cast hn'
  · rintro ⟨rfl, rfl⟩
    simp

/-- A double is the natural number that it is equal to. -/
theorem natural?_eq_some_iff {x : Float} {n : ℕ} :
    natural? x = some n ↔ isFinite x = true ∧ toRat x = n := by
  have hscale := twoTo_pos (scale x)
  have hunit := twoTo_pos 1075
  unfold natural? toRat
  dsimp only
  generalize twoTo 1075 = d at hunit ⊢
  generalize twoTo (scale x) = e at hscale ⊢
  simp only [Option.ite_none_right_eq_some, Option.some.injEq, Bool.and_eq_true,
    beq_iff_eq, and_assoc]
  refine and_congr_right fun _ => ?_
  cases isNegative x with
  | false =>
    rw [if_neg Bool.false_ne_true, one_mul, cast_div_eq_iff hunit]
    simp
  | true =>
    rw [if_pos rfl, neg_one_mul, neg_div, neg_cast_div_eq_iff hunit, Nat.mul_eq_zero]
    have he : e ≠ 0 := hscale.ne'
    constructor
    · rintro ⟨-, hm, hn⟩
      have hm : mantissa x = 0 := by simpa using hm
      rw [hm, Nat.zero_mul, Nat.zero_div] at hn
      exact ⟨.inl hm, hn.symm⟩
    · rintro ⟨hm | hm, rfl⟩
      · simp [hm]
      · exact absurd hm he

end Decimal

/-! ## Objects -/

/-- A table is its list of entries. -/
theorem Table.eq_of_entries {κ ν : Type} {t u : Table κ ν} (h : t.entries = u.entries) : t = u := by
  cases t
  cases u
  cases h
  rfl

/-- A key that no entry carries has no value. -/
theorem Table.valueAt_eq_none {ν : Type} {es : List (Text × ν)} {k : Text}
    (hnodup : (es.map Prod.fst).Nodup) (h : k ∉ es.map Prod.fst) : valueAt k es = none := by
  rw [Option.eq_none_iff_forall_ne_some]
  intro v hv
  exact h (List.mem_map.2 ⟨_, (valueAt_eq_some_iff hnodup k v).1 hv, rfl⟩)

namespace Json

/-- The value of a field, if there is an object that has it. -/
def get? : Json → Text → Option Json
  | .object fields, name => field? fields name
  | _, _ => none

/-- The object of the fields that are there. -/
def ofFields (fields : List (Text × Option Json)) : Json :=
  .object (fields.filterMap fun e => e.2.map fun value => (e.1, value))

/-- A field of an object is found under its name, where no name is written twice. -/
theorem get?_object {entries : List (Text × Json)} (h : (entries.map Prod.fst).Nodup)
    (name : Text) :
    (object entries).get? name = Table.valueAt name entries := by
  rw [get?, field?, Table.get?, Table.entries_ofList h]

/-- The names of the written fields are some of all the names, in their order. -/
theorem map_fst_ofFields (fields : List (Text × Option Json)) :
    ((fields.filterMap fun e => e.2.map fun value => (e.1, value)).map Prod.fst).Sublist
      (fields.map Prod.fst) := by
  induction fields with
  | nil => exact .slnil
  | cons e fields ih =>
    obtain ⟨name, value⟩ := e
    cases value with
    | none => exact ih.cons _
    | some v => exact ih.cons_cons _

/-- A field of a written object is what was given for it; one given as absent is not there. -/
theorem get?_ofFields {fields : List (Text × Option Json)} (h : (fields.map Prod.fst).Nodup)
    (name : Text) :
    (ofFields fields).get? name = (Table.valueAt name fields).join := by
  rw [ofFields, get?_object ((map_fst_ofFields fields).nodup h)]
  induction fields with
  | nil => rfl
  | cons e fields ih =>
    obtain ⟨key, value⟩ := e
    obtain ⟨hnot, hnodup⟩ := List.nodup_cons.1 h
    by_cases hkey : key = name
    · subst hkey
      cases value with
      | some v => simp [Table.valueAt]
      | none =>
        have hsublist := map_fst_ofFields fields
        have hrest :
            key ∉ (fields.filterMap fun e => e.2.map fun value => (e.1, value)).map Prod.fst :=
          fun hmem => hnot (hsublist.subset hmem)
        simpa [Table.valueAt] using Table.valueAt_eq_none (hsublist.nodup hnodup) hrest
    · cases value with
      | none => simpa [Table.valueAt, hkey] using ih hnodup
      | some v => simpa [Table.valueAt, hkey] using ih hnodup

end Json

/-! ## Kinds of values -/

namespace Config

/-- Values of a kind are read from what they are written as, and from nothing else. -/
def Reads {α : Type} (read : Json → Option α) (write : α → Json) : Prop :=
  ∀ v a, read v = some a ↔ v = write a

/-- A text is read from a string and from nothing else. -/
theorem reads_text : Reads text? .string := by
  intro v t
  cases v <;> simp [text?]

/-- A truth value is read from a boolean and from nothing else. -/
theorem reads_boolean : Reads boolean? .boolean := by
  intro v b
  cases v <;> simp [boolean?]

/-- Fields are read from an object and from nothing else. -/
theorem reads_fields : Reads fields? .object := by
  intro v es
  cases v <;> simp [fields?]

/-- A severity is read from the string that names it. -/
theorem reads_severity : Reads severity? fun s => .string s.name := by
  intro v s
  cases v <;> simp [severity?, text?, Severity.ofName?_eq_some_iff]

/-- A format is read from the string that names it. -/
theorem reads_format : Reads format? fun f => .string f.name := by
  intro v f
  cases v <;> simp [format?, text?, OutputFormat.ofName?_eq_some_iff]

/-- A count is read from a number, and only from one that is whole and not negative. -/
theorem reads_count : Reads count? fun n => .number n.value := by
  intro v n
  cases v with
  | number x =>
    rw [count?, Count.ofFloat?]
    constructor
    · intro h
      split at h
      · rw [← Option.some.inj h]
      · exact absurd h (Option.some_ne_none n).symm
    · intro h
      obtain rfl := Json.number.inj h
      rw [dif_pos n.isNatural]
  | _ => simp [count?]

section

variable {α : Type} {read : Json → Option α} {write : α → Json}

/-- A field that may be left out is read as what it was written from. -/
theorem Reads.optional_eq_some_iff (h : Reads read write) {o : Option Json} {a : Option α} :
    optional read o = some a ↔ o = a.map write := by
  cases o with
  | none => cases a <;> simp [optional]
  | some v => cases a <;> simp [optional, h v]

/-- A field that may be left out is of no use if it is there and is not of its kind. -/
theorem Reads.optional_eq_none_iff (h : Reads read write) {o : Option Json} :
    optional read o = none ↔ ¬∀ v, o = some v → ∃ a, v = write a := by
  cases o with
  | none => simp [optional]
  | some v => simp [optional, Option.eq_none_iff_forall_ne_some, h v]

end

/-! ## Routines of other modules -/

end Config

/-- Whether a value declares a routine: an object with a natural number of parameters which, if it
says whether the routine is exported, says so by a boolean. -/
structure Json.DeclaresRoutine (j : Json) : Prop where
  params : ∃ x, j.get? "params" = some (.number x) ∧ Decimal.isFinite x = true ∧
    ∃ n : ℕ, Decimal.toRat x = n
  exported : ∀ v, j.get? "exported" = some v → ∃ b, v = .boolean b

namespace Config

/-- An external routine is read exactly where its count of parameters is one and its flag, if there,
is a boolean. -/
theorem externalFunction?_eq_some_iff {j : Json} {f : ExternalFunction} :
    externalFunction? j = some f ↔
      j.get? "params" = some (.number f.params.value) ∧
        j.get? "exported" = f.exported.map .boolean := by
  cases j with
  | object fields =>
    have hparams : ∀ n : Count, (Json.field? fields "params").bind count? = some n ↔
        Json.field? fields "params" = some (.number n.value) := by
      intro n
      cases Json.field? fields "params" with
      | none => simp
      | some v => simpa using reads_count v n
    unfold externalFunction?
    simp only [fields?, bind, Option.bind_some, Json.get?]
    constructor
    · intro h
      obtain ⟨params, hp, h⟩ := Option.bind_eq_some_iff.1 h
      obtain ⟨exported, he, h⟩ := Option.bind_eq_some_iff.1 h
      cases h
      exact ⟨(hparams _).1 hp, reads_boolean.optional_eq_some_iff.1 he⟩
    · rintro ⟨hp, he⟩
      rw [(hparams f.params).2 hp, Option.bind_some, reads_boolean.optional_eq_some_iff.2 he]
      rfl
  | _ => simp [externalFunction?, fields?, Json.get?]

/-- A routine is read from what declares one. -/
theorem exists_externalFunction?_iff {j : Json} :
    (∃ f, externalFunction? j = some f) ↔ j.DeclaresRoutine := by
  simp only [externalFunction?_eq_some_iff]
  constructor
  · rintro ⟨f, hparams, hexported⟩
    obtain ⟨n, hn⟩ := Option.isSome_iff_exists.1 f.params.isNatural
    obtain ⟨hfinite, hvalue⟩ := Decimal.natural?_eq_some_iff.1 hn
    refine ⟨⟨_, hparams, hfinite, n, hvalue⟩, fun v hv => ?_⟩
    rw [hexported] at hv
    obtain ⟨b, -, rfl⟩ := Option.map_eq_some_iff.1 hv
    exact ⟨b, rfl⟩
  · rintro ⟨⟨x, hparams, hfinite, n, hvalue⟩, hexported⟩
    have hnatural : (Decimal.natural? x).isSome := by
      rw [Decimal.natural?_eq_some_iff.2 ⟨hfinite, hvalue⟩]; rfl
    cases he : j.get? "exported" with
    | none => exact ⟨⟨⟨x, hnatural⟩, none⟩, hparams, rfl⟩
    | some v =>
      obtain ⟨b, rfl⟩ := hexported v he
      exact ⟨⟨⟨x, hnatural⟩, some b⟩, hparams, rfl⟩

/-- Routines are read one for one. -/
theorem externals_eq_ok_iff {entries : List (Text × Json)} {fs : List (Text × ExternalFunction)} :
    externals entries = .ok fs ↔
      List.Forall₂ (fun e d => d.1 = e.1 ∧ externalFunction? e.2 = some d.2) entries fs := by
  induction entries generalizing fs with
  | nil =>
    rw [externals, List.forall₂_nil_left_iff]
    exact ⟨fun h => by cases h; rfl, fun h => by rw [h]⟩
  | cons e entries ih =>
    obtain ⟨name, j⟩ := e
    rw [externals]
    cases hf : externalFunction? j with
    | none =>
      constructor
      · intro h
        cases h
      · rintro (_ | ⟨⟨-, h⟩, -⟩)
        rw [hf] at h
        cases h
    | some f =>
      dsimp only
      rw [bind_eq_ok]
      constructor
      · rintro ⟨fs', hfs', h⟩
        cases h
        exact .cons ⟨rfl, hf⟩ (ih.1 hfs')
      · rintro (_ | @⟨_, ⟨name', f'⟩, _, fs', ⟨hname, hf'⟩, hfs'⟩)
        cases hname
        rw [hf] at hf'
        cases hf'
        exact ⟨fs', ih.2 hfs', rfl⟩

/-! ## Faults -/

end Config

/-- What a value has to meet so that a fault is absent. Each fault is about one field, which may be
left out, or about one entry of a field. -/
def FieldFault.Absent (j : Json) : FieldFault → Prop
  | notObject => ∃ fields, j = .object fields
  | sourceRoot => ∀ v, j.get? "sourceRoot" = some v → ∃ t, v = .string t
  | minSeverity => ∀ v, j.get? "minSeverity" = some v → ∃ s : Severity, v = .string s.name
  | format => ∀ v, j.get? "format" = some v → ∃ f : OutputFormat, v = .string f.name
  | showTypes => ∀ v, j.get? "showTypes" = some v → ∃ b, v = .boolean b
  | externalFunctions => ∀ v, j.get? "externalFunctions" = some v → ∃ entries, v = .object entries
  | externalFunction name => ∀ entries v, j.get? "externalFunctions" = some (.object entries) →
      Json.field? entries name = some v → v.DeclaresRoutine

namespace Config

/-- The entries of the routines of other modules in listing order. -/
def externalEntries (j : Json) : List (Text × Json) :=
  match j.get? "externalFunctions" with
  | some (.object entries) => Json.members entries
  | _ => []

/-- The faults that a value can have, in the order in which they are looked for. -/
def checks (j : Json) : List FieldFault :=
  [.notObject, .sourceRoot, .minSeverity, .format, .showTypes, .externalFunctions] ++
    (externalEntries j).map fun e => .externalFunction e.1

/-- The first fault of a value. -/
def FirstFault (j : Json) (f : FieldFault) : Prop :=
  ∃ before after, checks j = before ++ f :: after ∧ (∀ g ∈ before, g.Absent j) ∧ ¬f.Absent j

/-- What faults that are looked for in order lead to: the first that is not absent, if there is
one. -/
inductive Judged (absent : FieldFault → Prop) {α : Type} :
    List FieldFault → Except FieldFault α → Prop where
  | ok {checks : List FieldFault} {a : α} : (∀ f ∈ checks, absent f) → Judged absent checks (.ok a)
  | error (before : List FieldFault) {after : List FieldFault} {f : FieldFault} :
      (∀ g ∈ before, absent g) → ¬absent f → Judged absent (before ++ f :: after) (.error f)

namespace Judged

variable {absent : FieldFault → Prop} {α β : Type} {checks more : List FieldFault}
  {x : Except FieldFault α}

/-- Where the checks pass, none of the faults they look for is there. -/
theorem absent_of_ok {a : α} (h : Judged absent checks (.ok a : Except FieldFault α)) :
    ∀ f ∈ checks, absent f := by
  cases h with
  | ok h => exact h

/-- Where the checks stop, the fault they name is there and none of those before it is. -/
theorem first_of_error {f : FieldFault}
    (h : Judged absent checks (.error f : Except FieldFault α)) :
    ∃ before after, checks = before ++ f :: after ∧ (∀ g ∈ before, absent g) ∧ ¬absent f := by
  cases h with
  | error before hbefore hf => exact ⟨before, _, rfl, hbefore, hf⟩

/-- A fault that is absent may be put before the checks. -/
theorem cons {f : FieldFault} (hf : absent f) (h : Judged absent checks x) :
    Judged absent (f :: checks) x := by
  cases h with
  | ok h => exact .ok (List.forall_mem_cons.2 ⟨hf, h⟩)
  | error before hbefore hg => exact .error (f :: before) (List.forall_mem_cons.2 ⟨hf, hbefore⟩) hg

/-- Checks one after another: the second ones count only where the first ones pass. -/
theorem bind {k : α → Except FieldFault β} (h : Judged absent checks x)
    (hk : ∀ a, x = .ok a → Judged absent more (k a)) :
    Judged absent (checks ++ more) (x >>= k) := by
  cases h with
  | @ok _ a h =>
    have happend : ∀ {fs : List FieldFault}, (∀ f ∈ fs, absent f) →
        ∀ f ∈ checks ++ fs, absent f := by
      intro fs hfs f hf
      rcases List.mem_append.1 hf with hf | hf
      · exact h f hf
      · exact hfs f hf
    have hnext := hk a rfl
    change Judged absent (checks ++ more) (k a)
    generalize k a = y at hnext ⊢
    cases hnext with
    | ok hmore => exact .ok (happend hmore)
    | error before hbefore hf =>
      rw [← List.append_assoc]
      exact .error (checks ++ before) (happend hbefore) hf
  | error before hbefore hf =>
    rw [List.append_assoc, List.cons_append]
    exact .error before hbefore hf

/-- One fault in front of the others. -/
theorem andThen {f : FieldFault} {k : α → Except FieldFault β} (h : Judged absent [f] x)
    (hk : ∀ a, x = .ok a → Judged absent more (k a)) :
    Judged absent (f :: more) (x >>= k) := h.bind hk

end Judged

/-- A field is accepted exactly when it is absent or was written from a value of its kind. -/
theorem field_eq_ok_iff {α : Type} {read : Json → Option α} {write : α → Json}
    (hread : Reads read write) {fields : List (Text × Json)} {name : Text} {fault : FieldFault}
    {a : Option α} :
    field fields name read fault = .ok a ↔ Json.field? fields name = a.map write := by
  rw [← hread.optional_eq_some_iff, field]
  cases optional read (Json.field? fields name) <;> simp

/-- The check of one field looks for one fault, that the field is there and of another kind. -/
theorem judged_field {absent : FieldFault → Prop} {α : Type} {read : Json → Option α}
    {write : α → Json} (hread : Reads read write) {fields : List (Text × Json)} {name : Text}
    {fault : FieldFault}
    (habsent : absent fault ↔ ∀ v, Json.field? fields name = some v → ∃ a, v = write a) :
    Judged absent [fault] (field fields name read fault) := by
  unfold field
  cases ho : optional read (Json.field? fields name) with
  | some value =>
    refine .ok fun f hf => ?_
    rw [List.mem_singleton.1 hf, habsent]
    exact not_not.1 (mt hread.optional_eq_none_iff.2 (by rw [ho]; exact Option.some_ne_none value))
  | none =>
    refine .error [] (by simp) ?_
    rw [habsent]
    exact hread.optional_eq_none_iff.1 ho

/-- The external routines are checked one by one, in their order. -/
theorem judged_externals {absent : FieldFault → Prop} {entries : List (Text × Json)}
    (habsent : ∀ e ∈ entries, absent (.externalFunction e.1) ↔ e.2.DeclaresRoutine) :
    Judged absent (entries.map fun e => .externalFunction e.1) (externals entries) := by
  induction entries with
  | nil => exact .ok (by simp)
  | cons e entries ih =>
    obtain ⟨name, j⟩ := e
    rw [List.forall_mem_cons] at habsent
    rw [externals, List.map_cons]
    have hfirst : absent (.externalFunction name) ↔ ∃ f, externalFunction? j = some f :=
      habsent.1.trans exists_externalFunction?_iff.symm
    cases hf : externalFunction? j with
    | none =>
      refine .error [] (by simp) ?_
      rw [hfirst, hf]
      simp
    | some f =>
      refine .cons (hfirst.2 ⟨f, hf⟩) ?_
      rw [← List.append_nil (entries.map _)]
      exact (ih habsent.2).bind fun fs _ => .ok (by simp)

/-- The faults of a value are looked for in order. -/
theorem judged_ofJson (j : Json) : Judged (FieldFault.Absent j) (checks j) (ofJson j) := by
  cases j with
  | object fields =>
    refine .cons ⟨fields, rfl⟩ ?_
    refine .andThen (judged_field reads_text .rfl) fun sourceRoot _ => ?_
    refine .andThen (judged_field reads_severity .rfl) fun minSeverity _ => ?_
    refine .andThen (judged_field reads_format .rfl) fun format _ => ?_
    refine .andThen (judged_field reads_boolean .rfl) fun showTypes _ => ?_
    refine .andThen (judged_field reads_fields .rfl) fun functions hfunctions => ?_
    have hfield : Json.get? (.object fields) "externalFunctions" = functions.map .object :=
      (field_eq_ok_iff reads_fields).1 hfunctions
    unfold externalEntries
    rw [hfield]
    cases functions with
    | none => exact .ok (by simp)
    | some entries =>
      have hmem := (Json.members_inKeyOrder entries).mem_iff
      dsimp only [Option.map_some]
      rw [← List.append_nil ((Json.members entries).map _)]
      refine (judged_externals ?_).bind fun fs _ => .ok (by simp)
      rintro ⟨name, v⟩ he
      constructor
      · exact fun h => h entries v hfield ((hmem name v).1 he)
      · intro h entries' v' hentries' hv'
        rw [hfield] at hentries'
        cases hentries'
        rw [(hmem name v).1 he] at hv'
        cases hv'
        exact h
  | _ => exact .error [] (by simp) (by simp [FieldFault.Absent])

/-- No two faults are both the first one. -/
theorem firstFault_unique {j : Json} {f g : FieldFault} (hf : FirstFault j f)
    (hg : FirstFault j g) : f = g := by
  classical
  have hfind : ∀ {f : FieldFault}, FirstFault j f →
      (checks j).find? (fun g => !decide (g.Absent j)) = some f := by
    rintro f ⟨before, after, heq, hbefore, hnot⟩
    exact List.find?_eq_some_iff_append.2
      ⟨by simpa using hnot, before, after, heq, by simpa using hbefore⟩
  exact Option.some.inj ((hfind hf).symm.trans (hfind hg))

/-- Faults that are not looked for are absent. -/
theorem absent_of_not_mem_checks {j : Json} {f : FieldFault} (h : f ∉ checks j) : f.Absent j := by
  cases f with
  | externalFunction name =>
    intro entries v hentries hv
    refine absurd ?_ h
    have hmem := ((Json.members_inKeyOrder entries).mem_iff name v).2 hv
    unfold checks externalEntries
    rw [hentries]
    exact List.mem_append_right _ (List.mem_map.2 ⟨_, hmem, rfl⟩)
  | _ => exact absurd (List.mem_append_left _ (by decide)) h

/-- A configuration is accepted exactly when none of the faults is there. -/
theorem exists_ofJson_iff {j : Json} : (∃ c, ofJson j = .ok c) ↔ ∀ f : FieldFault, f.Absent j := by
  have hjudged := judged_ofJson j
  constructor
  · rintro ⟨c, hc⟩ f
    rw [hc] at hjudged
    by_cases hf : f ∈ checks j
    · exact hjudged.absent_of_ok f hf
    · exact absent_of_not_mem_checks hf
  · intro habsent
    cases hx : ofJson j with
    | ok c => exact ⟨c, rfl⟩
    | error f =>
      rw [hx] at hjudged
      obtain ⟨before, after, -, -, hnot⟩ := hjudged.first_of_error
      exact absurd (habsent f) hnot

/-- A configuration is refused with a fault exactly when that is its first one. -/
theorem ofJson_eq_error_iff {j : Json} {f : FieldFault} : ofJson j = .error f ↔ FirstFault j f := by
  have hjudged := judged_ofJson j
  cases hx : ofJson j with
  | ok c =>
    refine ⟨fun h => (nomatch h), ?_⟩
    rintro ⟨before, after, -, -, hnot⟩
    exact absurd (exists_ofJson_iff.1 ⟨c, hx⟩ f) hnot
  | error g =>
    rw [hx] at hjudged
    have hg : FirstFault j g := hjudged.first_of_error
    constructor
    · intro h
      cases h
      exact hg
    · intro hf
      rw [firstFault_unique hf hg]

/-! ## What is accepted -/

/-- Whether the declared routines are those of the value of a field. -/
def DeclaredIn (o : Option Json) : Option (Table Text ExternalFunction) → Prop
  | none => o = none
  | some t =>
    ∃ entries fs, o = some (.object entries) ∧ externals (Json.members entries) = .ok fs ∧
      t = declared fs

/-- The fields of a configuration are what the fields of the value were written from. -/
theorem ofJson_eq_ok_iff {j : Json} {c : Config} :
    ofJson j = .ok c ↔ (∃ fields, j = .object fields) ∧
      j.get? "sourceRoot" = c.sourceRoot.map .string ∧
      (j.get? "minSeverity" = c.minSeverity.map fun s => .string s.name) ∧
      (j.get? "format" = c.format.map fun f => .string f.name) ∧
        j.get? "showTypes" = c.showTypes.map .boolean ∧
      DeclaredIn (j.get? "externalFunctions") c.externalFunctions := by
  cases j with
  | object fields =>
    simp only [ofJson, bind_eq_ok, field_eq_ok_iff reads_text, field_eq_ok_iff reads_severity,
      field_eq_ok_iff reads_format, field_eq_ok_iff reads_boolean,
      field_eq_ok_iff reads_fields, Json.get?]
    constructor
    · rintro ⟨sourceRoot, h₁, minSeverity, h₂, format, h₃, showTypes, h₄, functions, h₅, h⟩
      cases functions with
      | none =>
        cases h
        exact ⟨⟨fields, rfl⟩, h₁, h₂, h₃, h₄, h₅⟩
      | some entries =>
        obtain ⟨fs, hfs, h⟩ := bind_eq_ok.1 h
        cases h
        exact ⟨⟨fields, rfl⟩, h₁, h₂, h₃, h₄, entries, fs, h₅, hfs, rfl⟩
    · rintro ⟨-, h₁, h₂, h₃, h₄, h₅⟩
      obtain ⟨sourceRoot, minSeverity, format, showTypes, functions⟩ := c
      refine ⟨sourceRoot, h₁, minSeverity, h₂, format, h₃, showTypes, h₄, ?_⟩
      cases functions with
      | none => exact ⟨none, h₅, rfl⟩
      | some t =>
        obtain ⟨entries, fs, hentries, hfs, rfl⟩ := h₅
        exact ⟨some entries, hentries, bind_eq_ok.2 ⟨fs, hfs, rfl⟩⟩
  | _ => simp [ofJson]

end Config

namespace ExternalFunction

/-- What declares a routine. -/
def toFields (f : ExternalFunction) : List (Text × Option Json) :=
  [("params", some (.number f.params.value)), ("exported", f.exported.map .boolean)]

/-- The declaration of a routine as a value. -/
def toJson (f : ExternalFunction) : Json := .ofFields f.toFields

/-- The fields of an external routine have different names. -/
theorem nodup_toFields (f : ExternalFunction) : (f.toFields.map Prod.fst).Nodup := by
  change [("params" : Text), "exported"].Nodup
  decide

/-- The written form of an external routine holds its fields, those that are there. -/
theorem get?_toJson (f : ExternalFunction) (name : Text) :
    f.toJson.get? name = (Table.valueAt name f.toFields).join :=
  Json.get?_ofFields f.nodup_toFields name

end ExternalFunction

namespace Config

/-- The names of the fields of a configuration. -/
def fieldNames : List Text :=
  ["sourceRoot", "minSeverity", "format", "showTypes", "externalFunctions"]

/-- What makes a configuration. -/
def toFields (c : Config) : List (Text × Option Json) :=
  [("sourceRoot", c.sourceRoot.map .string),
    ("minSeverity", c.minSeverity.map fun s => .string s.name),
    ("format", c.format.map fun f => .string f.name), ("showTypes", c.showTypes.map .boolean),
    ("externalFunctions", c.externalFunctions.map fun t =>
      .object (t.map fun _ f => f.toJson).entries)]

/-- A configuration as a value. -/
def toJson (c : Config) : Json := .ofFields c.toFields

/-- The fields of a configuration have different names. -/
theorem nodup_toFields (c : Config) : (c.toFields.map Prod.fst).Nodup := by
  change fieldNames.Nodup
  decide

/-- The written form of a configuration holds its fields, those that are there. -/
theorem get?_toJson (c : Config) (name : Text) :
    c.toJson.get? name = (Table.valueAt name c.toFields).join :=
  Json.get?_ofFields c.nodup_toFields name

/-- The external routines are written as an object with one field for each of them. -/
theorem get?_toJson_externalFunctions (c : Config) :
    c.toJson.get? "externalFunctions" = c.externalFunctions.map fun t =>
      .object (t.map fun _ f => f.toJson).entries := by
  rw [c.get?_toJson]
  rfl

/-! ## Accepted routines -/

section

variable {entries : List (Text × Json)} {fs : List (Text × ExternalFunction)}

/-- The routines that are read carry the names of the fields they are read from. -/
theorem map_fst_externals (h : externals entries = .ok fs) :
    fs.map Prod.fst = entries.map Prod.fst := by
  have hforall := externals_eq_ok_iff.1 h
  clear h
  induction hforall with
  | nil => rfl
  | cons hed _ ih => rw [List.map_cons, List.map_cons, hed.1, ih]

/-- The declared routines are those that were read, without the reserved name. -/
theorem entries_declared (h : externals (Json.members entries) = .ok fs) :
    (declared fs).entries = fs.filter fun e => e.1 != reservedName := by
  refine Table.entries_ofList (List.Sublist.nodup (List.filter_sublist.map Prod.fst) ?_)
  rw [map_fst_externals h]
  exact Table.nodup_keys_listing _

/-- The routines that an object declares stand in listing order. -/
theorem listed_declared (h : externals (Json.members entries) = .ok fs) :
    Table.Listed (declared fs).entries := by
  have hfs : Table.Listed fs := by
    unfold Table.Listed
    rw [map_fst_externals h]
    exact (Json.members_inKeyOrder entries).indicesFirst
  rw [entries_declared h]
  exact hfs.filter _

/-- Routines that are written in listing order are listed as they are written. -/
theorem members_written {t : Table Text ExternalFunction} (h : Table.Listed t.entries) :
    Json.members (t.map fun _ f => f.toJson).entries = (t.map fun _ f => f.toJson).entries := by
  refine Table.listing_ofList_of_listed (t.map _).nodup_keys ?_
  have hkeys : (t.map fun _ f => f.toJson).keys = t.keys := Table.keys_map _ t
  change (t.map fun _ f => f.toJson).keys.Pairwise Text.Precedes
  rw [hkeys]
  exact h

/-- Reading an external routine back from its written form gives the routine. -/
theorem externalFunction?_toJson (f : ExternalFunction) : externalFunction? f.toJson = some f := by
  rw [externalFunction?_eq_some_iff, f.get?_toJson, f.get?_toJson]
  exact ⟨rfl, rfl⟩

/-- Written routines are read again. -/
theorem externals_written {t : Table Text ExternalFunction} (h : Table.Listed t.entries) :
    externals (Json.members (t.map fun _ f => f.toJson).entries) = .ok t.entries := by
  rw [members_written h, externals_eq_ok_iff, Table.map, List.forall₂_map_left_iff,
    List.forall₂_same]
  exact fun e _ => ⟨rfl, externalFunction?_toJson e.2⟩

/-- Without the reserved name, the routines of a table are declared as they are. -/
theorem declared_entries {t : Table Text ExternalFunction}
    (h : ∀ e ∈ t.entries, e.1 ≠ reservedName) : declared t.entries = t := by
  have hfilter : t.entries.filter (fun e => e.1 != reservedName) = t.entries := by
    rw [List.filter_eq_self]
    exact fun e he => bne_iff_ne.2 (h e he)
  apply Table.eq_of_entries
  rw [declared, hfilter, Table.entries_ofList t.nodup_keys]

end

/-- Whether an entry declares the same routine as another one, and nothing else. -/
def SameRoutine (e kept : Text × Json) : Prop :=
  kept.1 = e.1 ∧ ∀ name : Text, kept.2.get? name = if name = "params" ∨
    name = "exported" then e.2.get? name else none

/-- Whether a configuration keeps the fields of a value: those with one value as they are, the
routines of other modules in listing order without the reserved name, and nothing else. -/
structure Keeps (j : Json) (c : Config) : Prop where
  single : ∀ name ∈ fieldNames, name ≠ "externalFunctions" → c.toJson.get? name = j.get? name
  absent : j.get? "externalFunctions" = none → c.toJson.get? "externalFunctions" = none
  routines : ∀ entries, j.get? "externalFunctions" = some (.object entries) →
    ∃ kept, c.toJson.get? "externalFunctions" = some (.object kept) ∧
      List.Forall₂ SameRoutine ((Json.members entries).filter fun e => e.1 != reservedName)
        (Json.members kept)
  others : ∀ name ∉ fieldNames, c.toJson.get? name = none

/-- A field that declares a routine and the written form of that routine declare the same. -/
theorem sameRoutine_toJson {e : Text × Json} {f : ExternalFunction}
    (h : externalFunction? e.2 = some f) :
    SameRoutine e (e.1, f.toJson) := by
  obtain ⟨hparams, hexported⟩ := externalFunction?_eq_some_iff.1 h
  refine ⟨rfl, fun name => ?_⟩
  dsimp only
  rw [f.get?_toJson]
  split
  · next hname =>
    rcases hname with rfl | rfl
    · exact hparams.symm
    · exact hexported.symm
  · next hname =>
    rw [not_or] at hname
    have hnot : name ∉ f.toFields.map Prod.fst := by
      change name ∉ [("params" : Text), "exported"]
      simp [hname]
    rw [Table.valueAt_eq_none f.nodup_toFields hnot]
    rfl

/-- The routines that are kept are those that were read, one for one. -/
theorem sameRoutine_declared {entries : List (Text × Json)} {fs : List (Text × ExternalFunction)}
    (h : externals (Json.members entries) = .ok fs) :
    List.Forall₂ SameRoutine ((Json.members entries).filter fun e => e.1 != reservedName)
      (Json.members ((declared fs).map fun _ f => f.toJson).entries) := by
  rw [members_written (listed_declared h)]
  change List.Forall₂ SameRoutine _ ((declared fs).entries.map fun e => (e.1, e.2.toJson))
  rw [entries_declared h, List.forall₂_map_right_iff]
  refine (List.rel_filter ?_ (externals_eq_ok_iff.1 h)).imp ?_
  · rintro e d ⟨hname, -⟩
    dsimp only
    rw [hname]
  · rintro e d ⟨hname, hd⟩
    rw [hname]
    exact sameRoutine_toJson hd

/-- What an accepted configuration keeps of the object it was read from. -/
theorem keeps_of_ofJson {j : Json} {c : Config} (h : ofJson j = .ok c) : Keeps j c := by
  obtain ⟨-, hroot, hseverity, hformat, htypes, hdeclared⟩ := ofJson_eq_ok_iff.1 h
  refine ⟨?_, ?_, ?_, ?_⟩
  · intro name hname hne
    rw [c.get?_toJson]
    simp only [fieldNames, List.mem_cons, List.not_mem_nil, or_false] at hname
    rcases hname with rfl | rfl | rfl | rfl | rfl
    · exact hroot.symm
    · exact hseverity.symm
    · exact hformat.symm
    · exact htypes.symm
    · exact absurd rfl hne
  · intro hnone
    rw [c.get?_toJson_externalFunctions]
    rw [hnone] at hdeclared
    cases hfunctions : c.externalFunctions with
    | none => rfl
    | some t =>
      rw [hfunctions] at hdeclared
      obtain ⟨_, _, hsome, -⟩ := hdeclared
      cases hsome
  · intro entries hentries
    rw [c.get?_toJson_externalFunctions]
    rw [hentries] at hdeclared
    cases hfunctions : c.externalFunctions with
    | none =>
      rw [hfunctions] at hdeclared
      cases hdeclared
    | some t =>
      rw [hfunctions] at hdeclared
      obtain ⟨_, fs, hsome, hfs, rfl⟩ := hdeclared
      cases hsome
      exact ⟨_, rfl, sameRoutine_declared hfs⟩
  · intro name hname
    rw [c.get?_toJson, Table.valueAt_eq_none c.nodup_toFields hname]
    rfl

/-- What was accepted is accepted again, as the same configuration. -/
theorem ofJson_toJson {j : Json} {c : Config} (h : ofJson j = .ok c) : ofJson c.toJson = .ok c := by
  obtain ⟨-, -, -, -, -, hdeclared⟩ := ofJson_eq_ok_iff.1 h
  refine ofJson_eq_ok_iff.2 ⟨⟨_, rfl⟩, (c.get?_toJson _).trans rfl, (c.get?_toJson _).trans rfl,
    (c.get?_toJson _).trans rfl, (c.get?_toJson _).trans rfl, ?_⟩
  rw [c.get?_toJson_externalFunctions]
  cases hfunctions : c.externalFunctions with
  | none => rfl
  | some t =>
    rw [hfunctions] at hdeclared
    obtain ⟨entries, fs, -, hfs, rfl⟩ := hdeclared
    have hreserved : ∀ e ∈ (declared fs).entries, e.1 ≠ reservedName := by
      rw [entries_declared hfs]
      exact fun e he => bne_iff_ne.1 (List.mem_filter.1 he).2
    exact ⟨_, _, rfl, externals_written (listed_declared hfs), (declared_entries hreserved).symm⟩

/-- **Configurations are checked exactly.** A value is accepted exactly if no fault is there.
Otherwise its first fault is reported, where entries are looked at in listing order. What is
accepted keeps the fields of a configuration and nothing else, and is accepted again as it is. -/
theorem ofJson_exact (path : Text) (j : Json) :
    ((∃ c, ofJson j = .ok c) ↔ ∀ f : FieldFault, f.Absent j) ∧
      (∀ d, (ofJson j).mapError (fun f => (ConfigFault.invalid path f).toDiagnostic) = .error d ↔
        ∃ f, FirstFault j f ∧
          d = { code := .configInvalid, severity := .error,
                message := path ++ ": " ++ f.message, location := none, hint := none }) ∧
      (∀ entries, j.get? "externalFunctions" = some (.object entries) →
        Json.InKeyOrder entries (externalEntries j)) ∧
      ∀ c, ofJson j = .ok c → Keeps j c ∧ ofJson c.toJson = .ok c := by
  refine ⟨exists_ofJson_iff, ?_, ?_, fun c hc => ⟨keeps_of_ofJson hc, ofJson_toJson hc⟩⟩
  · intro d
    simp only [← ofJson_eq_error_iff]
    cases ofJson j with
    | ok c => simp [Except.mapError]
    | error f =>
      constructor
      · intro h
        cases h
        exact ⟨f, rfl, rfl⟩
      · rintro ⟨g, hg, rfl⟩
        cases hg
        rfl
  · intro entries hentries
    rw [externalEntries, hentries]
    exact Json.members_inKeyOrder entries

/-- Routines with an index, a name and the reserved name, the index written behind the name. -/
theorem ofJson_exact_routines :
    ∃ j : Json, j = .object [("format", .string "json"), ("other", .null),
      ("externalFunctions", .object
        [("б", .object [("params", .number 2.0), ("exported", .boolean false), ("other", .null)]),
          ("__proto__", .object [("params", .number 0.0)]),
            ("7", .object [("params", .number 1.0)])])] ∧
      ∃ c, ofJson j = .ok c ∧ Keeps j c ∧ ofJson c.toJson = .ok c := by
  refine ⟨_, rfl, ?_⟩
  generalize hj : Json.object _ = j
  have haccepted : (ofJson j).isOk = true := by
    subst hj
    decide +kernel
  cases hc : ofJson j with
  | error f =>
    rw [hc] at haccepted
    cases haccepted
  | ok c => exact ⟨c, rfl, (ofJson_exact [] j).2.2.2 c hc⟩

-- Fields are looked at in a fixed order, entries in listing order.
example : ofJson (.object [("format", .null), ("sourceRoot", .null)]) = .error .sourceRoot := by rfl

example : ofJson (.object [("externalFunctions", .object [("б", .null), ("7", .null)])]) =
    .error (.externalFunction "7") := by rfl

end Config

end Gradual
