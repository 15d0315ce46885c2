import Gradual.Proofs.Calls.Alongside
import Gradual.Proofs.Check.Findings
import Gradual.Proofs.Flow.Alongside

/-!
# The gradual guarantee

A check that knows less about routines of other modules should not find more wrong with the types of
a module. What is judged is a type that is certain enough, so a dimmed type is judged only if it is
the same as before or was surely known, and then it is judged alike. The types of a check stay
dimmed through calls, routines, assignments, conditions and loops; only where types are blended can
a type come out that was not known before, because a union leaves out what is unknown. With faithful
blends the guarantee holds for every module; without, it does not.

Main statement: `Program.typeFindings_sublist`.
-/

namespace Gradual

variable {ω : Type}

/-! ## Judging dimmed types -/

namespace Resolution

variable {r r' : Resolution ω} {t : Concrete ω}

/-- A resolution of one type is not unknown. -/
theorem isUnknown_of_concrete? (h : r.concrete? = some t) : r.isUnknown = false := by
  unfold Resolution.concrete? at h
  unfold isUnknown
  split
  · rename_i hunknown
    rw [hunknown] at h
    cases h
  · rfl

/-- A known resolution of one shape is of that type. -/
theorem concrete?_of_shape (h : r.isUnknown = false) (hshape : r.shape = .concrete t) :
    r.concrete? = some t := by
  unfold Resolution.concrete?
  rw [hshape]
  split
  · rename_i hunknown
    unfold isUnknown at h
    rw [hunknown] at h
    cases h
  · rename_i heq _
    cases heq
    rfl
  · rename_i hne
    exact absurd rfl (hne t)

/-- When an assignment is not accepted. -/
theorem accepts_eq_false_iff (previous next : Resolution ω) :
    previous.accepts next = false ↔ previous.isUnknown = false ∧ ∃ t, next.concrete? = some t ∧
      t.isAbsent = false ∧
      ((∃ members, previous.shape = .union members ∧ Members.contains members t = false) ∨
        ∃ s, previous.concrete? = some s ∧ s.isAbsent = false ∧ s.same t = false) := by
  unfold Resolution.accepts
  constructor
  · intro h
    split at h
    · cases h
    rename_i hunknown
    rw [Bool.or_eq_true, not_or, Bool.not_eq_true, Bool.not_eq_true] at hunknown
    refine ⟨hunknown.1, ?_⟩
    split at h
    · cases h
    rename_i habsent
    split at h
    · rename_i members hshape
      unfold Members.accepts at h
      split at h
      · rename_i t ht
        have hnext := concrete?_of_shape hunknown.2 ht
        rw [hnext] at habsent
        exact ⟨t, hnext, Bool.not_eq_true _ ▸ habsent, .inl ⟨members, hshape, h⟩⟩
      · cases h
    · split at h
      · rename_i s t hs ht
        rw [Bool.or_eq_false_iff, Bool.or_eq_false_iff] at h
        exact ⟨t, ht, h.1.2, .inr ⟨s, hs, h.1.1, h.2⟩⟩
      · cases h
  · rintro ⟨hunknown, t, ht, habsent, hprevious⟩
    rw [hunknown, isUnknown_of_concrete? ht, if_neg (by decide), ht, Option.map_some,
      Option.getD_some, habsent, if_neg (by decide)]
    rcases hprevious with ⟨members, hshape, hcontains⟩ | ⟨s, hs, habsent', hsame⟩
    · rw [hshape]
      dsimp only
      unfold Members.accepts
      rw [shape_of_concrete? ht]
      exact hcontains
    · rw [shape_of_concrete? hs, hs]
      dsimp only
      rw [habsent', habsent, hsame]
      rfl

/-- What a dimmed type rejects, the other one rejects too. -/
theorem Dimmed.accepts {s s' : Resolution ω} (hr : r.Dimmed r') (hs : s.Dimmed s')
    (h : r.accepts s = false) : r'.accepts s' = false := by
  rw [accepts_eq_false_iff] at h ⊢
  obtain ⟨hunknown, t, ht, habsent, hprevious⟩ := h
  rcases hprevious with ⟨members, hshape, hcontains⟩ | ⟨u, hu, habsent', hsame⟩
  · rcases hr with hkept | hsays
    · refine ⟨?_, t, hs.concrete? ht, habsent, .inl ⟨members, hkept.shape ▸ hshape, hcontains⟩⟩
      unfold isUnknown at hunknown ⊢
      rw [← hkept.certainty]
      exact hunknown
    · unfold SaysOnly at hsays
      rw [hshape] at hsays
      exact hsays.elim
  · exact ⟨isUnknown_of_concrete? (hr.concrete? hu), t, hs.concrete? ht, habsent,
      .inr ⟨u, hr.concrete? hu, habsent', hsame⟩⟩

variable [Weight ω]

/-- A type that is judged through a dimmed form is judged in the other run too. -/
theorem Dimmed.judged? (hjudged : (judgedConfidence : ω) ≤ Weight.ofNat 1) (h : r.Dimmed r')
    (ht : r.judged? = some t) : r'.judged? = some t := by
  unfold Resolution.judged? at ht ⊢
  split at ht
  · rename_i hconfident
    rcases h with h | h
    · rw [← h.certainty, if_pos hconfident, ← sameness_kept.concrete?_eq h]
      exact ht
    · have hsure : r'.Sure t := h.of_shape (shape_of_concrete? ht)
      have hconfidence : r'.certainty.confidence = Weight.ofNat 1 := by
        rw [hsure.1]
        rfl
      rw [hconfidence, if_pos hjudged, hsure.concrete?]
  · cases ht

end Resolution

/-! ## Judging events -/

namespace Finding

variable [Weight ω]

/-- Types that are all judged when they are dimmed are judged alike when they are known. -/
theorem map_judged?_of_dimmed (hjudged : (judgedConfidence : ω) ≤ Weight.ofNat 1)
    {operands operands' : List (Resolution ω)}
    (h : List.Forall₂ Resolution.Dimmed operands operands') (ts : List (Concrete ω))
    (hts : operands.map Resolution.judged? = ts.map some) :
    operands'.map Resolution.judged? = ts.map some := by
  induction h generalizing ts with
  | nil => exact hts
  | cons hr _ ih =>
    cases ts with
    | nil => cases hts
    | cons t ts =>
      rw [List.map_cons, List.map_cons, List.cons.injEq] at hts
      rw [List.map_cons, List.map_cons, hr.judged? hjudged hts.1, ih ts hts.2]

/-- Operands that do not fit when they are dimmed do not fit when they are known. -/
theorem ofOperator?_of_dimmed (hjudged : (judgedConfidence : ω) ≤ Weight.ofNat 1)
    {operation : Operation} {operands operands' : List (Resolution ω)}
    (h : List.Forall₂ Resolution.Dimmed operands operands') {finding : Finding}
    (hfinding : ofOperator? operation operands = some finding) :
    ofOperator? operation operands' = some finding := by
  rw [ofOperator?.eq_def] at hfinding ⊢
  split at hfinding
  · rename_i op left right hts
    have hts' : operands'.map Resolution.judged? = [some left, some right] :=
      map_judged?_of_dimmed hjudged h [left, right] hts
    rw [hts']
    exact hfinding
  · rename_i op t hts
    have hts' : operands'.map Resolution.judged? = [some t] :=
      map_judged?_of_dimmed hjudged h [t] hts
    rw [hts']
    exact hfinding
  · cases hfinding

/-- A finding on a dimmed condition is there in the other run too. -/
theorem ofCondition?_of_dimmed (hjudged : (judgedConfidence : ω) ≤ Weight.ofNat 1)
    {r r' : Resolution ω} (h : r.Dimmed r') {finding : Finding}
    (hfinding : ofCondition? r = some finding) :
    ofCondition? r' = some finding := by
  unfold ofCondition? at hfinding ⊢
  split at hfinding
  · rename_i t ht
    rw [h.judged? hjudged ht]
    exact hfinding
  · cases hfinding

/-- A finding on a dimmed assignment comes with one in the other run. -/
theorem ofAssignment?_of_dimmed {name : Text} {previous previous' : Option (Resolution ω)}
    {next next' : Resolution ω} (hprevious : Option.Rel Resolution.Dimmed previous previous')
    (hnext : next.Dimmed next') {finding : Finding}
    (hfinding : ofAssignment? name previous next = some finding) :
    ∃ finding', ofAssignment? name previous' next' = some finding' := by
  cases hprevious with
  | none => cases hfinding
  | some hr =>
    rw [ofAssignment?] at hfinding ⊢
    split at hfinding
    · cases hfinding
    · rename_i haccepts
      rw [Bool.not_eq_true] at haccepts
      rw [hr.accepts hnext haccepts]
      exact ⟨_, rfl⟩

end Finding

/-- The code and the place of a diagnostic about types. -/
def Diagnostic.typeFinding? (d : Diagnostic) : Option (Code × Option Location) :=
  if d.code.needsTypes then some (d.code, d.location) else none

/-- The codes and places of the diagnostics about types. -/
def CheckResult.typeFindings (r : CheckResult ω) : List (Code × Option Location) :=
  r.diagnostics.filterMap Diagnostic.typeFinding?

section

variable (file : Text)

/-- Only the code of a finding and its place matter. -/
theorem bind_typeFinding?_of_code {found found' : Option Finding}
    (h : ∀ f, found = some f → ∃ f', found' = some f' ∧ f'.code = f.code) {loc : Option Position}
    {finding : Code × Option Location}
    (hfinding : (found.map (Finding.toDiagnostic file loc)).bind Diagnostic.typeFinding? =
      some finding) :
    (found'.map (Finding.toDiagnostic file loc)).bind Diagnostic.typeFinding? = some finding := by
  cases found with
  | none => cases hfinding
  | some f =>
    obtain ⟨f', rfl, hcode⟩ := h f rfl
    rw [← hfinding]
    show (if f'.code.needsTypes then some (f'.code, _) else none) =
      if f.code.needsTypes then some (f.code, _) else none
    rw [hcode]
    rfl

variable [Weight ω] (hjudged : (judgedConfidence : ω) ≤ Weight.ofNat 1)
  (functions functions' : Signatures ω)

include hjudged

/-- What is found wrong about types in an event is found in an event where they are known. -/
theorem typeFinding?_of_dimmed {e e' : FlowEvent ω} (h : e.Beside Resolution.Dimmed e')
    {finding : Code × Option Location}
    (hfinding : (e.diagnose file functions).bind Diagnostic.typeFinding? = some finding) :
    (e'.diagnose file functions').bind Diagnostic.typeFinding? = some finding := by
  cases h with
  | undeclared name loc => cases hfinding
  | call name count loc =>
    -- A finding about a call needs no types.
    rw [FlowEvent.diagnose] at hfinding
    cases hcall : Finding.ofCall? functions name count with
    | none =>
      rw [hcall] at hfinding
      cases hfinding
    | some found =>
      have hcode := Finding.isAboutCall_ofCall? hcall
      have hneeds : ¬ found.code.needsTypes = true := fun h => by
        rw [Code.isAboutCall_of_needsTypes h] at hcode
        cases hcode
      have hnone : (found.toDiagnostic file loc).typeFinding? = none := if_neg hneeds
      rw [hcall, Option.map_some, Option.bind_some, hnone] at hfinding
      cases hfinding
  | operator operation loc hos =>
    exact bind_typeFinding?_of_code file
      (fun f hf => ⟨f, Finding.ofOperator?_of_dimmed hjudged hos hf, rfl⟩) hfinding
  | condition c ht =>
    exact bind_typeFinding?_of_code file
      (fun f hf => ⟨f, Finding.ofCondition?_of_dimmed hjudged ht hf, rfl⟩) hfinding
  | assignment name loc hprevious hnext =>
    refine bind_typeFinding?_of_code file (fun f hf => ?_) hfinding
    obtain ⟨f', hf'⟩ := Finding.ofAssignment?_of_dimmed hprevious hnext hf
    exact ⟨f', hf', (Finding.code_ofAssignment? hf').trans (Finding.code_ofAssignment? hf).symm⟩

end

/-! ## Checks -/

/-- The context in which a check walks through a module: signatures from outside and of its
routines. -/
def Program.contextOf [Weight ω] (file : Text) (externals : Signatures ω) (p : Program) :
    Context ω :=
  (CallGraph.analyzeAll (.ofProgram p) (.make (.module file) externals) .empty).extend
    (.make (.module file) externals)

/-- The walk of a check. -/
def Program.walk [Weight ω] (file : Text) (externals : Signatures ω) (p : Program) : Flow ω :=
  Flow.block p (Flow.start (p.contextOf file externals))

/-- A check judges the events of its walk. -/
theorem Program.diagnostics_check [Weight ω] (file : Text) (externals : Signatures ω)
    (p : Program) :
    (p.check file externals).diagnostics =
      (p.walk file externals).events.toList.filterMap
        (FlowEvent.diagnose file (p.contextOf file externals).functions) :=
  rfl

/-- The blends that a check comes across, first those of reading the routines and then those of the
walk. -/
def Program.blends [Weight ω] (file : Text) (externals : Signatures ω) (p : Program) :
    List (Blend ω) :=
  let callGraph : CallGraph ω := .ofProgram p
  callGraph.analyzeBlends (.make (.module file) externals)
    (callGraph.calleesFirst?.getD callGraph.routines.keys) .empty ++
    Flow.blockBlends p (Flow.start (p.contextOf file externals))

/-- The same signature, but its result may be unknown. -/
structure Signature.Hides (s s' : Signature ω) : Prop where
  params : s.params = s'.params
  exported : s.exported = s'.exported
  returns : s.returns = s'.returns ∨ s.returns.certainty = .unknown ∧ s.returns.shape = .dynamic

/-- A signature that hides another lies beside it, dimmed. -/
theorem Signature.Hides.beside {s s' : Signature ω} (h : s.Hides s') :
    s.Beside Resolution.Dimmed s' := by
  constructor
  · rw [h.params]
    exact List.forall₂_same.2 fun p _ => .refl _
  · rcases h.returns with heq | ⟨-, hshape⟩
    · rw [heq]
      exact .refl _
    · refine Resolution.Silent.dimmed ?_ _
      unfold Resolution.Silent Resolution.SaysOnly
      rw [hshape]
      trivial

/-- One routine of another module, without parameters. -/
def Signatures.one (name : Text) (returns : Resolution ω) : Signatures ω :=
  .ofList [(name, ⟨[], returns, true⟩)]

/-- One signature without its result hides the one with it. -/
theorem Signatures.hides_one (name : Text) (returns : Resolution ω) :
    Table.Beside Signature.Hides (one name .unknown) (one name returns) :=
  Table.Beside.insert .empty name ⟨rfl, rfl, .inr ⟨rfl, rfl⟩⟩

/-- Contexts with the signatures of readings that go alongside lie beside each other. -/
theorem Readings.Alongside.extend {r r' : Readings ω} (h : r.Alongside r')
    {context context' : Context ω} (hcontext : context.Beside Resolution.Dimmed context') :
    (r.extend context).Beside Resolution.Dimmed (r'.extend context') := by
  rw [Readings.extend_eq, Readings.extend_eq]
  exact ⟨Table.Beside.insertAll h.analyzed.entries hcontext.functions, hcontext.scope,
    hcontext.outer⟩

/-- Walks from contexts beside each other start alongside. -/
theorem Flow.alongside_start [Weight ω] {hone : ((Weight.ofNat 1 : ω) == Weight.ofNat 1) = true}
    {context context' : Context ω}
    (hvars : Table.Beside Resolution.Dimmed context.vars context'.vars)
    (hcontext : context.Beside Resolution.Dimmed context') :
    Alongside (.dimming hone) () (start context) (start context') (start context)
      (start context') :=
  ⟨rfl, hvars.map fun name _ _ hr => hr.recordAt (.held 0 name), hcontext, .refl _ _, .refl _ _⟩

section

variable [Weight ω]

/-- The walk of a check that knows less tells about dimmed events. -/
theorem Program.beside_events (hone : ((Weight.ofNat 1 : ω) == Weight.ofNat 1) = true) (file : Text)
    {externals externals' : Signatures ω} (h : Table.Beside Signature.Hides externals externals')
    (p : Program)
    (hblends : ∀ e ∈ (p.blends file externals).zip (p.blends file externals'), e.1.Faithful e.2) :
    List.Forall₂ (FlowEvent.Beside Resolution.Dimmed) (p.walk file externals).events.toList
      (p.walk file externals').events.toList := by
  have hcontext : (Context.make (.module file) externals).Beside Resolution.Dimmed
      (.make (.module file) externals') :=
    ⟨h.mono fun _ _ => Signature.Hides.beside, rfl, rfl⟩
  have hvars : Table.Beside Resolution.Dimmed (Context.make (.module file) externals).vars
      (Context.make (.module file) externals').vars := .empty
  have hempty : (Readings.empty : Readings ω).Alongside .empty := ⟨.empty, rfl⟩
  have hpasses : (Comparison.dimming hone).Passes (p.blends file externals ++ [])
      (p.blends file externals' ++ []) := by
    rw [List.append_nil, List.append_nil]
    exact hblends
  simp only [Program.blends, List.append_assoc] at hpasses
  -- First the routines are read, then the module is walked through with what is known about them.
  obtain ⟨hreadings, hpasses⟩ :=
    CallGraph.alongside_analyzeAll hvars hcontext.functions hempty hpasses
  have hextended : (p.contextOf file externals).Beside Resolution.Dimmed
      (p.contextOf file externals') :=
    hreadings.extend hcontext
  have hnone : Table.Beside Resolution.Dimmed (p.contextOf file externals).vars
      (p.contextOf file externals').vars := by
    rw [Program.contextOf, Program.contextOf, Readings.extend_eq, Readings.extend_eq]
    exact hvars
  obtain ⟨-, w, -, hwalk⟩ := Flow.leads_block p (Flow.alongside_start hnone hextended) hpasses
  obtain ⟨added, added', hadded, hadded', hrel⟩ := hwalk.events
  have hevents : (p.walk file externals).events.toList = added := hadded
  have hevents' : (p.walk file externals').events.toList = added' := hadded'
  rw [hevents, hevents']
  exact hrel

end

/-- What each element gives, the element beside it gives too. -/
theorem filterMap_sublist_of_forall₂ {α β γ : Type} {F : α → Option γ} {G : β → Option γ}
    {as : List α} {bs : List β}
    (h : List.Forall₂ (fun a b => ∀ c, F a = some c → G b = some c) as bs) :
    (as.filterMap F).Sublist (bs.filterMap G) := by
  induction h with
  | nil => exact .slnil
  | @cons a b _ _ hab _ ih =>
    cases ha : F a with
    | none =>
      rw [List.filterMap_cons_none ha]
      refine ih.trans ?_
      rw [List.filterMap_cons]
      split
      · exact .refl _
      · exact List.sublist_cons_self _ _
    | some c =>
      rw [List.filterMap_cons_some ha, List.filterMap_cons_some (hab c ha)]
      exact ih.cons_cons c

/-- **The gradual guarantee.** Results of routines of other modules are hidden from a check. If its
blends are faithful to those of the check that sees them, then it finds nothing new wrong with
types: its findings, by code and place, are among those of the other check, in the same order. -/
theorem Program.typeFindings_sublist (file : Text) (hidden known : Signatures Float) (p : Program)
    (hhides : Table.Beside Signature.Hides hidden known)
    (hblends : ∀ e ∈ (p.blends file hidden).zip (p.blends file known), e.1.Faithful e.2) :
    (p.check file hidden).typeFindings.Sublist (p.check file known).typeFindings := by
  have hone : ((Weight.ofNat 1 : Float) == Weight.ofNat 1) = true := by decide
  have hjudged : (judgedConfidence : Float) ≤ Weight.ofNat 1 := by decide
  unfold CheckResult.typeFindings
  rw [p.diagnostics_check, p.diagnostics_check, List.filterMap_filterMap, List.filterMap_filterMap]
  apply filterMap_sublist_of_forall₂
  refine (p.beside_events hone file hhides hblends).imp ?_
  intro e e' he finding hfinding
  exact typeFinding?_of_dimmed file hjudged _ _ he hfinding

/-- A hidden number is returned by a routine and chosen beside another number, and then subtracted
from a string. The check that sees it is sure of a number and reports the operands; the other one is
not. -/
theorem Program.typeFindings_sublist_choice :
    let hidden : Signatures Float := .one "Ф" .unknown
    let known : Signatures Float := .one "Ф" (.primitive .number)
    let p : Program :=
      [.routine .function "Г" [] [.ret (some (.call (.ident "Ф" none) [] none)) none] false none,
        .assign (.ident "Х" none)
          (.choice (.boolean true none) (.call (.ident "Г" none) [] none) (.number 1 none) none)
            none,
        .assign (.ident "У" none)
          (.binary .sub (.string "а" none) (.ident "Х" none) (some ⟨3, 5⟩)) none,
        .assign (.ident "З" none)
          (.binary .sub (.string "а" none) (.number 1 none) (some ⟨4, 5⟩)) none]
    Table.Beside Signature.Hides hidden known ∧
      (∀ e ∈ (p.blends "м" hidden).zip (p.blends "м" known), e.1.Faithful e.2) ∧
      (p.check "м" hidden).typeFindings = [(.operandType, some ⟨"м", 4, 5⟩)] ∧
      (p.check "м" known).typeFindings =
        [(.operandType, some ⟨"м", 3, 5⟩), (.operandType, some ⟨"м", 4, 5⟩)] ∧
      (p.check "м" hidden).typeFindings.Sublist (p.check "м" known).typeFindings := by
  have hhides := Signatures.hides_one (ω := Float) "Ф" (.primitive .number)
  refine (fun hblends => ⟨hhides, hblends, by decide +kernel, by decide +kernel,
    typeFindings_sublist _ _ _ _ hhides hblends⟩) ?_
  -- The returned value, the choice, and the two differences.
  refine List.forall_mem_cons.2 ⟨?_, List.forall_mem_cons.2 ⟨?_, List.forall_mem_cons.2 ⟨trivial,
    List.forall_mem_singleton.2 trivial⟩⟩⟩
  · exact .inr (.inl (List.forall_mem_singleton.2 trivial))
  · exact .inr (.inr ⟨.primitive .number,
      List.forall_mem_cons.2 ⟨⟨rfl, rfl⟩, List.forall_mem_singleton.2 ⟨rfl, rfl⟩⟩⟩)

/-- The guarantee fails where a hidden type is blended with another one. A choice between a hidden
string and a number is a number as far as is known, and assigning a string to it is reported; if the
string is seen, it is a union that accepts both. -/
theorem Program.not_typeFindings_subset :
    ¬ ∀ (file : Text) (hidden known : Signatures Float) (p : Program),
      Table.Beside Signature.Hides hidden known →
      ∀ finding ∈ (p.check file hidden).typeFindings,
        finding ∈ (p.check file known).typeFindings := by
  intro h
  have hnew := h "м" _ _
    [.assign (.ident "Х" none)
        (.choice (.boolean true none) (.call (.ident "Ф" none) [] none) (.number 1 none) none) none,
      .assign (.ident "Х" none) (.string "а" none) (some ⟨2, 1⟩)]
    (Signatures.hides_one "Ф" (.primitive .string)) (.reassignment, some ⟨"м", 2, 1⟩)
      (by decide +kernel)
  exact absurd hnew (by decide +kernel)

-- Neither does it hold for sums: a string is added to a hidden number, and the sum is taken for a
-- string.
example :
    let p : Program :=
      [.assign (.ident "Х" none)
        (.binary .add (.call (.ident "Ф" none) [] none) (.string "а" none) none) none,
        .assign (.ident "У" none)
          (.binary .sub (.ident "Х" none) (.number 1 none) (some ⟨2, 7⟩)) none]
    (p.check "м" (.one "Ф" (.unknown : Resolution Float))).typeFindings =
      [(.operandType, some ⟨"м", 2, 7⟩)] ∧
      (p.check "м" (.one "Ф" (.primitive .number : Resolution Float))).typeFindings = [] := by
  decide +kernel

end Gradual
