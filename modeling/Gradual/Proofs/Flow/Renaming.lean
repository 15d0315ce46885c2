import Gradual.Proofs.Flow.Alongside
import Gradual.Proofs.Flow.States
import Gradual.Proofs.Types.Sameness

/-!
# Walks up to the numbers of their states

A resolution remembers the state in which it was first held. When something is left out of a walk,
later states get other numbers, and nothing else changes: which of two resolutions are one and the
same is asked, but never where they come from. Two walks are therefore compared under a matching of
their states, one to one, that grows as both of them make new ones.

Main statement: `SameCourse.of_alongside`.
-/

namespace Gradual

variable {ω : Type}

/-! ## Matchings -/

/-- A one-to-one matching of the states of two walks. -/
structure Matching where
  rel : Nat → Nat → Prop
  left_unique : ∀ {i i' j : Nat}, rel i j → rel i' j → i = i'
  right_unique : ∀ {i j j' : Nat}, rel i j → rel i j' → j = j'

namespace Matching

/-- The matched states are among the first ones of the walks. -/
def Below (M : Matching) (m n : Nat) : Prop := ∀ i j, M.rel i j → i < m ∧ j < n

/-- The first states are matched with themselves. -/
def diagonal (n : Nat) : Matching where
  rel i j := i = j ∧ i < n
  left_unique h h' := h.1.trans h'.1.symm
  right_unique h h' := h.1.symm.trans h'.1

/-- The diagonal matches states that both walks have. -/
theorem below_diagonal {n m m' : Nat} (h : n ≤ m) (h' : n ≤ m') : (diagonal n).Below m m' := by
  rintro i j ⟨rfl, hi⟩
  exact ⟨Nat.lt_of_lt_of_le hi h, Nat.lt_of_lt_of_le hi h'⟩

/-- One more pair of states, behind all that are matched. -/
def push (M : Matching) {m n : Nat} (h : M.Below m n) : Matching where
  rel i j := M.rel i j ∨ i = m ∧ j = n
  left_unique := by
    -- A state that is matched already is not the new one.
    rintro i i' j (hij | ⟨rfl, rfl⟩) (hij' | ⟨rfl, hj⟩)
    · exact M.left_unique hij hij'
    · have hlt := (h i j hij).2
      omega
    · have hlt := (h i' j hij').2
      omega
    · rfl
  right_unique := by
    rintro i j j' (hij | ⟨rfl, rfl⟩) (hij' | ⟨hi, rfl⟩)
    · exact M.right_unique hij hij'
    · have hlt := (h i j hij).1
      omega
    · have hlt := (h i j' hij').1
      omega
    · rfl

/-- One more pair lies below one more state on each side. -/
theorem below_push (M : Matching) {m n : Nat} (h : M.Below m n) :
    (M.push h).Below (m + 1) (n + 1) := by
  rintro i j (hij | ⟨rfl, rfl⟩)
  · have hlt := h i j hij
    omega
  · omega

end Matching

/-! ## Renamed resolutions -/

/-- Origins that are the same up to the numbers of states. -/
inductive Origin.Matches (M : Matching) : Origin → Origin → Prop
  | held {i j : Nat} (name : Text) : M.rel i j → Matches M (.held i name) (.held j name)
  | other {o : Origin} : (∀ i name, o ≠ .held i name) → Matches M o o

namespace Origin.Matches

variable {M : Matching} {a a' b b' : Origin}

/-- Fresh origins match. -/
theorem fresh (M : Matching) : Origin.Matches M .fresh .fresh := .other fun _ _ h => nomatch h

/-- Origins that match do so under any larger matching. -/
theorem mono {N : Matching} (hMN : ∀ i j, M.rel i j → N.rel i j) (h : a.Matches M a') :
    a.Matches N a' := by
  cases h with
  | held name hij => exact .held name (hMN _ _ hij)
  | other ho => exact .other ho

/-- The same origins are shared, since the matching is one to one. -/
theorem eq_iff (ha : a.Matches M a') (hb : b.Matches M b') : a = b ↔ a' = b' := by
  cases ha with
  | held name hij =>
    cases hb with
    | held name' hij' =>
      constructor
      · intro heq
        cases heq
        rw [M.right_unique hij hij']
      · intro heq
        cases heq
        rw [M.left_unique hij hij']
    | other ho =>
      constructor
      · exact fun heq => absurd heq.symm (ho _ name)
      · exact fun heq => absurd heq.symm (ho _ name)
  | other ho =>
    cases hb with
    | held name' hij' =>
      constructor
      · exact fun heq => absurd heq (ho _ name')
      · exact fun heq => absurd heq (ho _ name')
    | other => rfl

end Origin.Matches

/-- Matching pairs recorded origins one to one. -/
theorem Origin.pairing_matches (M : Matching) : Origin.Pairing (Origin.Matches M) :=
  ⟨.fresh M, Origin.Matches.eq_iff⟩

namespace Resolution

/-- The same resolution, up to the number of the state where it was first held. -/
abbrev Renamed (M : Matching) (r r' : Resolution ω) : Prop := r.UpTo (Origin.Matches M) r'

/-- Renamed resolutions say the same. -/
theorem sameness_renamed (M : Matching) : Sameness (Renamed (ω := ω) M) :=
  sameness_upTo (Origin.pairing_matches M)

/-- Both walks record what is fresh in their new states. -/
theorem Renamed.recordAt {M N : Matching} {r r' : Resolution ω} (h : r.Renamed M r')
    (hMN : ∀ i j, M.rel i j → N.rel i j) {m n : Nat} (hmn : N.rel m n) (name : Text) :
    (r.recordAt (.held m name)).Renamed N (r'.recordAt (.held n name)) :=
  UpTo.recordAt (Origin.pairing_matches M) h (fun _ _ ho => ho.mono hMN) (.held name hmn)

end Resolution

/-- Two walks that differ in the numbers of their states only. Every blend keeps this. -/
def Comparison.renaming (ω : Type) [Weight ω] : Comparison ω where
  World := Matching
  le M N := ∀ i j, M.rel i j → N.rel i j
  reached := Matching.Below
  rel := Resolution.Renamed
  keeps _ _ := True
  le_refl _ _ _ h := h
  le_trans h h' i j hij := h' i j (h i j hij)
  rel_mono hle h := ⟨h.unrecorded_eq, h.origin.mono hle⟩
  rel_fresh M _ h := (Resolution.sameness_renamed M).fresh h
  rel_enter {M _ _} h := ⟨M.push h, fun _ _ => Or.inl, M.below_push h,
    fun _ _ name hrs => hrs.recordAt (fun _ _ => Or.inl) (Or.inr ⟨rfl, rfl⟩) name⟩
  rel_ofBinary {M op} _ _ _ _ hl hr _ := (Resolution.sameness_renamed M).ofBinary op hl hr
  rel_ofUnary {M op} _ _ h := (Resolution.sameness_renamed M).ofUnary op h
  rel_choose {M} _ _ _ _ ha hb _ := (Resolution.sameness_renamed M).choose ha hb
  rel_resultOf {M} _ _ _ _ _ hf h := (Resolution.sameness_renamed M).resultOf hf h
  rel_join {M} _ _ h _ name :=
    (Resolution.sameness_renamed M).join (Variables.forall₂_filterMap_get? h name)
  rel_returned {M} _ _ h _ := (Resolution.sameness_renamed M).join h

/-! ## Founded walks -/

/-- Not first held in a state that is still to come. -/
def Origin.Before (n : Nat) : Origin → Prop
  | .held i _ => i < n
  | _ => True

/-- What was held before a state was held before all later ones. -/
theorem Origin.Before.mono {o : Origin} {m n : Nat} (h : o.Before m) (hmn : m ≤ n) :
    o.Before n := by
  cases o with
  | held i name => exact Nat.lt_of_lt_of_le h hmn
  | _ => trivial

/-- What was held in the first states is its own renaming on the diagonal. -/
theorem Resolution.renamed_self {r : Resolution ω} {n : Nat} (h : r.origin.Before n) :
    r.Renamed (.diagonal n) r := by
  refine ⟨rfl, ?_⟩
  cases ho : r.origin with
  | held i name =>
    rw [ho] at h
    exact .held name ⟨rfl, h⟩
  | _ => exact .other fun _ _ h => nomatch h

/-- What a matching below a state renames was held before that state. -/
theorem Resolution.Renamed.before {M : Matching} {r r' : Resolution ω} {m n : Nat}
    (h : r.Renamed M r') (hM : M.Below m n) : r.origin.Before m := by
  have horigin := h.origin
  generalize r.origin = a, r'.origin = a' at horigin
  cases horigin with
  | held name hij => exact (hM _ _ hij).1
  | other ho =>
    cases a with
    | held i name => exact absurd rfl (ho i name)
    | _ => trivial

/-- Types that do not come from states still to come. -/
structure Signature.Before (n : Nat) (s : Signature ω) : Prop where
  params : ∀ p ∈ s.params, p.type.origin.Before n
  returns : s.returns.origin.Before n

theorem Signature.Before.mono {s : Signature ω} {m n : Nat} (h : s.Before m) (hmn : m ≤ n) :
    s.Before n :=
  ⟨fun p hp => (h.params p hp).mono hmn, h.returns.mono hmn⟩

namespace Flow

/-- The walk is well formed, and what it knows was first held in states that it has made, or outside
of it. -/
structure Founded (f : Flow ω) : Prop where
  wellFormed : f.WellFormed
  vars : f.current.vars.All fun _ r => r.origin.Before f.states.size
  functions : f.context.functions.All fun _ s => s.Before f.states.size

/-- A walk in a context that comes from outside is founded. -/
theorem founded_start {context : Context ω} (hvars : context.vars.All fun _ r => r.origin.Before 0)
    (hfunctions : context.functions.All fun _ s => s.Before 0) : (start context).Founded := by
  refine ⟨wellFormed_start context, ?_, ?_⟩
  · refine hvars.map fun name r hr => ?_
    unfold Resolution.recordAt
    split
    · exact Nat.zero_lt_one
    · exact hr.mono (Nat.zero_le 1)
  · exact fun name s hs => (hfunctions name s hs).mono (Nat.zero_le 1)

/-- A context whose signatures were held in the first states lies beside itself. -/
theorem beside_context {c : Context ω} {n : Nat} (h : c.functions.All fun _ s => s.Before n) :
    c.Beside (Resolution.Renamed (.diagonal n)) c := by
  refine ⟨.refl fun name s hs => ?_, rfl, rfl⟩
  have hbefore := h name s hs
  exact ⟨List.forall₂_same.2 fun p hp => Resolution.renamed_self (hbefore.params p hp),
    Resolution.renamed_self hbefore.returns⟩

variable [Weight ω]

/-- A founded walk goes along with itself. -/
theorem Founded.alongside {f : Flow ω} (h : f.Founded) :
    Alongside (.renaming ω) (.diagonal f.states.size) f f f f :=
  ⟨Matching.below_diagonal (Nat.le_refl _) (Nat.le_refl _),
    .refl fun x r hr => Resolution.renamed_self (h.vars x r hr), beside_context h.functions,
    .refl _ _, .refl _ _⟩

/-- What goes along with another walk is founded: a matching knows no states that are not made. -/
theorem Alongside.founded {M : Matching} {f₀ g₀ f g : Flow ω}
    (h : Alongside (.renaming ω) M f₀ g₀ f g) (hf : f.WellFormed) : f.Founded := by
  have hsize : M.Below f.states.size g.states.size := h.size
  refine ⟨hf, ?_, ?_⟩
  · intro x r hr
    obtain ⟨r', -, hrs⟩ := h.vars.exists_of_get? hr
    exact hrs.before hsize
  · intro name s hs
    obtain ⟨s', -, hrs⟩ := h.context.functions.exists_of_get? hs
    refine ⟨?_, hrs.returns.before hsize⟩
    intro p hp
    obtain ⟨i, hi, rfl⟩ := List.mem_iff_getElem.1 hp
    have hp' := hrs.params.get hi (hrs.params.length_eq ▸ hi)
    exact hp'.before hsize

/-- A walk that starts again from where two walks have come. -/
theorem Alongside.restart {C : Comparison ω} {w : C.World} {f₀ g₀ f g : Flow ω}
    (h : Alongside C w f₀ g₀ f g) :
    Alongside C w f g f g := ⟨h.size, h.vars, h.context, .refl _ _, .refl _ _⟩

/-- No blend can part walks that differ in the numbers of their states. -/
theorem passes_renaming (k k' : List (Blend ω)) : (Comparison.renaming ω).Passes k k' :=
  fun _ _ => trivial

end Flow

/-! ## What can be seen of a walk -/

/-- The variables without the origins of their types. -/
def Variables.unrecorded (vs : Variables ω) : Variables ω := vs.map fun _ r => r.unrecorded

/-- An event without the origins of its types. -/
def FlowEvent.unrecorded : FlowEvent ω → FlowEvent ω
  | .operator operation operands loc => .operator operation (operands.map Resolution.unrecorded) loc
  | .condition c type => .condition c type.unrecorded
  | .assignment name previous next loc =>
    .assignment name (previous.map Resolution.unrecorded) next.unrecorded loc
  | .undeclared name loc => .undeclared name loc
  | .call name count loc => .call name count loc

/-- What a state says: its variables and its scope, but neither its number nor those of the states
before it. -/
def FlowState.unnumbered (s : FlowState ω) : Variables ω × Scope := (s.vars.unrecorded, s.scope)

namespace Flow

/-- The events that a walk told about since it was at a point. -/
def toldSince (f g : Flow ω) : List (FlowEvent ω) := g.events.toList.drop f.events.size

/-- The states that a walk made since it was at a point. -/
def madeSince (f g : Flow ω) : List (FlowState ω) := g.states.toList.drop f.states.size

/-- A walk from `f` to `f'` and one from `g` to `g'` tell about the same events, make states with
the same variables and end with the same ones. Only the numbers of states differ. -/
structure SameCourse (f f' g g' : Flow ω) : Prop where
  events : (f.toldSince f').map FlowEvent.unrecorded = (g.toldSince g').map FlowEvent.unrecorded
  states : (f.madeSince f').map FlowState.unnumbered = (g.madeSince g').map FlowState.unnumbered
  vars : f'.current.vars.unrecorded = g'.current.vars.unrecorded

end Flow

variable {M : Matching}

/-- Renamed variables are the same without their origins. -/
theorem Variables.unrecorded_eq {vs vs' : Variables ω}
    (h : Table.Beside (Resolution.Renamed M) vs vs') :
    vs.unrecorded = vs'.unrecorded := (h.map fun _ _ _ hr => hr.unrecorded_eq).eq

theorem FlowEvent.Beside.unrecorded_eq {e e' : FlowEvent ω}
    (h : e.Beside (Resolution.Renamed M) e') :
    e.unrecorded = e'.unrecorded := by
  cases h with
  | undeclared => rfl
  | call => rfl
  | operator operation loc hos =>
    rw [FlowEvent.unrecorded, FlowEvent.unrecorded,
      map_eq_map_of_forall₂ (fun _ _ hr => hr.unrecorded_eq) hos]
  | condition c ht => rw [FlowEvent.unrecorded, FlowEvent.unrecorded, ht.unrecorded_eq]
  | assignment name loc hprev hnext =>
    rw [FlowEvent.unrecorded, FlowEvent.unrecorded, hnext.unrecorded_eq]
    cases hprev with
    | some hr => rw [Option.map_some, Option.map_some, hr.unrecorded_eq]
    | none => rfl

theorem FlowState.Beside.unnumbered_eq {s s' : FlowState ω}
    (h : s.Beside (Resolution.Renamed M) s') :
    s.unnumbered = s'.unnumbered := by
  rw [FlowState.unnumbered, FlowState.unnumbered, Variables.unrecorded_eq h.vars, h.scope]

/-- Walks side by side, up to the numbers of states, take the same course. -/
theorem Flow.SameCourse.of_alongside [Weight ω] {f₀ g₀ f g : Flow ω}
    (h : Alongside (.renaming ω) M f₀ g₀ f g) : SameCourse f₀ f g₀ g :=
  ⟨map_eq_map_of_forall₂ (fun _ _ he => he.unrecorded_eq) h.events.drop,
    map_eq_map_of_forall₂ (fun _ _ hs => hs.unnumbered_eq) h.states.drop,
    Variables.unrecorded_eq h.vars⟩

end Gradual
