import Gradual.Proofs.Flow.Alongside

/-!
# Failing conditions

Where a condition fails, its negation holds. What a failing condition says about the variables is
made from what it says when it holds, fact by fact; the refined types are made anew.

Main statement: `Narrowing.negation_refines`. For the conditions that narrowing knows, what the
failing condition says is what its negation says, so that the way on which a condition fails starts
as the way on which its negation holds.
-/

namespace Gradual

/-- The second condition is the negation of the first one: one is an equation and the other the
inequation of the same sides, or one is a variable and the other denies it. -/
inductive Expr.Negates : Expr → Expr → Prop where
  | eq (left right : Expr) (p q : Option Position) : Negates (.binary .eq left right p)
    (.binary .ne left right q)
  | ne (left right : Expr) (p q : Option Position) : Negates (.binary .ne left right p)
    (.binary .eq left right q)
  | ident (x : Text) (p q r : Option Position) : Negates (.ident x p) (.unary .not (.ident x q) r)
  | not (x : Text) (p q r : Option Position) : Negates (.unary .not (.ident x p) q) (.ident x r)

namespace Fact

@[simp] theorem complement_complement (fact : Fact) : fact.complement.complement = fact := by
  cases fact <;> rfl

theorem signed_not (positive : Bool) (fact : Fact) :
    signed (!positive) fact = (signed positive fact).complement := by
  cases positive <;> simp [signed]

end Fact

namespace Narrowing

/-! ## Facts of negations -/

/-- Both sides decide which variable is tested and how; the sign only turns the fact around. -/
theorem ofEquation_not (positive : Bool) (left right : Expr) :
    ofEquation (!positive) left right =
      (ofEquation positive left right).map (Prod.map id Fact.complement) := by
  unfold ofEquation
  simp only [Fact.signed_not]
  split
  · split
    · split <;> rfl
    · rfl
  · split
    · split
      · rfl
      · split <;> rfl
    · rfl

/-- What the negation of a condition says is the complement of what the condition says. -/
theorem ofCondition_of_negates {c c' : Expr} (h : c.Negates c') :
    ofCondition c' = (ofCondition c).map (Prod.map id Fact.complement) := by
  cases h with
  | eq left right p q => exact ofEquation_not true left right
  | ne left right p q => exact ofEquation_not false left right
  | ident x p q r => rfl
  | not x p q r => rfl

variable {ω : Type} [Weight ω]

/-! ## Refinements of failing conditions -/

/-- What the failure of a condition says is the complement of what it says. -/
theorem invert_refinements (vars : Variables ω) (c : Expr) :
    invert vars (refinements vars c) = (ofCondition c).toList.map fun r =>
      refinement vars r.1 r.2.complement := by
  rw [invert, refinements, List.map_map]
  rfl

/-- A condition that fails to fail holds: the types come out as they were, as they depend on the
variables and the fact only. -/
theorem invert_invert_refinements (vars : Variables ω) (c : Expr) :
    invert vars (invert vars (refinements vars c)) = refinements vars c := by
  rw [invert_refinements, invert, refinements, List.map_map]
  refine List.map_congr_left fun r _ => ?_
  show refinement vars r.1 r.2.complement.complement = refinement vars r.1 r.2
  rw [Fact.complement_complement]

/-- A negated condition refines as the condition does when it fails. -/
theorem refinements_of_negates (vars : Variables ω) {c c' : Expr} (h : c.Negates c') :
    refinements vars c' = invert vars (refinements vars c) := by
  rw [invert_refinements, refinements, ofCondition_of_negates h]
  cases ofCondition c <;> rfl

/-- **Narrowing respects complement.** The negation of a condition refines the variables as the
failing condition does, and the failure of that failure refines them as the condition itself does.
So the way on which the negation holds is entered with the variables of the way on which the
condition fails. -/
theorem negation_refines {c c' : Expr} (h : c.Negates c') (vars : Variables ω) (f : Flow ω) :
    refinements vars c' = invert vars (refinements vars c) ∧
      invert vars (invert vars (refinements vars c)) = refinements vars c ∧
      f.whenHolds c' = (f.condition c').enter (f.whenFails c) [f.current.id] ∧
      f.whenFails c' = apply f.current.vars (refinements f.current.vars c) := by
  refine ⟨refinements_of_negates vars h, invert_invert_refinements vars c, ?_, ?_⟩
  · rw [Flow.whenHolds, refinements_of_negates f.current.vars h, Flow.whenFails]
  · rw [Flow.whenFails, refinements_of_negates f.current.vars h, invert_invert_refinements]

/-- `TypeOf(x) = Type("Date")` and `TypeOf(x) <> Type("Date")`, for a variable without a type. -/
theorem negation_refines_typeTest :
    ∃ (c c' : Expr) (vars : Variables Float) (f : Flow Float),
      c = .binary .eq (.call (.ident "TypeOf" none) [.ident "x" none] none)
        (.call (.ident "Type" none) [.string "Date" none] none) none ∧
      c' = .binary .ne (.call (.ident "TypeOf" none) [.ident "x" none] none)
        (.call (.ident "Type" none) [.string "Date" none] none) none ∧
      vars = .empty ∧ f = .start (.make .global .empty) ∧
      ofCondition c = some (("x" : Text), .hasType "Date") ∧ c.Negates c' ∧
      refinements vars c' = invert vars (refinements vars c) ∧
      invert vars (invert vars (refinements vars c)) = refinements vars c ∧
      f.whenHolds c' = (f.condition c').enter (f.whenFails c) [f.current.id] ∧
      f.whenFails c' = apply f.current.vars (refinements f.current.vars c) :=
  ⟨_, _, _, _, rfl, rfl, rfl, rfl, by decide +kernel, .eq _ _ _ _,
    negation_refines (.eq _ _ _ _) _ _⟩

end Narrowing

end Gradual
