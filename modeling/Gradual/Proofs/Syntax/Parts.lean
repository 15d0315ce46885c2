import Gradual.Types.Narrowing

/-!
# Parts of statements

The statements that occur in a block at any depth, where the body of a declared routine is not
entered: it has variables and calls of its own. From its parts follow the names that a block assigns
and those that its conditions refine. Of expressions, all that occur at any depth are parts.
-/

namespace Gradual

/-! ## Expressions in expressions -/

mutual

/-- The expression and all expressions in it. -/
def Expr.nodes (e : Expr) : List Expr :=
  e :: match e with
    | .member object _ _ => object.nodes
    | .index object key _ => object.nodes ++ key.nodes
    | .call callee args _ => callee.nodes ++ Expr.nodesIn args
    | .new _ args _ => Expr.nodesIn args
    | .binary _ left right _ => left.nodes ++ right.nodes
    | .unary _ operand _ => operand.nodes
    | .choice condition whenTrue whenFalse _ => condition.nodes ++ whenTrue.nodes ++ whenFalse.nodes
    | .array elements _ => Expr.nodesIn elements
    | .record fields _ => Expr.nodesInFields fields
    | .number .. | .string .. | .boolean .. | .date .. | .undefined _ | .null _ | .ident .. => []

/-- All expressions in expressions. -/
def Expr.nodesIn : List Expr → List Expr
  | [] => []
  | e :: rest => e.nodes ++ Expr.nodesIn rest

/-- All expressions in the values of fields. -/
def Expr.nodesInFields : List (Text × Expr) → List Expr
  | [] => []
  | (_, e) :: rest => e.nodes ++ Expr.nodesInFields rest

end

/-- All expressions in an expression that may be absent. -/
def Expr.nodesInOption : Option Expr → List Expr
  | some e => e.nodes
  | none => []

/-! ## Statements in statements -/

mutual

/-- The statement and all statements in it, but none of those in a routine. -/
def Stmt.parts (s : Stmt) : List Stmt :=
  s :: match s with
    | .conditional _ body rest _ => Stmt.partsIn body ++ rest.parts
    | .forTo _ _ _ body _ | .forEach _ _ body _ | .whileDo _ body _ => Stmt.partsIn body
    | .attempt body handler _ => Stmt.partsIn body ++ Stmt.partsInHandler handler
    | .declare .. | .routine .. | .assign .. | .call .. | .ret .. | .raise .. | .brk _
    | .cont _ => []

/-- All statements in a block. -/
def Stmt.partsIn : List Stmt → List Stmt
  | [] => []
  | s :: rest => s.parts ++ Stmt.partsIn rest

/-- All statements in the handler of an attempt. -/
def Stmt.partsInHandler : Option (List Stmt) → List Stmt
  | some body => Stmt.partsIn body
  | none => []

/-- All statements in the other ways of a conditional. -/
def Alternative.parts : Alternative → List Stmt
  | .none => []
  | .otherwise body => Stmt.partsIn body
  | .elsif _ body rest => Stmt.partsIn body ++ rest.parts

end

/-! ## Names that statements touch -/

/-- A condition refines a variable. -/
def Narrowing.Refines (c : Expr) (x : Text) : Prop := ∃ fact, ofCondition c = some (x, fact)

/-- The conditions of the other ways of a conditional. -/
def Alternative.tests : Alternative → List Expr
  | .none | .otherwise _ => []
  | .elsif c _ rest => c :: rest.tests

namespace Stmt

/-- The conditions of a conditional, its own and those of its other ways. -/
def tests : Stmt → List Expr
  | .conditional c _ rest _ => c :: rest.tests
  | _ => []

/-- The expressions that stand in a statement itself and not in a statement in it. -/
def expressions : Stmt → List Expr
  | .declare _ _ value _ | .ret value _ | .raise value _ => value.toList
  | .assign target value _ => [target, value]
  | .call _ object args _ => object.toList ++ args
  | .conditional c _ rest _ => c :: rest.tests
  | .forTo _ first last _ _ => [first, last]
  | .forEach _ collection _ _ => [collection]
  | .whileDo c _ _ => [c]
  | .routine .. | .attempt .. | .brk _ | .cont _ => []

/-- The variable that a statement itself assigns: it declares it, assigns a value to it, or runs
through values with it. -/
def assignedName? : Stmt → Option Text
  | .declare name _ _ _ | .assign (.ident name _) _ _ | .forTo name _ _ _ _
  | .forEach name _ _ _ => some name
  | _ => none

/-- The variables that statements themselves assign. -/
def assignedNames (ss : List Stmt) : List Text := ss.filterMap assignedName?

/-- The variables that the conditions of conditionals refine. -/
def refinedNames (ss : List Stmt) : List Text :=
  (ss.flatMap tests).filterMap fun c => (Narrowing.ofCondition c).map Prod.fst

/-- A variable is assigned by one of the statements or refined by one of their conditions. -/
def Touched (ss : List Stmt) (x : Text) : Prop := x ∈ assignedNames ss ∨ x ∈ refinedNames ss

/-- A name is refined where some test refines it. -/
theorem mem_refinedNames {ss : List Stmt} {x : Text} :
    x ∈ refinedNames ss ↔ ∃ s ∈ ss, ∃ c ∈ s.tests, Narrowing.Refines c x := by
  have hname (c : Expr) : (Narrowing.ofCondition c).map Prod.fst = some x ↔
      Narrowing.Refines c x := by
    simp [Narrowing.Refines]
  simp only [refinedNames, List.mem_filterMap, List.mem_flatMap, hname]
  constructor
  · rintro ⟨c, ⟨s, hs, hc⟩, hr⟩
    exact ⟨s, hs, c, hc, hr⟩
  · rintro ⟨s, hs, c, hc, hr⟩
    exact ⟨c, ⟨s, hs, hc⟩, hr⟩

@[simp] theorem touched_nil (x : Text) :
    Touched [] x ↔ False := by simp [Touched, assignedNames, refinedNames]

/-- A statement touches what it assigns and what its tests refine. -/
@[simp] theorem touched_cons {s : Stmt} {ss : List Stmt} {x : Text} :
    Touched (s :: ss) x ↔
      (s.assignedName? = some x ∨ ∃ c ∈ s.tests, Narrowing.Refines c x) ∨ Touched ss x := by
  simp only [Touched, assignedNames, mem_refinedNames, List.mem_filterMap, List.mem_cons,
    exists_eq_or_imp]
  exact or_or_or_comm

@[simp] theorem touched_append {ss ts : List Stmt} {x : Text} :
    Touched (ss ++ ts) x ↔ Touched ss x ∨ Touched ts x := by
  simp only [Touched, assignedNames, refinedNames, List.filterMap_append, List.flatMap_append,
    List.mem_append]
  exact or_or_or_comm

end Stmt

end Gradual
