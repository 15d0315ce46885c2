import Gradual.Proofs.Syntax.Printer

/-!
# Trees at other positions

A tree with every position moved by a map. It is the same tree apart from its positions, and moving
nothing changes nothing.
-/

namespace Gradual

section

variable (f : Position → Position)

/-! ## Moving -/

mutual

/-- The expression with its positions moved. -/
def Expr.relocated : Expr → Expr
  | .number v l => .number v (l.map f)
  | .string value l => .string value (l.map f)
  | .boolean b l => .boolean b (l.map f)
  | .date value l => .date value (l.map f)
  | .undefined l => .undefined (l.map f)
  | .null l => .null (l.map f)
  | .ident name l => .ident name (l.map f)
  | .member e name l => .member e.relocated name (l.map f)
  | .index e key l => .index e.relocated key.relocated (l.map f)
  | .call e args l => .call e.relocated (Expr.relocatedAll args) (l.map f)
  | .new name args l => .new name (Expr.relocatedAll args) (l.map f)
  | .binary op left right l => .binary op left.relocated right.relocated (l.map f)
  | .unary op e l => .unary op e.relocated (l.map f)
  | .choice condition whenTrue whenFalse l =>
    .choice condition.relocated whenTrue.relocated whenFalse.relocated (l.map f)
  | .array elements l => .array (Expr.relocatedAll elements) (l.map f)
  | .record fields l => .record (Expr.relocatedFields fields) (l.map f)

/-- The expressions with their positions moved. -/
def Expr.relocatedAll : List Expr → List Expr
  | [] => []
  | e :: rest => e.relocated :: Expr.relocatedAll rest

/-- The fields with the positions of their values moved. -/
def Expr.relocatedFields : List (Text × Expr) → List (Text × Expr)
  | [] => []
  | (name, e) :: rest => (name, e.relocated) :: Expr.relocatedFields rest

end

/-- The parameter with the positions of its default value moved. -/
def Param.relocated (p : Param) : Param := { p with default? := p.default?.map (Expr.relocated f) }

mutual

/-- The statement with its positions moved. -/
def Stmt.relocated : Stmt → Stmt
  | .declare name exported v l => .declare name exported (v.map (Expr.relocated f)) (l.map f)
  | .routine kind name params body exported l =>
    .routine kind name (params.map (Param.relocated f)) (Stmt.relocatedAll body) exported (l.map f)
  | .assign target v l => .assign (target.relocated f) (v.relocated f) (l.map f)
  | .call name object args l =>
    .call name (object.map (Expr.relocated f)) (Expr.relocatedAll f args) (l.map f)
  | .conditional c body rest l =>
    .conditional (c.relocated f) (Stmt.relocatedAll body) rest.relocated (l.map f)
  | .forTo name first last body l =>
    .forTo name (first.relocated f) (last.relocated f) (Stmt.relocatedAll body) (l.map f)
  | .forEach name collection body l =>
    .forEach name (collection.relocated f) (Stmt.relocatedAll body) (l.map f)
  | .whileDo c body l => .whileDo (c.relocated f) (Stmt.relocatedAll body) (l.map f)
  | .ret v l => .ret (v.map (Expr.relocated f)) (l.map f)
  | .brk l => .brk (l.map f)
  | .cont l => .cont (l.map f)
  | .attempt body none l => .attempt (Stmt.relocatedAll body) none (l.map f)
  | .attempt body (some handler) l =>
    .attempt (Stmt.relocatedAll body) (some (Stmt.relocatedAll handler)) (l.map f)
  | .raise v l => .raise (v.map (Expr.relocated f)) (l.map f)

/-- The statements with their positions moved. -/
def Stmt.relocatedAll : List Stmt → List Stmt
  | [] => []
  | s :: rest => s.relocated :: Stmt.relocatedAll rest

/-- The chain with its positions moved. -/
def Alternative.relocated : Alternative → Alternative
  | .none => .none
  | .otherwise body => .otherwise (Stmt.relocatedAll body)
  | .elsif c body rest => .elsif (c.relocated f) (Stmt.relocatedAll body) rest.relocated

end

/-- Statements are moved one by one. -/
theorem Stmt.relocatedAll_append (xs ys : List Stmt) :
    Stmt.relocatedAll f (xs ++ ys) = Stmt.relocatedAll f xs ++ Stmt.relocatedAll f ys := by
  induction xs with
  | nil => rfl
  | cons s xs ih =>
    rw [List.cons_append, Stmt.relocatedAll, Stmt.relocatedAll, ih, List.cons_append]

/-! ## What does not depend on positions -/

/-- A moved expression stands where its position is moved to. -/
@[simp] theorem Expr.loc_relocated (e : Expr) : (e.relocated f).loc = e.loc.map f := by
  cases e <;> rfl

/-- Moving does not change whether something can be assigned to. -/
@[simp] theorem Expr.isTarget_relocated (e : Expr) : (e.relocated f).isTarget = e.isTarget := by
  cases e <;> rfl

/-- The call that an access makes is moved with the access. -/
theorem Parser.callStatement?_relocated (p : Position) (e : Expr) :
    callStatement? (f p) (e.relocated f) = (callStatement? p e).map (Stmt.relocated f) := by
  cases e with
  | call callee args l => cases callee <;> rfl
  | _ => rfl

mutual

/-- A moved expression is the same up to positions. -/
theorem Expr.unlocated_relocated : ∀ e : Expr, (e.relocated f).unlocated = e.unlocated
  | .number .. | .string .. | .boolean .. | .date .. | .undefined _ | .null _ | .ident .. => rfl
  | .member e name l => by
    rw [Expr.relocated, Expr.unlocated, Expr.unlocated_relocated e, Expr.unlocated]
  | .index e key l => by
    rw [Expr.relocated, Expr.unlocated, Expr.unlocated_relocated e, Expr.unlocated_relocated key,
      Expr.unlocated]
  | .call e args l => by
    rw [Expr.relocated, Expr.unlocated, Expr.unlocated_relocated e,
      Expr.unlocatedAll_relocatedAll args, Expr.unlocated]
  | .new name args l => by
    rw [Expr.relocated, Expr.unlocated, Expr.unlocatedAll_relocatedAll args, Expr.unlocated]
  | .binary op left right l => by
    rw [Expr.relocated, Expr.unlocated, Expr.unlocated_relocated left,
      Expr.unlocated_relocated right, Expr.unlocated]
  | .unary op e l => by
    rw [Expr.relocated, Expr.unlocated, Expr.unlocated_relocated e, Expr.unlocated]
  | .choice c t e l => by
    rw [Expr.relocated, Expr.unlocated, Expr.unlocated_relocated c, Expr.unlocated_relocated t,
      Expr.unlocated_relocated e, Expr.unlocated]
  | .array elements l => by
    rw [Expr.relocated, Expr.unlocated, Expr.unlocatedAll_relocatedAll elements, Expr.unlocated]
  | .record fields l => by
    rw [Expr.relocated, Expr.unlocated, Expr.unlocatedFields_relocatedFields fields, Expr.unlocated]

theorem Expr.unlocatedAll_relocatedAll : ∀ es : List Expr,
    Expr.unlocatedAll (Expr.relocatedAll f es) = Expr.unlocatedAll es
  | [] => rfl
  | e :: es => by
    rw [Expr.relocatedAll, Expr.unlocatedAll, Expr.unlocated_relocated e,
      Expr.unlocatedAll_relocatedAll es, Expr.unlocatedAll]

theorem Expr.unlocatedFields_relocatedFields : ∀ es : List (Text × Expr),
    Expr.unlocatedFields (Expr.relocatedFields f es) = Expr.unlocatedFields es
  | [] => rfl
  | (name, e) :: es => by
    rw [Expr.relocatedFields, Expr.unlocatedFields, Expr.unlocated_relocated e,
      Expr.unlocatedFields_relocatedFields es, Expr.unlocatedFields]

end

theorem Expr.unlocated_map_relocated (v : Option Expr) :
    (v.map (Expr.relocated f)).map Expr.unlocated = v.map Expr.unlocated := by
  cases v with
  | none => rfl
  | some e => rw [Option.map_some, Option.map_some, Expr.unlocated_relocated, Option.map_some]

/-- A moved parameter is the same up to positions. -/
theorem Param.unlocated_relocated (p : Param) : (p.relocated f).unlocated = p.unlocated := by
  unfold Param.relocated Param.unlocated
  rw [Expr.unlocated_map_relocated]

theorem Param.map_unlocated_relocated (ps : List Param) :
    (ps.map (Param.relocated f)).map Param.unlocated = ps.map Param.unlocated := by
  rw [List.map_map]
  apply List.map_congr_left
  intro p _
  exact Param.unlocated_relocated f p

mutual

/-- A moved statement is the same up to positions. -/
theorem Stmt.unlocated_relocated : ∀ s : Stmt, (s.relocated f).unlocated = s.unlocated
  | .declare name exported v l => by
    rw [Stmt.relocated, Stmt.unlocated, Expr.unlocated_map_relocated, Stmt.unlocated]
  | .routine kind name params body exported l => by
    rw [Stmt.relocated, Stmt.unlocated, Param.map_unlocated_relocated,
      Stmt.unlocatedAll_relocatedAll body, Stmt.unlocated]
  | .assign target v l => by
    rw [Stmt.relocated, Stmt.unlocated, Expr.unlocated_relocated, Expr.unlocated_relocated,
      Stmt.unlocated]
  | .call name object args l => by
    rw [Stmt.relocated, Stmt.unlocated, Expr.unlocated_map_relocated, ← Expr.unlocatedAll_eq_map,
      Expr.unlocatedAll_relocatedAll, Expr.unlocatedAll_eq_map, Stmt.unlocated]
  | .conditional c body rest l => by
    rw [Stmt.relocated, Stmt.unlocated, Expr.unlocated_relocated,
      Stmt.unlocatedAll_relocatedAll body, Alternative.unlocated_relocated rest, Stmt.unlocated]
  | .forTo name first last body l => by
    rw [Stmt.relocated, Stmt.unlocated, Expr.unlocated_relocated, Expr.unlocated_relocated,
      Stmt.unlocatedAll_relocatedAll body, Stmt.unlocated]
  | .forEach name collection body l => by
    rw [Stmt.relocated, Stmt.unlocated, Expr.unlocated_relocated,
      Stmt.unlocatedAll_relocatedAll body, Stmt.unlocated]
  | .whileDo c body l => by
    rw [Stmt.relocated, Stmt.unlocated, Expr.unlocated_relocated,
      Stmt.unlocatedAll_relocatedAll body, Stmt.unlocated]
  | .ret v l => by
    rw [Stmt.relocated, Stmt.unlocated, Expr.unlocated_map_relocated, Stmt.unlocated]
  | .brk _ | .cont _ => rfl
  | .attempt body none l => by
    rw [Stmt.relocated, Stmt.unlocated, Stmt.unlocatedAll_relocatedAll body, Stmt.unlocated]
  | .attempt body (some handler) l => by
    rw [Stmt.relocated, Stmt.unlocated, Stmt.unlocatedAll_relocatedAll body,
      Stmt.unlocatedAll_relocatedAll handler, Stmt.unlocated]
  | .raise v l => by
    rw [Stmt.relocated, Stmt.unlocated, Expr.unlocated_map_relocated, Stmt.unlocated]

theorem Stmt.unlocatedAll_relocatedAll : ∀ ss : List Stmt,
    Stmt.unlocatedAll (Stmt.relocatedAll f ss) = Stmt.unlocatedAll ss
  | [] => rfl
  | s :: ss => by
    rw [Stmt.relocatedAll, Stmt.unlocatedAll, Stmt.unlocated_relocated s,
      Stmt.unlocatedAll_relocatedAll ss, Stmt.unlocatedAll]

theorem Alternative.unlocated_relocated : ∀ a : Alternative, (a.relocated f).unlocated = a.unlocated
  | .none => rfl
  | .otherwise body => by
    rw [Alternative.relocated, Alternative.unlocated, Stmt.unlocatedAll_relocatedAll body,
      Alternative.unlocated]
  | .elsif c body rest => by
    rw [Alternative.relocated, Alternative.unlocated, Expr.unlocated_relocated,
      Stmt.unlocatedAll_relocatedAll body,
      Alternative.unlocated_relocated rest, Alternative.unlocated]

end

end

/-! ## Moving nothing -/

mutual

/-- An expression that is not moved is the same. -/
theorem Expr.relocated_id : ∀ e : Expr, e.relocated id = e
  | .number _ l | .string _ l | .boolean _ l | .date _ l | .undefined l | .null l | .ident _ l => by
    rw [Expr.relocated, Option.map_id, id]
  | .member e name l => by
    rw [Expr.relocated, Expr.relocated_id e, Option.map_id, id]
  | .index e key l => by
    rw [Expr.relocated, Expr.relocated_id e, Expr.relocated_id key, Option.map_id, id]
  | .call e args l => by
    rw [Expr.relocated, Expr.relocated_id e, Expr.relocatedAll_id args, Option.map_id, id]
  | .new name args l => by
    rw [Expr.relocated, Expr.relocatedAll_id args, Option.map_id, id]
  | .binary op left right l => by
    rw [Expr.relocated, Expr.relocated_id left, Expr.relocated_id right, Option.map_id, id]
  | .unary op e l => by
    rw [Expr.relocated, Expr.relocated_id e, Option.map_id, id]
  | .choice c t e l => by
    rw [Expr.relocated, Expr.relocated_id c, Expr.relocated_id t, Expr.relocated_id e,
      Option.map_id, id]
  | .array elements l => by
    rw [Expr.relocated, Expr.relocatedAll_id elements, Option.map_id, id]
  | .record fields l => by
    rw [Expr.relocated, Expr.relocatedFields_id fields, Option.map_id, id]

theorem Expr.relocatedAll_id : ∀ es : List Expr, Expr.relocatedAll id es = es
  | [] => rfl
  | e :: es => by rw [Expr.relocatedAll, Expr.relocated_id e, Expr.relocatedAll_id es]

theorem Expr.relocatedFields_id : ∀ es : List (Text × Expr), Expr.relocatedFields id es = es
  | [] => rfl
  | (name, e) :: es => by rw [Expr.relocatedFields, Expr.relocated_id e, Expr.relocatedFields_id es]

end

theorem Expr.map_relocated_id (v : Option Expr) : v.map (Expr.relocated id) = v := by
  cases v with
  | none => rfl
  | some e => rw [Option.map_some, Expr.relocated_id]

theorem Param.map_relocated_id (ps : List Param) : ps.map (Param.relocated id) = ps := by
  induction ps with
  | nil => rfl
  | cons p ps ih => rw [List.map_cons, ih, Param.relocated, Expr.map_relocated_id]

mutual

/-- A statement that is not moved is the same. -/
theorem Stmt.relocated_id : ∀ s : Stmt, s.relocated id = s
  | .declare name exported v l => by rw [Stmt.relocated, Expr.map_relocated_id, Option.map_id, id]
  | .routine kind name params body exported l => by
    rw [Stmt.relocated, Param.map_relocated_id, Stmt.relocatedAll_id body, Option.map_id, id]
  | .assign target v l => by rw [Stmt.relocated, Expr.relocated_id, Expr.relocated_id,
      Option.map_id, id]
  | .call name object args l => by
    rw [Stmt.relocated, Expr.map_relocated_id, Expr.relocatedAll_id, Option.map_id, id]
  | .conditional c body rest l => by
    rw [Stmt.relocated, Expr.relocated_id, Stmt.relocatedAll_id body, Alternative.relocated_id rest,
      Option.map_id, id]
  | .forTo name first last body l => by
    rw [Stmt.relocated, Expr.relocated_id, Expr.relocated_id, Stmt.relocatedAll_id body,
      Option.map_id, id]
  | .forEach name collection body l => by
    rw [Stmt.relocated, Expr.relocated_id, Stmt.relocatedAll_id body, Option.map_id, id]
  | .whileDo c body l => by rw [Stmt.relocated, Expr.relocated_id, Stmt.relocatedAll_id body,
      Option.map_id, id]
  | .ret v l => by rw [Stmt.relocated, Expr.map_relocated_id, Option.map_id, id]
  | .brk l | .cont l => by rw [Stmt.relocated, Option.map_id, id]
  | .attempt body none l => by rw [Stmt.relocated, Stmt.relocatedAll_id body, Option.map_id, id]
  | .attempt body (some handler) l => by
    rw [Stmt.relocated, Stmt.relocatedAll_id body, Stmt.relocatedAll_id handler, Option.map_id, id]
  | .raise v l => by rw [Stmt.relocated, Expr.map_relocated_id, Option.map_id, id]

theorem Stmt.relocatedAll_id : ∀ ss : List Stmt, Stmt.relocatedAll id ss = ss
  | [] => rfl
  | s :: ss => by rw [Stmt.relocatedAll, Stmt.relocated_id s, Stmt.relocatedAll_id ss]

theorem Alternative.relocated_id : ∀ a : Alternative, a.relocated id = a
  | .none => rfl
  | .otherwise body => by rw [Alternative.relocated, Stmt.relocatedAll_id body]
  | .elsif c body rest => by
    rw [Alternative.relocated, Expr.relocated_id, Stmt.relocatedAll_id body,
      Alternative.relocated_id rest]

end

end Gradual
