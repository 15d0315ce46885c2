import Gradual.Proofs.Check.Guarantee

/-!
# Chains of conditions are nested conditionals

A conditional may try one condition after another. Such a chain means the same as conditionals
inside of each other: whatever is tried after a condition fails stands alone in an unconditional
block. The two are walked through by different clauses, one that goes on along the chain and one
that enters a block, and still they make the same states with the same numbers, join the same states
and tell about the same events in the same order.

The signatures of routines are read off in another way: there the ends of all branches of a chain
are joined at once, with equal shares. So a check finds the same only if it works with the same
signatures.

Main statement: `Program.check_unchained`.
-/

namespace Gradual

variable {ω : Type}

/-! ## Taking chains apart -/

section

variable (place : Expr → Option Position)

mutual

/-- A statement in which, at any depth, every further condition of a conditional is a conditional of
its own, alone in an unconditional block. `place` says where it stands. -/
def Stmt.unchained : Stmt → Stmt
  | .routine kind name params body exported loc =>
    .routine kind name params (Stmt.unchainedIn body) exported loc
  | .conditional c body rest loc => .conditional c (Stmt.unchainedIn body) rest.unchained loc
  | .forTo name first last body loc => .forTo name first last (Stmt.unchainedIn body) loc
  | .forEach name collection body loc => .forEach name collection (Stmt.unchainedIn body) loc
  | .whileDo c body loc => .whileDo c (Stmt.unchainedIn body) loc
  | .attempt body handler loc =>
    .attempt (Stmt.unchainedIn body) (Stmt.unchainedInHandler handler) loc
  | s => s

/-- A block with its chains taken apart. -/
def Stmt.unchainedIn : List Stmt → List Stmt
  | [] => []
  | s :: rest => s.unchained :: Stmt.unchainedIn rest

/-- A handler with its chains taken apart. -/
def Stmt.unchainedInHandler : Option (List Stmt) → Option (List Stmt)
  | none => none
  | some body => some (Stmt.unchainedIn body)

/-- What is tried after a condition fails, with its chain taken apart. -/
def Alternative.unchained : Alternative → Alternative
  | .none => .none
  | .otherwise body => .otherwise (Stmt.unchainedIn body)
  | .elsif c body rest =>
    .otherwise [.conditional c (Stmt.unchainedIn body) rest.unchained (place c)]

end

end

mutual

/-- Whether no conditional in a statement tries a further condition. -/
def Stmt.chainFree : Stmt → Bool
  | .conditional _ body rest _ => Stmt.chainFreeIn body && rest.chainFree
  | .routine _ _ _ body _ _ | .forTo _ _ _ body _ | .forEach _ _ body _
  | .whileDo _ body _ => Stmt.chainFreeIn body
  | .attempt body handler _ => Stmt.chainFreeIn body && Stmt.chainFreeInHandler handler
  | _ => true

/-- Whether no conditional in a block tries a further condition. -/
def Stmt.chainFreeIn : List Stmt → Bool
  | [] => true
  | s :: rest => s.chainFree && Stmt.chainFreeIn rest

/-- Whether no conditional in a handler tries a further condition. -/
def Stmt.chainFreeInHandler : Option (List Stmt) → Bool
  | none => true
  | some body => Stmt.chainFreeIn body

/-- Whether nothing but an unconditional block follows, and no conditional in it tries a further
condition. -/
def Alternative.chainFree : Alternative → Bool
  | .none => true
  | .otherwise body => Stmt.chainFreeIn body
  | .elsif .. => false

end

section

variable (place : Expr → Option Position)

mutual

/-- Without chains a statement has none, one case for each kind of statement. -/
theorem Stmt.chainFree_unchained : (s : Stmt) → (s.unchained place).chainFree = true
  | .routine _ _ _ body _ _ | .forTo _ _ _ body _ | .forEach _ _ body _ | .whileDo _ body _ =>
    Stmt.chainFreeIn_unchainedIn body
  | .conditional _ body rest _ => by
    rw [Stmt.unchained, Stmt.chainFree, Stmt.chainFreeIn_unchainedIn body, rest.chainFree_unchained,
      Bool.and_self]
  | .attempt body handler _ => by
    rw [Stmt.unchained, Stmt.chainFree, Stmt.chainFreeIn_unchainedIn body,
      Stmt.chainFreeInHandler_unchained handler, Bool.and_self]
  | .declare .. | .assign .. | .call .. | .ret .. | .raise .. | .brk _ | .cont _ => rfl

theorem Stmt.chainFreeIn_unchainedIn :
    (body : List Stmt) → Stmt.chainFreeIn (Stmt.unchainedIn place body) = true
  | [] => rfl
  | s :: rest => by
    rw [Stmt.unchainedIn, Stmt.chainFreeIn, s.chainFree_unchained,
      Stmt.chainFreeIn_unchainedIn rest, Bool.and_self]

theorem Stmt.chainFreeInHandler_unchained : (handler : Option (List Stmt)) →
    Stmt.chainFreeInHandler (Stmt.unchainedInHandler place handler) = true
  | none => rfl
  | some body => Stmt.chainFreeIn_unchainedIn body

theorem Alternative.chainFree_unchained : (a : Alternative) → (a.unchained place).chainFree = true
  | .none => rfl
  | .otherwise body => Stmt.chainFreeIn_unchainedIn body
  | .elsif _ body rest => by
    rw [Alternative.unchained, Alternative.chainFree, Stmt.chainFreeIn, Stmt.chainFree,
      Stmt.chainFreeIn_unchainedIn body, rest.chainFree_unchained]
    rfl

end

end

/-! ## Walking through chains -/

namespace Flow

variable [Weight ω] (place : Expr → Option Position)

/-- Going on along a chain is entering a block that holds the rest of the chain as a conditional of
its own. -/
theorem alternative_elsif (c : Expr) (body : List Stmt) (rest : Alternative)
    (loc : Option Position) :
    (alternative (.elsif c body rest) : FlowState ω → Variables ω → Flow ω → Flow ω) =
      alternative (.otherwise [.conditional c body rest loc]) := by
  funext origin vars f
  rw [alternative, alternative, block, block, statement]

-- The walks are compared as functions, so that an equation can be used under a fork, which takes
-- them as arguments.
mutual

/-- A statement with its chains taken apart is walked through like the statement. -/
theorem statement_unchained : (s : Stmt) →
    (statement (s.unchained place) : Flow ω → Flow ω) = statement s
  | .routine kind name params body exported loc => by
    funext f
    rw [Stmt.unchained, statement, statement, block_unchainedIn body]
  | .conditional c body rest loc => by
    funext f
    rw [Stmt.unchained, statement, statement, block_unchainedIn body, alternative_unchained rest]
  | .forTo name first last body loc => by
    funext f
    rw [Stmt.unchained, statement, statement, block_unchainedIn body]
  | .forEach name collection body loc => by
    funext f
    rw [Stmt.unchained, statement, statement, block_unchainedIn body]
  | .whileDo c body loc => by
    funext f
    rw [Stmt.unchained, statement, statement, block_unchainedIn body]
  | .attempt body handler loc => by
    funext f
    rw [Stmt.unchained, statement, statement, block_unchainedIn body,
      handlerBlock_unchained handler]
  | .declare .. | .assign .. | .call .. | .ret .. | .raise .. | .brk _ | .cont _ => rfl

/-- A block is walked as it is without chains, by recursion along the statements. -/
theorem block_unchainedIn : (body : List Stmt) →
    (block (Stmt.unchainedIn place body) : Flow ω → Flow ω) = block body
  | [] => rfl
  | s :: rest => by
    funext f
    rw [Stmt.unchainedIn, block, block, statement_unchained s, block_unchainedIn rest]

theorem handlerBlock_unchained : (handler : Option (List Stmt)) →
    (handlerBlock (Stmt.unchainedInHandler place handler) : Flow ω → Flow ω) = handlerBlock handler
  | none => rfl
  | some body => by
    funext f
    rw [Stmt.unchainedInHandler, handlerBlock, handlerBlock, block_unchainedIn body]

theorem alternative_unchained : (a : Alternative) →
    (alternative (a.unchained place) : FlowState ω → Variables ω → Flow ω → Flow ω) = alternative a
  | .none => rfl
  | .otherwise body => by
    funext origin vars f
    rw [Alternative.unchained, alternative, alternative, block_unchainedIn body]
  | .elsif c body rest => by
    rw [Alternative.unchained, ← alternative_elsif]
    funext origin vars f
    rw [alternative, alternative, block_unchainedIn body, alternative_unchained rest]

end

end Flow

/-! ## Checking -/

variable [Weight ω]

/-- The context of a check is its file and the signatures it works with. -/
theorem Program.contextOf_eq (file : Text) (externals : Signatures ω) (p : Program) :
    p.contextOf file externals =
      .make (.module file) (p.check file externals).context.functions := by
  rw [p.functions_check, contextOf, Readings.extend_eq]
  rfl

/-- **Chains are nested conditionals.** If all chains of a module are taken apart, at any depth,
then no chain is left, and from every point the module is walked through as before: with the same
states, merge points and events. So a check makes the same states and merge points and finds the
same, if only it works with the same signatures. -/
theorem Program.check_unchained (place : Expr → Option Position) (p : Program) :
    Stmt.chainFreeIn (Stmt.unchainedIn place p) = true ∧
      (∀ f : Flow ω, Flow.block (Stmt.unchainedIn place p) f = Flow.block p f) ∧
      ∀ (file : Text) (externals externals' : Signatures ω),
        (check file externals' (Stmt.unchainedIn place p)).context.functions =
          (check file externals p).context.functions →
        (check file externals' (Stmt.unchainedIn place p)).states =
          (check file externals p).states ∧
            (check file externals' (Stmt.unchainedIn place p)).merges =
              (check file externals p).merges ∧
          (check file externals' (Stmt.unchainedIn place p)).diagnostics =
            (check file externals p).diagnostics := by
  refine ⟨Stmt.chainFreeIn_unchainedIn place p, fun f => by rw [Flow.block_unchainedIn], ?_⟩
  intro file externals externals' hfunctions
  -- The two checks start from one context, since all of it but the signatures comes from the file.
  have hcontext : contextOf file externals' (Stmt.unchainedIn place p) =
      contextOf file externals p := by
    rw [contextOf_eq, contextOf_eq, hfunctions]
  have hwalk : walk file externals' (Stmt.unchainedIn place p) = walk file externals p := by
    rw [walk, walk, hcontext, Flow.block_unchainedIn]
  refine ⟨congrArg Flow.states hwalk, congrArg Flow.merges hwalk, ?_⟩
  rw [diagnostics_check, diagnostics_check, hwalk, hcontext]

/-- A chain of two branches in a procedure and one of three in the module. The states at the ends of
the last two branches are joined first, and what comes out of it with the state at the end of the
first. -/
theorem Program.check_unchained_twice :
    let test (n : Float) : Expr := .binary .eq (.ident "А" none) (.number n none) none
    let chain (more : Alternative) : Stmt :=
      .conditional (test 1) [.assign (.ident "Х" none) (.number 1 none) none]
        (.elsif (test 2) [.assign (.ident "Х" none) (.string "а" none) none] more) none
    let p : Program :=
      [.routine .procedure "П" [] [chain .none] false none,
        .assign (.ident "А" none) (.number 2 none) none,
        chain (.otherwise [.assign (.ident "Х" none) (.boolean true none) none])]
    let signatures : Signatures Float :=
      .ofList [("П", ⟨[], Resolution.void.recordAt (.result "П"), false⟩)]
    (check "м" .empty (Stmt.unchainedIn Expr.loc p)).context.functions = signatures ∧
      (check "м" .empty p).context.functions = signatures ∧
      (check (ω := Float) "м" .empty p).merges =
        #[⟨[6, 4], 7⟩, ⟨[3, 7], 8⟩, ⟨[14, 16], 17⟩, ⟨[11, 17], 18⟩] ∧
      (check (ω := Float) "м" .empty (Stmt.unchainedIn Expr.loc p)).merges =
        (check (ω := Float) "м" .empty p).merges := by
  refine (fun h h' => ⟨h, h', by decide +kernel,
    ((check_unchained _ _).2.2 _ _ _ (h.trans h'.symm)).2.1⟩) ?_ ?_
  · rfl
  · rfl

end Gradual
