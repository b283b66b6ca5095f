import GraphLang.Event
import GraphLang.Program.Basic

/-!
# Folding constants and branches

An operator whose operands are literals becomes the literal of its result, unless it
would raise an exception. A branch on a literal becomes the part that would run.
-/

namespace GraphLang

/-- A program that is being optimized, and the events reported so far. -/
structure Draft where
  /-- The program. -/
  program : Program
  /-- The events, in order. -/
  events : Array Event
deriving Inhabited

/-- A pass over a program. -/
abbrev Pass := StateM Draft

namespace Pass

/-- Reads the program. -/
def program : Pass Program := return (← get).program

/-- Replaces the program. -/
def setProgram (p : Program) : Pass Unit := modify fun r => { r with program := p }

/-- Reports an event. -/
def report (level : Level) (target message : String) (fields : List (String × String)) :
    Pass Unit :=
  modify fun r => { r with events := r.events.push ⟨level, target, message, fields⟩ }

/-- Removes a node. -/
def removeNode (n : Nat) : Pass Unit :=
  modify fun r => { r with program := (r.program.removeNode n).2 }

/-- Removes a node with everything below it. -/
def removeSubtree (n : Nat) : Pass Unit :=
  modify fun r => { r with program := r.program.removeNodes (r.program.subtree n) }

/-- Takes the child with that role away from its parent. -/
def disconnect (parent : Nat) (role : Role) : Pass (Option Nat) :=
  modifyGet fun r =>
    let (child, p) := r.program.disconnect parent role
    (child, { r with program := p })

end Pass

namespace Fold

/-- The part of the program that events of folding name. -/
def target : String := "weft_eval::optimize::fold"

/-- The literal child with that role, if no other node has it as a child. -/
def literalChild? (p : Program) (n : Nat) (role : Role) : Option (Nat × Literal) := do
  let child ← p.child? n role
  if (p.parents child).length != 1 then failure
  match ← p.op? child with
  | .literal l => return (child, l)
  | _ => none

/-- The literal that an operation on literals comes to, if it raises nothing. -/
def result? : Op → List Literal → Option Literal
  | .binary op, [left, right] =>
    match (Operators.binary .empty op left.toValue right.toValue).1 with
    | .ok v => Literal.ofValue? v
    | .error _ => none
  | .unary op, [operand] =>
    match Operators.unary .empty op operand.toValue with
    | .ok v => Literal.ofValue? v
    | .error _ => none
  | .logical op, [left, right] =>
    Literal.ofValue? (Operators.logical .empty op left.toValue right.toValue)
  | _, _ => none

/-- The roles of the operands of an operator. -/
def operandRoles : Op → List Role
  | .binary _ | .logical _ => [.left, .right]
  | .unary _ => [.operand]
  | _ => []

/-- The literal that a node comes to, with its operands. -/
def folded? (p : Program) (n : Nat) : Option (Literal × List Nat) := do
  let op ← p.op? n
  let operands ← (operandRoles op).mapM (literalChild? p n)
  let l ← result? op (operands.map (·.2))
  return (l, operands.map (·.1))

/-- Folds one node, and says whether it did. -/
def foldNode (n : Nat) : Pass Bool := do
  match folded? (← Pass.program) n with
  | none => return false
  | some (l, operands) =>
    match (← Pass.program).replaceOp n (.literal l) with
    | .error _ => return false
    | .ok (_, p) =>
      Pass.setProgram p
      operands.forM Pass.removeNode
      Pass.report .trace target "folded constant" [("node", toString n), ("value", l.plain)]
      return true

/-- Folds the given nodes once, and counts the folded ones. -/
def foldOnce : List Nat → Pass Nat
  | [] => return 0
  | n :: rest => do
    let done ← foldNode n
    let others ← foldOnce rest
    return (if done then 1 else 0) + others

/-- Folds all nodes until nothing changes, and counts the folded ones. Every round but the last
removes a node. -/
def foldRounds : Nat → Pass Nat
  | 0 => return 0
  | fuel + 1 => do
    let count ← foldOnce (← Pass.program).nodeIds
    if count == 0 then return 0
    let others ← foldRounds fuel
    return count + others

/-- Folds operators on literals until there are none left, and counts the folded ones. -/
def constants : Pass Nat := do
  foldRounds ((← Pass.program).graph.nodeCount + 1)

/-- Puts a branch in the place of a node under all parents of the node. Fails where an end is
missing. -/
def replaceUnder (branch : Nat) : List (Nat × Role) → Pass Bool
  | [] => return true
  | (parent, role) :: rest => do
    discard <| Pass.disconnect parent role
    match (← Pass.program).connect parent branch role with
    | .error _ => return false
    | .ok p =>
      Pass.setProgram p
      replaceUnder branch rest

/-- Makes a branch the body of a function, if there is one. -/
def replaceBody (branch : Nat) : Option FunctionId → Pass Bool
  | none => return true
  | some f => do
    match (← Pass.program).setBody f branch with
    | .error _ => return false
    | .ok p =>
      Pass.setProgram p
      return true

/-- Whether a node is a block. -/
def isBlock (p : Program) (n : Nat) : Bool :=
  match p.op? n with
  | some .block => true
  | _ => false

/-- Puts the branch that runs in the place of a branch node. A block is not put in the place of the
body of a function, since it would lose its own scope there. -/
def takeBranch (n : Nat) : Option Nat → Pass Bool
  | some branch => do
    let p ← Pass.program
    let bodyOf := (p.functionDefs.find? (·.body == some n)).map (·.id)
    if bodyOf.isSome && isBlock p branch then return false
    if !(← replaceUnder branch (p.parents n)) then return false
    if !(← replaceBody branch bodyOf) then return false
    Pass.removeNode n
    return true
  | none => do
    match (← Pass.program).replaceOp n (.literal .nil) with
    | .error _ => return false
    | .ok (_, p) =>
      Pass.setProgram p
      match ← Pass.disconnect n .whenTrue with
      | some child => Pass.removeSubtree child
      | none => pure ()
      return true

/-- Folds one branch node, and says whether it did. -/
def foldBranch (n : Nat) : Pass Bool := do
  let p ← Pass.program
  match literalChild? p n .condition with
  | none => return false
  | some (condition, l) =>
    let truth := Store.empty.isTruthy l.toValue
    let whenTrue := p.child? n .whenTrue
    let whenFalse := p.child? n .whenFalse
    let (taken, dropped) := if truth then (whenTrue, whenFalse) else (whenFalse, whenTrue)
    if !(← takeBranch n taken) then return false
    Pass.removeNode condition
    match dropped with
    | some child => Pass.removeSubtree child
    | none => pure ()
    Pass.report .trace target "folded branch" [("node", toString n), ("taken", boolText truth)]
    return true

/-- Folds the given branch nodes, and counts the folded ones. -/
def foldBranches : List Nat → Pass Nat
  | [] => return 0
  | n :: rest => do
    let done ← foldBranch n
    let others ← foldBranches rest
    return (if done then 1 else 0) + others

/-- Whether a node is a branch. -/
def isBranch (p : Program) (n : Nat) : Bool :=
  match p.op? n with
  | some .branch => true
  | _ => false

/-- Folds all branches on literals, and counts the folded ones. -/
def branches : Pass Nat := do
  let p ← Pass.program
  foldBranches (p.nodeIds.filter (isBranch p))

end Fold

end GraphLang
