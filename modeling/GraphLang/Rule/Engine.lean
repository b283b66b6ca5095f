import GraphLang.Rule.Builtin
import GraphLang.World

/-!
# Governed changes

Every change of a container runs the same course: it fails on a frozen container,
then all validations are asked in the order of attachment, then all transforms replace
the incoming value one after the other, and only then is the change made. Callbacks
run between these steps and may change any container, so the last step looks at the
container again. A change that fails has written nothing.
-/

namespace GraphLang

/-- Why a callback gave no value. -/
inductive InvokeError (ε : Type) where
  /-- It raised an exception. -/
  | raised (r : Raised)
  /-- It could not be finished. -/
  | fatal (cause : ε)
deriving Inhabited

/-- How callbacks are called. -/
abbrev Invoke (σ ε : Type) := Value → List Value → Act σ (InvokeError ε) Value

/-- Runs an action and gives its failure as a result. -/
def Act.attempt {σ ε ε' α : Type} (action : Act σ ε α) : Act σ ε' (Except ε α) :=
  fun w => (action w).map fun (result, w) => (.ok result, w)

namespace Engine

variable {σ ε : Type}

/-- The part of the program that events about rules name. -/
def target : String := "weft_core::rules::engine"

/-- What asking a predicate came to. -/
inductive Verdict (ε : Type) where
  /-- It holds. -/
  | holds
  /-- It does not hold, or raised something. -/
  | refused (reason : Option Rejection)
  /-- It could not be finished. -/
  | aborted (cause : ε)
deriving Inhabited

/-- Asks a predicate. What it raises counts as a refusal. -/
def ask (invoke : Invoke σ ε) (callee value : Value) : Act σ (MutationError ε) (Verdict ε) := do
  match ← (invoke callee [value]).attempt with
  | .ok result => return if (← Act.store).isTruthy result then .holds else .refused none
  | .error (.raised r) =>
    return .refused (some (.predicateRaised ((← Act.store).display r.exception)))
  | .error (.fatal cause) => return .aborted cause

/-- Fails because a validation refuses, and reports it. -/
def refuse {α : Type} (v : Validation) (reason : Option Rejection) : Act σ (MutationError ε) α := do
  Act.report .debug target "mutation rejected" fun _ =>
    [("rule", v.display),
     ("reason", match reason with
      | some reason => "Some(" ++ Text.quoted reason.message ++ ")"
      | none => "None")]
  throw (.validationFailed v.display reason)

/-- Asks a validation about a change. -/
def validate (invoke : Invoke σ ε) (g : GraphId) (v : Validation) (m : Mutation) :
    Act σ (MutationError ε) Unit := do
  match v with
  | .predicate _ callee =>
    match m.incoming? with
    | none => return
    | some value =>
      match ← ask invoke callee value with
      | .holds => return
      | .refused reason => refuse v reason
      | .aborted cause => throw (.aborted cause)
  | v =>
    let s ← Act.store
    match v.check s (s.get g) m with
    | .ok _ => return
    | .error reason => refuse v (some reason)

/-- Fails where a value is a container that is not as frozen as the one it goes into. -/
def rejectMixed (g : GraphId) (rule : Rule) (value : Value) : Act σ (MutationError ε) Unit := do
  match value with
  | .graph inner =>
    let s ← Act.store
    let held := (s.get inner).frozen
    let into := (s.get g).frozen
    if inner == g || held == into then return
    Act.report .debug target "mutation rejected: mixed freeze states" fun _ =>
      [("rule", rule.display s none)]
    throw (.validationFailed (rule.display s none) (some (.mixedFreeze held into)))
  | _ => return

/-- Asks one rule about a change, before any transform. -/
def consult (invoke : Invoke σ ε) (g : GraphId) (m : Mutation) (rule : Rule) :
    Act σ (MutationError ε) Unit := do
  match rule with
  | .validate v => validate invoke g v m
  | .freeze .rejectMixed =>
    match m.incoming? with
    | some value => rejectMixed g rule value
    | none => return
  | _ => return

/-- Runs a transform. -/
def runTransform (invoke : Invoke σ ε) (r : Transform) (value : Value) :
    Act σ (MutationError ε) Value := do
  match r with
  | .custom name callee =>
    match ← (invoke callee [value]).attempt with
    | .ok result => return result
    | .error (.raised raised) =>
      Act.report .debug target "transformation raised" fun _ => [("rule", name)]
      throw (.transformRaised name raised)
    | .error (.fatal cause) => throw (.aborted cause)
  | r =>
    let s ← Act.store
    match r.apply s value with
    | .ok result => return result
    | .error cause => throw (.transformFailed (r.display s none) cause)

/-- A container as an unfrozen deep copy; any other value as it is. -/
def unfrozenCopy (value : Value) : Act σ (MutationError ε) Value := do
  match value with
  | .graph g =>
    let s ← Act.store
    let (copy, s) := s.deepCopy (s.get g)
    Act.setStore s
    Act.alloc copy
  | v => return v

/-- Replaces an incoming value as one rule says. -/
def transform (invoke : Invoke σ ε) (rule : Rule) (value : Value) :
    Act σ (MutationError ε) Value := do
  match rule with
  | .transform r => runTransform invoke r value
  | .conditional predicate whenTrue whenFalse =>
    match ← (invoke predicate [value]).attempt with
    | .ok result =>
      if (← Act.store).isTruthy result then runTransform invoke whenTrue value
      else
        match whenFalse with
        | some r => runTransform invoke r value
        | none => return value
    | .error (.raised raised) =>
      throw (.transformRaised (rule.display (← Act.store) none) raised)
    | .error (.fatal cause) => throw (.aborted cause)
  | .freeze .copyElements => unfrozenCopy value
  | _ => return value

/-- Replaces an incoming value as the rules say, one after the other. -/
def transformAll (invoke : Invoke σ ε) : List Rule → Value → Act σ (MutationError ε) Value
  | [], value => return value
  | rule :: rest, value => do
    let value ← transform invoke rule value
    transformAll invoke rest value

/-- The outcome of a check. -/
def ofCheck {α : Type} : Except (MutationError ε) α → Act σ (MutationError ε) α
  | .ok a => return a
  | .error e => throw e

/-- Makes one write to a container in the store. -/
def write {α : Type} (g : GraphId) (step : Container → Except ContainerError (α × Container)) :
    Act σ (MutationError ε) α := do
  match step (← Act.container g) with
  | .ok (result, c) =>
    Act.setContainer g c
    return result
  | .error cause => throw (.ofContainer cause)

/-- Makes the change of a container in the store, whatever the rules say. What was written before a
failure would stay. -/
def commit (g : GraphId) (m : Mutation) : Act σ (MutationError ε) Container.Applied := do
  let c ← Act.container g
  if c.frozen then throw .frozen
  ofCheck (c.preflight m)
  match m with
  | .insert value => .node <$> write g (·.addMember .element value)
  | .set index value =>
    let node ← ofCheck (c.nodeAt index)
    .value <$> write g (·.setValue node value)
  | .put key value =>
    match c.entryNode? key with
    | some node => (fun _ => .node node) <$> write g (·.setValue node value)
    | none => .node <$> write g (·.addMember (.entry key) value)
  | .remove target =>
    let node ← match target with
      | .index index => ofCheck (c.nodeAt index)
      | .key key => ofCheck (c.nodeUnder key)
      | .node node => pure node
    .value <$> write g (·.removeNode node)
  | .addMember value parent =>
    let node ← write g (·.addMember .contains value)
    match parent with
    | some (source, name) =>
      (fun _ => .node node) <$> write g (·.addEdge source node (.link name) none)
    | none => return .node node
  | .link source target name data => .edge <$> write g (·.addEdge source target (.link name) data)

/-- Asks the rules about a change, and gives the change that their transforms make of it. -/
def govern (invoke : Invoke σ ε) (g : GraphId) (rules : List Rule) (m : Mutation) :
    Act σ (MutationError ε) Mutation := do
  rules.forM (consult invoke g m)
  match m.incoming? with
  | some value => m.withIncoming <$> transformAll invoke (rules.filter (·.transformsIncoming)) value
  | none => return m

/-- Changes a container under its rules. -/
def apply (invoke : Invoke σ ε) (g : GraphId) (m : Mutation) :
    Act σ (MutationError ε) Container.Applied := do
  let c ← Act.container g
  if c.frozen then
    Act.report .debug target "mutation rejected: graph is frozen" fun _ =>
      [("op", Text.quoted m.describe)]
    throw .frozen
  ofCheck (c.preflight m)
  let m ← govern invoke g c.rules m
  let applied ← commit g m
  Act.report .trace target "mutation committed" fun _ => [("rules", toString c.rules.length)]
  return applied

/-- The new values of members under a new rule, all computed before any is written. -/
def updates (invoke : Invoke σ ε) (rule : Rule) :
    List (Nat × Value) → Act σ (MutationError ε) (List (Nat × Value))
  | [] => return []
  | (node, value) :: rest => do
    let value ← transform invoke rule value
    let others ← updates invoke rule rest
    return (node, value) :: others

/-- Asks the predicate of a new validation about the members, one after the other. -/
def askMembers (invoke : Invoke σ ε) (v : Validation) (callee : Value) :
    List Value → Act σ (MutationError ε) Unit
  | [] => return
  | value :: rest => do
    match ← ask invoke callee value with
    | .holds => askMembers invoke v callee rest
    | .refused (some reason) => throw (.validationFailed v.display (some reason))
    | .refused none =>
      throw (.validationFailed v.display
        (some (.memberFails ((← Act.store).diagnostic value))))
    | .aborted cause => throw (.aborted cause)

/-- Fails where the members do not meet a new rule, and otherwise gives their new values. -/
def prepareRule (invoke : Invoke σ ε) (g : GraphId) (rule : Rule) :
    Act σ (MutationError ε) (List (Nat × Value)) := do
  let s ← Act.store
  let c := s.get g
  match rule with
  | .validate (.predicate name callee) =>
    askMembers invoke (.predicate name callee) callee c.memberValues
    return []
  | .validate v =>
    match v.checkNow s c with
    | .ok _ => return []
    | .error reason => throw (.validationFailed v.display (some reason))
  | .freeze .rejectMixed =>
    c.memberValues.forM (rejectMixed g rule)
    return []
  | rule =>
    updates invoke rule (c.members.filterMap fun n => (c.value? n).map fun v => (n, v))

/-- Writes new values; members that are gone meanwhile are skipped. -/
def writeAll (g : GraphId) : List (Nat × Value) → Act σ (MutationError ε) Unit
  | [] => return
  | (node, value) :: rest => do
    if (← Act.container g).graph.hasNode node then
      discard <| write g (·.setValue node value)
    writeAll g rest

/-- Attaches a rule to a container and writes the new values that it gives the members. -/
def attachRule (g : GraphId) (rule : Rule) (news : List (Nat × Value)) :
    Act σ (MutationError ε) Unit := do
  if (← Act.container g).frozen then throw .frozen
  writeAll g news
  let total := (← Act.container g).rules.length + 1
  Act.report .debug target "rule attached" fun s =>
    [("rule", rule.display s (some g)), ("total", toString total)]
  write g fun c => (c.pushRule rule).map fun c => ((), c)

/-- Attaches a rule to a container and applies it to the members. -/
def addRule (invoke : Invoke σ ε) (g : GraphId) (rule : Rule) : Act σ (MutationError ε) Unit := do
  if (← Act.container g).frozen then throw .frozen
  let news ← prepareRule invoke g rule
  attachRule g rule news

/-- Attaches rules one after the other; those before a failure stay attached. -/
def addRules (invoke : Invoke σ ε) (g : GraphId) : List Rule → Act σ (MutationError ε) Unit
  | [] => return
  | rule :: rest => do
    addRule invoke g rule
    addRules invoke g rest

/-- Attaches the rules of a ruleset. -/
def applyRuleset (invoke : Invoke σ ε) (g : GraphId) (set : Ruleset) :
    Act σ (MutationError ε) Unit := do
  Act.report .debug target "applying ruleset" fun _ =>
    [("ruleset", set.name), ("rules", toString set.rules.length)]
  addRules invoke g set.rules

/-- Whether a value is a container, other than the given one, that is not frozen. -/
def isUnfrozenOther (s : Store) (g : GraphId) : Value → Bool
  | .graph inner => inner != g && !(s.get inner).frozen
  | _ => false

/-- The rule of a container against mixed freezing, if it has one. -/
def mixedRule? (c : Container) : Option Rule :=
  c.rules.find? fun rule =>
    match rule with
    | .freeze .rejectMixed => true
    | _ => false

/-- Freezes a container. A frozen one stays as it is. -/
def freeze (g : GraphId) : Act σ (MutationError ε) Unit := do
  let s ← Act.store
  let c := s.get g
  if c.frozen then return
  match mixedRule? c with
  | some rule =>
    if c.memberValues.any (isUnfrozenOther s g) then
      throw (.validationFailed (rule.display s none) (some .memberUnfrozen))
  | none => pure ()
  Act.setContainer g c.freeze
  Act.report .debug target "graph frozen" fun _ => []

end Engine

end GraphLang
