import GraphLang.Eval.Session

/-!
# Evaluating nodes

What each operation does. Children are evaluated through a parameter, so that the
recursion stands in one place. Children are evaluated in the order of their roles,
and a signal that leaves the normal course is passed on at once; only loops, calls
and guarded bodies look at it.
-/

namespace GraphLang

/-- How nodes and bodies are evaluated and functions are called. -/
structure Evaluator where
  /-- Evaluates a node in a scope. -/
  node : Code → Nat → ScopeId → Eval Signal
  /-- Evaluates the body of a function or unit, from its root. -/
  body : Code → Nat → ScopeId → Eval Signal
  /-- Calls a function, perhaps from a call node. -/
  call : FunctionValue → List Value → Option Nat → Eval Signal

namespace Eval

/-- Whether the body of a function is run directly in the scope of the call. -/
def isBlock (code : Code) (node : Nat) : Bool :=
  match code.program.op? node with
  | some .block => true
  | _ => false

/-- Evaluates statements up to the first one that leaves the normal course. -/
def statements (ev : Evaluator) (code : Code) (scope : ScopeId) : List (Role × Nat) → Eval Signal
  | [] => return .done
  | (_, node) :: rest => do
    match ← ev.node code node scope with
    | .normal _ => statements ev code scope rest
    | signal => return signal

/-- Evaluates the body of a function or unit. The statements of a block run in the given scope, so
that what they define belongs to it. -/
def body (ev : Evaluator) (code : Code) (node : Nat) (scope : ScopeId) : Eval Signal :=
  if isBlock code node then statements ev code scope (code.program.indexed node (.statement 0))
  else ev.node code node scope

/-- What the body of a function comes to for its caller. -/
def leaveFunction (site : CallSite) (name : String) : Signal → Eval Signal
  | .normal v | .returning v => return .normal v
  | .raised r => return .raised (r.leave site)
  | signal => throw (.internal (.escapedFunction signal.kind name))

/-- Calls a function. -/
def callFunction (ev : Evaluator) (f : FunctionValue) (args : List Value) (callNode : Option Nat) :
    Eval Signal := do
  let st ← session
  let limit := st.config.maxCallDepth
  if limit ≤ st.frames.length then
    report .debug "call depth limit exceeded" fun _ =>
      [("limit", toString limit), ("function", f.name)]
    throw (.recursionLimit limit st.frames)
  let program := (← unit f.unit).program
  match program.function? f.function with
  | none => throw (.internal (.unknownFunction f.function))
  | some d =>
    if d.arity != args.length then
      let exception ← Act.faultException (.arity d.name d.arity args.length)
      return .raised (.new exception)
    match d.body with
    | none => throw (.internal (.functionWithoutBody d.name))
    | some root =>
      let defining ← ofBinding ((← session).scopes.closureScope f.closure)
      inScope defining .function (d.params.zip args) fun scope => do
        let site : CallSite := ⟨d.name, f.unit, f.function, callNode, (← session).nextFrame⟩
        let signal ← inFrame site do
          let frames := (← session).frames
          report .debug "call" fun _ => [("function", d.name), ("depth", toString frames.length)]
          ev.body ⟨f.unit, program⟩ root scope
        leaveFunction site d.name signal

/-- Calls a value. -/
def call (ev : Evaluator) (callee : Value) (args : List Value) (callNode : Option Nat) :
    Eval Signal := do
  match callee with
  | .function f => ev.call f args callNode
  | .native n =>
    match n.arity with
    | some arity =>
      if arity != args.length then
        let exception ← Act.faultException (.arity n.name arity args.length)
        return .raised (.new exception)
    | none => pure ()
    report .debug "native call" fun _ => [("native", Text.quoted n.name)]
    match ← n.call args with
    | .ok v => return .normal v
    | .error v => return .raised (.new (← Step.toException v))
  | other =>
    let exception ← Act.faultException (.notCallable ((← Act.store).typeOf other))
    return .raised (.new exception)

/-- What a call comes to for the rule that made it. Rules see the text of an error only, so the
error itself is kept aside. -/
def leaveCallback : Except EvalError Signal → Act Session (InvokeError String) Value
  | .ok (.normal v) => return v
  | .ok (.raised r) => throw (.raised r)
  | .ok signal => throw (.fatal (InternalError.escapedCallback signal.kind).message)
  | .error e => do
    let s ← Act.store
    keepFatal e
    throw (.fatal (e.message s))

/-- How the rules of containers call values. -/
def callback (ev : Evaluator) : Invoke Session String := fun callee args => do
  leaveCallback (← Act.attempt (call ev callee args none))

end Eval

namespace Step

/-- The child with that role. -/
def child (code : Code) (node : Nat) (role : Role) : Step Nat :=
  match code.program.child? node role with
  | some n => return n
  | none => fatal (.internal (.missingChild node role))

/-- Evaluates a node. -/
def node (ev : Evaluator) (code : Code) (n : Nat) (scope : ScopeId) : Step Value := do
  let signal ← lift (ev.node code n scope)
  ofSignal signal

/-- Evaluates the child with that role. -/
def role (ev : Evaluator) (code : Code) (n : Nat) (r : Role) (scope : ScopeId) : Step Value := do
  let c ← child code n r
  node ev code c scope

/-- Evaluates the child with that role, if there is one. -/
def role? (ev : Evaluator) (code : Code) (n : Nat) (r : Role) (scope : ScopeId) :
    Step (Option Value) := do
  match code.program.child? n r with
  | some c => return some (← node ev code c scope)
  | none => return none

/-- Evaluates nodes one after the other. -/
def nodes (ev : Evaluator) (code : Code) (scope : ScopeId) : List (Role × Nat) → Step (List Value)
  | [] => return []
  | (_, n) :: rest => do
    let v ← node ev code n scope
    let vs ← nodes ev code scope rest
    return v :: vs

/-- Evaluates the children of one family of roles. -/
def family (ev : Evaluator) (code : Code) (n : Nat) (r : Role) (scope : ScopeId) :
    Step (List Value) :=
  nodes ev code scope (code.program.indexed n r)

/-- The container that a value is. -/
def container (v : Value) : Step GraphId := do
  match v with
  | .graph g => return g
  | other => fault (.notContainer ((← store).typeOf other))

/-- The exception or error that a failed change becomes. -/
def mutationFailed {α : Type} (e : MutationError String) : Step α := do
  let s ← store
  let text := e.message s id
  report .debug "mutation rejected" fun _ => [("error", text)]
  match e with
  | .transformRaised _ raised => throw (.raised raised)
  | .aborted message =>
    let kept ← lift Eval.takeFatal
    fatal (kept.getD (.internal (.aborted message)))
  | .indexOutOfRange .. => fault (.mutation "IndexError" text)
  | .keyNotFound _ => fault (.mutation "KeyError" text)
  | .wrongKind .. => fault (.mutation "TypeError" text)
  | _ => fault (.mutation "MutationError" text)

/-- Runs a change under rules. -/
def governed {α : Type} (change : Act Session (MutationError String) α) : Step α := do
  match ← lift (Act.attempt change) with
  | .ok a => return a
  | .error e => mutationFailed e

/-- Makes the rule of a description, or raises. -/
def ofSpec {α : Type} : Except SpecError α → Step α
  | .ok a => return a
  | .error cause => fault (.rule cause.message)

/-- The keys of a map literal. -/
def literalKeys : List (Literal × Value) → Step (List (Key × Value))
  | [] => return []
  | (l, v) :: rest => do
    let key ← ofFault (Operators.mapKey (← store) l.toValue)
    let others ← literalKeys rest
    return (key, v) :: others

/-- Repeats a body while a condition holds. -/
def whileLoop (condition : Step Value) (body : Eval Signal) : Nat → Step Value
  | 0 => lift Act.outOfFuel
  | fuel + 1 => do
    let c ← condition
    if (← store).isTruthy c then
      match ← lift body with
      | .normal _ | .continuing => whileLoop condition body fuel
      | .breaking => return .nil
      | signal => throw signal
    else return .nil

/-- The items of a loop: those that are left of a snapshot, or whole numbers up to a bound. -/
inductive Items where
  /-- The rest of a snapshot. -/
  | snapshot (values : List Value)
  /-- The whole numbers from one up to another. -/
  | numbers (next bound : Int)

/-- The next item and the rest. -/
def Items.next? : Items → Option (Value × Items)
  | .snapshot [] => none
  | .snapshot (v :: rest) => some (v, .snapshot rest)
  | .numbers next bound =>
    if next < bound then some (.int (Int64.ofInt next), .numbers (next + 1) bound) else none

/-- What a loop over a value runs through. -/
def items (v : Value) : Step Items := do
  match v with
  | .int n => return .numbers 0 n.toInt
  | .str t => return .snapshot (t.toList.map fun c => .str (String.singleton c))
  | .graph g =>
    let c := (← store).get g
    match c.kind with
    | .list => return .snapshot c.elements
    | .map => return .snapshot (c.keys.map Key.toValue)
    | .user _ => return .snapshot (c.members.map fun n => .int (Int64.ofNat n))
  | other => fault (.notIterable ((← store).typeOf other))

/-- Runs a body for each item, each time in a new scope. -/
def eachLoop (scope : ScopeId) (name : String) (body : ScopeId → Eval Signal) :
    Nat → Items → Step Value
  | 0, _ => lift Act.outOfFuel
  | fuel + 1, items => do
    match items.next? with
    | none => return .nil
    | some (item, rest) =>
      let signal ← lift <| Eval.inScope scope .loop [(name, item)] body
      match signal with
      | .normal _ | .continuing => eachLoop scope name body fuel rest
      | .breaking => return .nil
      | signal => throw signal

/-- An exception with a path recorded in it. -/
def withPath (exception : Value) (path : List CallSite) : Eval Value := do
  match exception with
  | .exception _ kind message payload _ => Act.newException kind message payload path
  | other => return other

/-- Runs a handler on a raised exception. -/
def handle (ev : Evaluator) (code : Code) (n handler : Nat) (catchName : Option String)
    (scope : ScopeId) (raised : Raised) : Eval Signal := do
  let raised := match (← Eval.session).frames with
    | site :: _ => raised.leave site
    | [] => raised
  let exception ← withPath raised.exception raised.path
  Eval.report .debug "exception caught" fun s =>
    [("exception", s.display exception), ("node", toString n)]
  let locals := catchName.toList.map fun name => (name, exception)
  Eval.inScope scope .catch locals (ev.node code handler)

/-- Evaluates a guarded body. -/
def guarded (ev : Evaluator) (code : Code) (n : Nat) (catchName : Option String)
    (scope : ScopeId) : Step Value := do
  let body ← child code n .body
  let first ← lift (ev.node code body scope)
  let signal ← match first, code.program.child? n .handler with
    | .raised raised, some handler =>
      lift (handle ev code n handler catchName scope raised)
    | signal, _ => pure signal
  match code.program.child? n .finalizer with
  | none => ofSignal signal
  | some finalizer =>
    let after ← lift (ev.node code finalizer scope)
    if after.isNormal then ofSignal signal else throw after

/-- Makes a closure of a function. -/
def closure (code : Code) (f : FunctionId) (scope : ScopeId) : Step Value := do
  match code.program.function? f with
  | none => fatal (.internal (.unknownFunction f))
  | some d =>
    let names := code.program.freeVariables f
    let made ← lift (Eval.onScopes (·.createClosure scope d.name names))
    let closure ← lift (Eval.ofBinding made)
    return .function ⟨code.unit, f, closure, d.name, d.arity⟩

/-- Writes a member of a container. -/
def setIndex (ev : Evaluator) (target index value : Value) : Step Value := do
  let g ← container target
  let s ← store
  let c := s.get g
  match c.kind with
  | .list =>
    let i ← ofFault (Operators.listIndex s c index)
    discard <| governed (Engine.apply (Eval.callback ev) g (.set i value))
  | .map =>
    let key ← ofFault (Operators.mapKey s index)
    discard <| governed (Engine.apply (Eval.callback ev) g (.put key value))
  | .user name => fault (.memberAssignment name)
  return .nil

/-- Removes a member of a container and gives its value. -/
def removeAt (ev : Evaluator) (target index : Value) : Step Value := do
  let g ← container target
  let s ← store
  let c := s.get g
  let member ← match c.kind with
    | .list => Target.index <$> ofFault (Operators.listIndex s c index)
    | .map => Target.key <$> ofFault (Operators.mapKey s index)
    | .user _ => Target.node <$> ofFault (Operators.memberHandle s index)
  match ← governed (Engine.apply (Eval.callback ev) g (.remove member)) with
  | .value v => return v
  | _ => return .nil

/-- Adds a member to a user graph and gives its handle. -/
def addMember (ev : Evaluator) (target value : Value) (parent : Option Value)
    (link : Option String) : Step Value := do
  let g ← container target
  let parent ← match parent, link with
    | some handle, some name =>
      let handle ← ofFault (Operators.memberHandle (← store) handle)
      pure (some (handle, name))
    | _, _ => pure none
  match ← governed (Engine.apply (Eval.callback ev) g (.addMember value parent)) with
  | .node n => return .int (Int64.ofNat n)
  | _ => return .nil

/-- Adds a link between two members. -/
def link (ev : Evaluator) (target source end_ : Value) (name : String) (data : Option Value) :
    Step Value := do
  let g ← container target
  let source ← ofFault (Operators.memberHandle (← store) source)
  let end_ ← ofFault (Operators.memberHandle (← store) end_)
  discard <| governed (Engine.apply (Eval.callback ev) g (.link source end_ name data))
  return .nil

/-- Attaches a rule to a container. -/
def addRule (ev : Evaluator) (target : Value) (spec : RuleSpec) (args : List Value) :
    Step Value := do
  let g ← container target
  let rule ← ofSpec (spec.instantiate args)
  report .debug "add rule" fun s => [("rule", rule.display s none)]
  governed (Engine.addRule (Eval.callback ev) g rule)
  return target

/-- Defines a ruleset. -/
def defineRuleset (name : String) (specs : List RuleSpec) (args : List Value) : Step Value := do
  let rules ← ofSpec (RuleSpec.instantiateAll specs args)
  report .debug "ruleset defined" fun _ =>
    [("ruleset", name), ("rules", toString rules.length)]
  modifySession fun st => { st with rulesets := st.rulesets.define ⟨name, rules⟩ }
  return .nil

/-- Attaches the rules of a ruleset to a container. -/
def applyRuleset (ev : Evaluator) (target : Value) (name : String) : Step Value := do
  let g ← container target
  match (← session).rulesets.get? name with
  | none => fault (.noRuleset name)
  | some set =>
    governed (Engine.applyRuleset (Eval.callback ev) g set)
    return target

/-- Defines a variable in a scope. -/
def define (scope : ScopeId) (name : String) (value : Value) (mutable : Bool) : Step Value := do
  let result ← lift (Eval.onScopes (·.define scope name value mutable))
  discard <| ofBinding result
  return .nil

/-- Writes a variable that can be seen from a scope. -/
def assign (scope : ScopeId) (name : String) (value : Value) : Step Value := do
  let result ← lift (Eval.onScopes (·.assign scope name value))
  discard <| ofBinding result
  return value

/-- Evaluates a connective. The right operand is left out where the left one decides. -/
def logical (ev : Evaluator) (code : Code) (n : Nat) (op : LogicalOp) (scope : ScopeId) :
    Step Value := do
  let left ← role ev code n .left scope
  let truth := (← store).isTruthy left
  let decided := match op with
    | .and => !truth
    | .or => truth
  if decided then return .bool truth
  let right ← role ev code n .right scope
  return Operators.logical (← store) op left right

/-- Applies an operator with two operands. -/
def binary (op : BinaryOp) (left right : Value) : Step Value := do
  let (result, s) := Operators.binary (← store) op left right
  lift (Act.setStore s)
  ofFault result

/-- Raises a value. -/
def raiseValue (n : Nat) (v : Value) : Step Value := do
  let exception ← lift (toException v)
  report .debug "raise" fun s =>
    [("exception", s.display exception), ("node", toString n)]
  raise exception

/-- Calls a value. -/
def call (ev : Evaluator) (callee : Value) (args : List Value) (n : Nat) : Step Value := do
  let signal ← lift (Eval.call ev callee args (some n))
  ofSignal signal

/-- Evaluates the statements of a block in a scope of their own. -/
def block (ev : Evaluator) (code : Code) (n : Nat) (scope : ScopeId) : Step Value := do
  let signal ← lift <| Eval.inScope scope .block [] fun inner =>
    Eval.statements ev code inner (code.program.indexed n (.statement 0))
  ofSignal signal

/-- Evaluates one operation; `fuel` bounds the iterations of its loops. -/
def op (ev : Evaluator) (fuel : Nat) (code : Code) (n : Nat) (scope : ScopeId) : Op → Step Value
  | .literal l => return l.toValue
  | .list => do
    let elements ← family ev code n (.element 0) scope
    lift (Act.alloc (.ofElements elements))
  | .map keys => do
    let values ← family ev code n (.element 0) scope
    let entries ← literalKeys (keys.zip values)
    lift (Act.alloc (.ofEntries entries))
  | .var name => do ofBinding ((← session).scopes.get scope name)
  | .define name mutable => do
    let value ← role ev code n .value scope
    define scope name value mutable
  | .assign name => do
    let value ← role ev code n .value scope
    assign scope name value
  | .binary o => do
    let left ← role ev code n .left scope
    let right ← role ev code n .right scope
    binary o left right
  | .unary o => do
    let operand ← role ev code n .operand scope
    ofFault (Operators.unary (← store) o operand)
  | .logical o => logical ev code n o scope
  | .call => do
    let callee ← role ev code n .callee scope
    let args ← family ev code n (.argument 0) scope
    call ev callee args n
  | .function f => closure code f scope
  | .leave => do
    let value ← role? ev code n .value scope
    throw (.returning (value.getD .nil))
  | .branch => do
    let condition ← role ev code n .condition scope
    if (← store).isTruthy condition then role ev code n .whenTrue scope
    else
      let value ← role? ev code n .whenFalse scope
      return value.getD .nil
  | .loop => do
    let body ← child code n .body
    whileLoop (role ev code n .condition scope) (ev.node code body scope) fuel
  | .each name => do
    let target ← role ev code n .target scope
    let body ← child code n .body
    let items ← items target
    eachLoop scope name (ev.node code body) fuel items
  | .breakLoop => throw .breaking
  | .continueLoop => throw .continuing
  | .raise => do
    let value ← role ev code n .value scope
    raiseValue n value
  | .guarded catchName => guarded ev code n catchName scope
  | .block => block ev code n scope
  | .index => do
    let target ← role ev code n .target scope
    let position ← role ev code n .index scope
    ofFault (Operators.index (← store) target position)
  | .setIndex => do
    let target ← role ev code n .target scope
    let position ← role ev code n .index scope
    let value ← role ev code n .value scope
    setIndex ev target position value
  | .append => do
    let target ← role ev code n .target scope
    let value ← role ev code n .value scope
    let g ← container target
    discard <| governed (Engine.apply (Eval.callback ev) g (.insert value))
    return .nil
  | .removeAt => do
    let target ← role ev code n .target scope
    let position ← role ev code n .index scope
    removeAt ev target position
  | .addRule spec => do
    let target ← role ev code n .target scope
    let args ← family ev code n (.argument 0) scope
    addRule ev target spec args
  | .defineRuleset name specs => do
    let args ← family ev code n (.argument 0) scope
    defineRuleset name specs args
  | .applyRuleset name => do
    let target ← role ev code n .target scope
    applyRuleset ev target name
  | .freeze => do
    let target ← role ev code n .target scope
    let g ← container target
    governed (Engine.freeze g)
    return target
  | .newGraph kind => do lift (Act.alloc (.new (.user kind)))
  | .addMember linkName => do
    let target ← role ev code n .target scope
    let value ← role ev code n .value scope
    let parent ← role? ev code n .left scope
    addMember ev target value parent linkName
  | .link name => do
    let target ← role ev code n .target scope
    let source ← role ev code n .left scope
    let end_ ← role ev code n .right scope
    let data ← role? ev code n .value scope
    link ev target source end_ name data

end Step

namespace Eval

/-- Records an evaluated node, if nodes are recorded. -/
def record (code : Code) (n : Nat) (o : Op) (signal : Signal) : Eval Unit :=
  modify fun w =>
    if w.control.config.traceEnabled then
      let value := match signal with
        | .normal v | .returning v => some (w.store.display v)
        | .raised r => some (w.store.display r.exception)
        | .breaking | .continuing => none
      let entry : TraceEntry :=
        ⟨code.unit, n, o.display, w.control.frames.length, signal.kind, value⟩
      { w with control := { w.control with trace := w.control.trace.push entry } }
    else w

/-- Evaluates a node whose children are evaluated by `ev`. -/
def node (ev : Evaluator) (fuel : Nat) (code : Code) (n : Nat) (scope : ScopeId) : Eval Signal := do
  match code.program.op? n with
  | none => throw (.internal (.unknownNode n))
  | some o =>
    report .trace "eval" fun _ =>
      [("unit", toString code.unit), ("node", toString n), ("op", Text.quoted o.name)]
    let signal ← (Step.op ev fuel code n scope o).toSignal
    record code n o signal
    return signal

/-- Evaluates nodes and bodies and calls functions. Each level of children, each body and each call
takes one unit of fuel. -/
def eval : Nat → Evaluator
  | 0 => ⟨fun _ _ _ => Act.outOfFuel, fun _ _ _ => Act.outOfFuel, fun _ _ _ => Act.outOfFuel⟩
  | fuel + 1 =>
    ⟨fun code n scope => node (eval fuel) fuel code n scope,
      fun code root scope => body (eval fuel) code root scope,
      fun f args callNode => callFunction (eval fuel) f args callNode⟩

end Eval

end GraphLang
