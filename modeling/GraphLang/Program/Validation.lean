import GraphLang.Event
import GraphLang.Program.Basic
import GraphLang.SlotGraph.Cycle

/-!
# Validation of programs

A valid program can be evaluated without ever missing a child: every function has a
body, every node has the children that its operation takes and no others, parents and
children belong to one function and form trees, and loops are left only inside loops.
-/

namespace GraphLang.Program

/-- The functions without a body, and the function nodes without a function. -/
def functionErrors (p : Program) : List ConstructionError :=
  let bodies := p.functionDefs.filterMap fun d =>
    match d.body with
    | none => some (.missingBody d.id d.name)
    | some body => if p.graph.hasNode body then none else some (.unknownNode body)
  let closures := p.nodeIds.filterMap fun n =>
    match p.op? n with
    | some (.function f) => if (p.function? f).isSome then none else some (.unknownFunction f)
    | _ => none
  bodies ++ closures

/-- The edges between functions, and then the ends of several edges, ascending. -/
def edgeErrors (p : Program) : List ConstructionError :=
  let crossing := p.edges.filterMap fun (source, target, _) =>
    match p.node? source, p.node? target with
    | some a, some b => if a.owner == b.owner then none else some (.crossFunction source target)
    | _, _ => none
  let shared := (List.range p.graph.slots.size).filterMap fun n =>
    if 1 < p.edges.countP (fun e => e.2.1 == n) then some (.sharedChild n) else none
  crossing ++ shared

/-- The faults of roles, one after the other: those not taken, and those taken twice. Also gives the
roles taken, each once. -/
def roleErrors (n : Nat) (node : Node) : List (Role × Nat) → List Role →
    List ConstructionError × List Role
  | [], seen => ([], seen)
  | (role, _) :: rest, seen =>
    if !node.op.shape.accepts role then
      let (errors, seen) := roleErrors n node rest seen
      (.unexpectedRole n node.op.name role node.location :: errors, seen)
    else if seen.contains role then
      let (errors, seen) := roleErrors n node rest seen
      (.duplicateRole n role node.location :: errors, seen)
    else roleErrors n node rest (seen ++ [role])

/-- The roles that must be filled and are not. A guarded body needs a handler or a closing part. -/
def missingErrors (n : Nat) (node : Node) (seen : List Role) : List ConstructionError :=
  let missing (role : Role) : ConstructionError :=
    .missingRole n node.op.name role node.location
  let required := (node.op.shape.required.filter fun role => !seen.contains role).map missing
  let guard := match node.op with
    | .guarded _ =>
      if seen.contains .handler || seen.contains .finalizer then [] else [missing .handler]
    | _ => []
  required ++ guard

/-- The first position that differs from the one expected, counting from `start`. -/
def firstGap (start : Nat) : List Nat → Option Nat
  | [] => none
  | i :: rest => if i == start then firstGap (start + 1) rest else some start

/-- The faults in the positions and in the number of indexed children. -/
def positionErrors (n : Nat) (node : Node) (seen : List Role) : List ConstructionError :=
  match node.op.shape.indexed with
  | none => []
  | some family =>
    let positions := ((seen.filter (·.sameFamily family)).filterMap (·.position?)).mergeSort
    let gaps := match firstGap 0 positions with
      | some i => [.gap n (family.atPosition i) node.location]
      | none => []
    let counts := match node.op.indexedCount with
      | some expected =>
        if positions.length == expected then []
        else [.childCount n node.op.name expected positions.length node.location]
      | none => []
    gaps ++ counts

/-- The malformed rules of a node. -/
def specErrors (node : Node) : List ConstructionError :=
  node.op.ruleSpecs.filterMap fun spec =>
    match spec.check with
    | .ok _ => none
    | .error cause => some (.invalidRule cause node.location)

/-- The faults of one node. -/
def shapeErrors (p : Program) (n : Nat) : List ConstructionError :=
  match p.node? n with
  | none => []
  | some node =>
    let (roles, seen) := roleErrors n node (p.children n) []
    roles ++ missingErrors n node seen ++ positionErrors n node seen ++ specErrors node

/-- The cycle of children, if there is one. Where the search breaks off behind the last node, so
does the check: then there is no answer but the number that it came to. -/
def cycleErrors (p : Program) : Except Nat (List ConstructionError) :=
  match p.graph.topologicalOrder with
  | .ok _ => .ok []
  | .error (.cycle n) => .ok [.cycle (((p.node? n).map (·.owner)).getD mainId) n]
  | .error (.unmarked n) => .error n

/-- The loop that an operation leaves, by its keyword. -/
def loopKeyword? : Op → Option String
  | .breakLoop => some "break"
  | .continueLoop => some "continue"
  | _ => none

/-- Walks a body with an explicit stack; each node comes with whether it stands inside a loop. Newer
children are pushed first, so the oldest one is visited next. -/
def loopErrorsFrom (p : Program) : Nat → List (Nat × Bool) → List ConstructionError
  | 0, _ => []
  | _ + 1, [] => []
  | fuel + 1, (n, inLoop) :: stack =>
    match p.node? n with
    | none => loopErrorsFrom p fuel stack
    | some node =>
      let errors := match loopKeyword? node.op with
        | some keyword => if inLoop then [] else [.outsideLoop n keyword node.location]
        | none => []
      let next := (p.graph.outgoing n).map fun (_, edge) =>
        (edge.target, inLoop || (node.op.isLoop && edge.weight == .body))
      errors ++ loopErrorsFrom p fuel (next.reverse ++ stack)

/-- The places where a loop is left and there is none, function by function. -/
def loopErrors (p : Program) : List ConstructionError :=
  p.functionDefs.flatMap fun d =>
    match d.body with
    | none => []
    | some body => loopErrorsFrom p (p.graph.slots.size + p.graph.edges.size + 2) [(body, false)]

/-- The faults that do not need a walk over bodies. -/
def localErrors (p : Program) : List ConstructionError :=
  p.functionErrors ++ p.edgeErrors ++ p.nodeIds.flatMap p.shapeErrors

/-- All faults of a program. Cycles are looked for where there is no other fault, and loops where
there is no cycle. -/
def validate (p : Program) : Except Nat (List ConstructionError) :=
  match p.localErrors with
  | [] =>
    match p.cycleErrors with
    | .ok [] => .ok p.loopErrors
    | answer => answer
  | errors => .ok errors

/-- What is reported about a program with faults. -/
def rejection (p : Program) (errors : List ConstructionError) : Event :=
  ⟨.debug, "weft_core::validate", "execution graph rejected",
    [("unit", p.name), ("errors", toString errors.length)]⟩

end GraphLang.Program
