import GraphLang.Scopes.Basic
import GraphLang.Store.Basic
import Std.Data.HashSet.Basic

/-!
# Collecting what nobody can reach

What can be reached from open scopes and from what the caller still holds stays;
every other node is removed. Reaching goes along all edges, and from values on to
the closures in them: through payloads of exceptions, and through everything that
containers hold. Nodes wait on a stack to be marked. Walks through values are
recursive, and all of them together go into a container once.
-/

namespace GraphLang.Scopes

/-- What walks through values have come across. -/
structure Findings where
  /-- The containers. -/
  seen : Std.HashSet GraphId
  /-- The closures, latest first. -/
  closures : List ClosureId

/-- Adds the closures in a value; `enter` adds what is in a container. -/
def closuresIn (enter : GraphId → Findings → Findings) : Value → Findings → Findings
  | .function f, found => { found with closures := f.closure :: found.closures }
  | .exception _ _ _ payload _, found => closuresIn enter payload found
  | .graph g, found => enter g found
  | _, found => found

/-- Adds the closures in a container that was not seen before. Each unit of fuel pays for one
container inside of another. -/
def closuresHeld (store : Store) : Nat → GraphId → Findings → Findings
  | 0, _, found => found
  | fuel + 1, g, found =>
    if found.seen.contains g then found
    else
      (store.get g).heldValues.foldl (fun found v => closuresIn (closuresHeld store fuel) v found)
        { found with seen := found.seen.insert g }

/-- What is found in the value of a node, if the node has one. -/
def findings (s : Scopes) (store : Store) (seen : Std.HashSet GraphId) (n : Nat) : Findings :=
  match s.graph.node? n with
  | some (.binding value) =>
    closuresIn (closuresHeld store (store.graphs.size + 1)) value ⟨seen, []⟩
  | _ => ⟨seen, []⟩

/-- Marks the nodes on the stack, and what they lead to. Each unit of fuel pays for one mark. -/
def mark (s : Scopes) (store : Store) :
    Nat → List Nat → Std.HashSet Nat → Std.HashSet GraphId → Std.HashSet Nat
  | 0, _, marked, _ => marked
  | fuel + 1, stack, marked, seen =>
    match stack.dropWhile fun n => !s.graph.hasNode n || marked.contains n with
    | [] => marked
    | n :: rest =>
      let found := s.findings store seen n
      mark s store fuel (found.closures ++ (s.graph.successors n).reverse ++ rest) (marked.insert n)
        found.seen

/-- The open scopes. -/
def activeScopes (s : Scopes) : List ScopeId := s.graph.nodeIds.filter s.isActive

/-- The nodes that stay: everything that can be reached from open scopes and from the given
nodes. -/
def reachable (s : Scopes) (store : Store) (roots : List Nat) : Std.HashSet Nat :=
  s.mark store (s.graph.slots.size + 1) (roots ++ s.activeScopes).reverse ∅ ∅

/-- Removes what cannot be reached, and counts it. -/
def collect (s : Scopes) (store : Store) (roots : List Nat) : Nat × Scopes :=
  let marked := s.reachable store roots
  let dead := s.graph.nodeIds.filter fun n => !marked.contains n
  let graph := dead.foldl SlotGraph.removeNode s.graph
  let declared := s.declared.filter fun (scope, _) var => graph.hasNode scope && graph.hasNode var
  (dead.length, ⟨graph, declared⟩)

end GraphLang.Scopes
