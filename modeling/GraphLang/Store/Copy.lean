import GraphLang.Store.Basic
import Std.Data.HashMap.Basic

/-!
# Deep copies

A deep copy has a fresh container for every container that its nodes lead to, so
that it shares none of them with the source. Two nodes that hold the same container
in the source hold the same fresh one in the copy: a fresh container is empty at
first, and is noted under its source before the contents of the source are copied.
-/

namespace GraphLang.Store

/-- A copy under way. -/
structure Copying where
  /-- The store. -/
  store : Store
  /-- The fresh containers, by their sources. -/
  memo : Std.HashMap GraphId GraphId

/-- Makes an empty container and notes it under the one that it is to be a copy of. -/
def Copying.place (state : Copying) (g : GraphId) (kind : Kind) : GraphId × Copying :=
  let (fresh, store) := state.store.alloc (.new kind)
  (fresh, ⟨store, state.memo.insert g fresh⟩)

/-- Puts copies in the place of the containers that the given nodes hold. -/
def copyNodes (copy : GraphId → Copying → GraphId × Copying) :
    List Nat → Container → Copying → Container × Copying
  | [], c, state => (c, state)
  | n :: rest, c, state =>
    match c.value? n with
    | some (.graph g) =>
      let (fresh, state) := copy g state
      copyNodes copy rest (c.putValue n (.graph fresh)) state
    | _ => copyNodes copy rest c state

/-- The container, unfrozen and with copies in the place of the containers that its nodes hold. -/
def copyWith (copy : GraphId → Copying → GraphId × Copying) (c : Container) (state : Copying) :
    Container × Copying :=
  copyNodes copy c.graph.nodeIds { c with frozen := false } state

/-- The fresh container for one that is held, made now unless it is noted. As everywhere, a number
that is none of the first `bound` ones stands for an empty list. Each unit of fuel pays for one
container inside of another. -/
def copyNested (bound : Nat) : Nat → GraphId → Copying → GraphId × Copying
  | 0, g, state => (g, state)
  | fuel + 1, g, state =>
    match state.memo[g]? with
    | some fresh => (fresh, state)
    | none =>
      let c := if g < bound then state.store.get g else .new .list
      let (fresh, state) := state.place g c.kind
      let (copied, state) := copyWith (copyNested bound fuel) c state
      (fresh, { state with store := state.store.set fresh copied })

/-- A deep copy of a container. The containers it leads to are copied into the store. -/
def deepCopy (s : Store) (c : Container) : Container × Store :=
  let (copy, state) := copyWith (copyNested s.graphs.size (s.graphs.size + 1)) c ⟨s, ∅⟩
  (copy, state.store)

end GraphLang.Store
