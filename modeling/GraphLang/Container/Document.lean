import GraphLang.Rule.Mutation
import GraphLang.Store.Snapshot

/-!
# Parts of containers as documents

How the kinds of containers, the labels of their edges, and the members to remove are
written and read.
-/

namespace GraphLang

namespace Kind

/-- The kind as a document. -/
def encode : Kind → Json
  | .list => .str "list"
  | .map => .str "map"
  | .user name => .obj [("user", .str name)]

/-- Reads a kind. -/
def decode : Json → Option Kind
  | .str "list" => some .list
  | .str "map" => some .map
  | .obj [("user", .str name)] => some (.user name)
  | _ => none

/-- Reading what was written gives the kind. -/
@[simp] theorem decode_encode (k : Kind) : decode k.encode = some k := by
  cases k <;> rfl

end Kind

/-- Reads a label. -/
def Label.decode : Json → Option Label
  | .str "element" => some .element
  | .str "contains" => some .contains
  | .obj [("entry", key)] => (Key.decode key).map .entry
  | .obj [("link", .str name)] => some (.link name)
  | _ => none

/-- Reads which member is to be removed. -/
def Target.decode : Json → Option Target
  | .obj [("index", i)] => i.toNat64?.map .index
  | .obj [("key", k)] => (Key.decode k).map .key
  | .obj [("node", n)] => n.toNat32?.map .node
  | _ => none

end GraphLang
