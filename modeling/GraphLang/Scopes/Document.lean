import GraphLang.Json.Decode
import GraphLang.Scopes.Basic

/-!
# Scopes as documents

The names of the kinds of scopes and edges, and a document that lists all nodes and
edges of the scope graph.
-/

namespace GraphLang

namespace ScopeKind

/-- The kinds of scopes with their names. -/
def named : List (String × ScopeKind) :=
  [("prelude", .prelude), ("module", .module), ("function", .function), ("block", .block),
    ("loop", .loop), ("catch", .catch)]

/-- The kind of that name. -/
def ofName? (name : String) : Option ScopeKind := named.lookup name

/-- The name of a kind. -/
def display : ScopeKind → String
  | .prelude => "prelude"
  | .module => "module"
  | .function => "function"
  | .block => "block"
  | .loop => "loop"
  | .catch => "catch"

/-- Reading the name of a kind gives the kind. -/
@[simp] theorem ofName?_display (k : ScopeKind) : ofName? k.display = some k := by
  cases k <;> rfl

end ScopeKind

/-- Reads a kind of edge. -/
def ScopeEdge.decode (d : Json) : Option ScopeEdge := do
  let (name, content) ← d.variant?
  if !Json.isUnit content then none
  match name with
  | "Parent" => some .parent
  | "Contains" => some .contains
  | "BindsTo" => some .bindsTo
  | "Captures" => some .captures
  | _ => none

namespace Scopes

/-- A node of the scope graph as a document; values are shown by their texts. -/
def encodeNode (store : Store) (n : Nat) : ScopeNode → Json
  | .scope kind active => .arr [.nat n, .str "scope", .str kind.display, .bool active]
  | .variable name mutable => .arr [.nat n, .str "variable", .str name, .bool mutable]
  | .binding value => .arr [.nat n, .str "binding", .str (store.display value)]
  | .closure name => .arr [.nat n, .str "closure", .str name]

/-- All nodes and edges, by number. -/
def encode (s : Scopes) (store : Store) : Json :=
  .obj [
    ("nodes", .arr (s.graph.nodes.map fun (n, node) => encodeNode store n node)),
    ("edges", .arr (s.graph.edgeList.map fun (_, edge) =>
      .arr [.nat edge.source, .nat edge.target, .str edge.weight.display]))]

end Scopes

end GraphLang
