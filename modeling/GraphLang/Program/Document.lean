import GraphLang.Json.Parser
import GraphLang.Program.Basic
import GraphLang.SlotGraph.Document

/-!
# Programs as documents

How the parts of a program are written as JSON and read back.
-/

namespace GraphLang

/-- A variant with a content. -/
def Json.tagged (name : String) (content : Json) : Json := .obj [(name, content)]

/-- A variant without content, if it has none. -/
def Json.unit? {α : Type} (c : Option Json) (a : α) : Option α :=
  if Json.isUnit c then some a else none

/-- A record with one text field. -/
def Json.named? (origin : Json.Origin) (field : String) (c : Option Json) : Option String := do
  match ← Json.contentFields? origin (Json.strict [field]) c with
  | [name] => (← name).toString?
  | _ => none

namespace Literal

/-- The literal as a document. -/
def encode : Literal → Json
  | .nil => .str "none"
  | .bool b => .tagged "bool" (.bool b)
  | .int i => .tagged "int" (.int i.toInt)
  | .float x => .tagged "float" (.float x)
  | .str s => .tagged "str" (.str s)

/-- Reads a literal. -/
def decode (d : Json) : Option Literal := do
  match ← d.variant? with
  | ("none", c) => Json.unit? c .nil
  | ("bool", c) => (← c).toBool?.map .bool
  | ("int", c) => (← c).toInt64?.map .int
  | ("float", c) => (← c).toFloat?.map .float
  | ("str", c) => (← c).toString?.map .str
  | _ => none

end Literal

namespace RuleSpec

/-- The description as a document. -/
def encode : RuleSpec → Json
  | .maxSize n => .tagged "max_size" (.nat n)
  | .acyclic => .str "acyclic"
  | .singleRoot => .str "single_root"
  | .homogeneous => .str "homogeneous"
  | .predicate name => .tagged "predicate" (.obj [("name", .str name)])
  | .noneToZero => .str "none_to_zero"
  | .coalesce l => .tagged "coalesce" l.encode
  | .clamp min max => .tagged "validate_range" (.obj [("min", min.encode), ("max", max.encode)])
  | .round digits => .tagged "round" (.nat digits)
  | .lowercase => .str "lowercase"
  | .uppercase => .str "uppercase"
  | .trim => .str "trim"
  | .lookup l => .tagged "lookup" (.obj [("default", l.encode)])
  | .custom name => .tagged "custom" (.obj [("name", .str name)])
  | .conditional t => .tagged "conditional" (.obj [("transform", t.encode)])
  | .conditionalElse t f =>
    .tagged "conditional" (.obj [("transform", t.encode), ("fallback", f.encode)])
  | .rejectMixedFreeze => .str "reject_mixed_freeze"
  | .copyElements => .str "copy_elements"

/-- Reads a description nested at most so deep. -/
def decodeWithin (origin : Json.Origin) : Nat → Json → Option RuleSpec
  | 0, _ => none
  | depth + 1, d => do
    match ← d.variant? with
    | ("max_size", c) => (← c).toNat64?.map .maxSize
    | ("acyclic", c) => Json.unit? c .acyclic
    | ("single_root", c) => Json.unit? c .singleRoot
    | ("homogeneous", c) => Json.unit? c .homogeneous
    | ("predicate", c) => (Json.named? origin "name" c).map .predicate
    | ("none_to_zero", c) => Json.unit? c .noneToZero
    | ("coalesce", c) => (Literal.decode (← c)).map .coalesce
    | ("validate_range", c) =>
      match ← Json.contentFields? origin (Json.strict ["min", "max"]) c with
      | [min, max] => return .clamp (← Literal.decode (← min)) (← Literal.decode (← max))
      | _ => none
    | ("round", c) => (← c).toNat32?.map .round
    | ("lowercase", c) => Json.unit? c .lowercase
    | ("uppercase", c) => Json.unit? c .uppercase
    | ("trim", c) => Json.unit? c .trim
    | ("lookup", c) =>
      match ← Json.contentFields? origin (Json.strict ["default"]) c with
      | [default] => return .lookup (← Literal.decode (← default))
      | _ => none
    | ("custom", c) => (Json.named? origin "name" c).map .custom
    | ("conditional", c) =>
      match ← Json.contentFields? origin [⟨"transform", false⟩, ⟨"fallback", true⟩] c with
      | [transform, fallback] =>
        let t ← decodeWithin origin depth (← transform)
        match fallback with
        | none | some .null => return .conditional t
        | some f => return .conditionalElse t (← decodeWithin origin depth f)
      | _ => none
    | ("reject_mixed_freeze", c) => Json.unit? c .rejectMixedFreeze
    | ("copy_elements", c) => Json.unit? c .copyElements
    | _ => none

/-- Reads a description. -/
def decode (origin : Json.Origin) (d : Json) : Option RuleSpec := decodeWithin origin d.depth d

end RuleSpec

namespace Role

/-- The role as a document. -/
def encode : Role → Json
  | .argument i => .tagged "argument" (.nat i)
  | .element i => .tagged "element" (.nat i)
  | .statement i => .tagged "statement" (.nat i)
  | role => .str role.display

/-- Reads a role. -/
def decode (d : Json) : Option Role := do
  match ← d.variant? with
  | ("left", c) => Json.unit? c .left
  | ("right", c) => Json.unit? c .right
  | ("operand", c) => Json.unit? c .operand
  | ("callee", c) => Json.unit? c .callee
  | ("argument", c) => (← c).toNat16?.map .argument
  | ("condition", c) => Json.unit? c .condition
  | ("then", c) => Json.unit? c .whenTrue
  | ("else", c) => Json.unit? c .whenFalse
  | ("body", c) => Json.unit? c .body
  | ("target", c) => Json.unit? c .target
  | ("index", c) => Json.unit? c .index
  | ("value", c) => Json.unit? c .value
  | ("element", c) => (← c).toNat16?.map .element
  | ("statement", c) => (← c).toNat16?.map .statement
  | ("handler", c) => Json.unit? c .handler
  | ("finally", c) => Json.unit? c .finalizer
  | _ => none

end Role

namespace BinaryOp

/-- The name of an operator in documents. -/
def word : BinaryOp → String
  | .add => "add"
  | .sub => "sub"
  | .mul => "mul"
  | .div => "div"
  | .mod => "mod"
  | .eq => "eq"
  | .ne => "ne"
  | .lt => "lt"
  | .le => "le"
  | .gt => "gt"
  | .ge => "ge"

/-- All operators. -/
def all : List BinaryOp := [.add, .sub, .mul, .div, .mod, .eq, .ne, .lt, .le, .gt, .ge]

/-- The operator of that symbol. -/
def ofSymbol? (symbol : String) : Option BinaryOp := all.find? (·.symbol == symbol)

end BinaryOp

/-- Reads a variant without content whose name is one of the given ones. -/
def Json.choice? {α : Type} (choices : List (String × α)) (d : Json) : Option α := do
  let (name, c) ← d.variant?
  let (_, a) ← choices.find? (·.1 == name)
  Json.unit? c a

namespace Op

/-- The operation as a document. -/
def encode : Op → Json
  | .literal l => .tagged "literal" l.encode
  | .list => .str "list_literal"
  | .map keys => .tagged "map_literal" (.obj [("keys", .arr (keys.map Literal.encode))])
  | .var name => .tagged "var" (.obj [("name", .str name)])
  | .define name mutable =>
    .tagged "define" (.obj [("name", .str name), ("mutable", .bool mutable)])
  | .assign name => .tagged "assign" (.obj [("name", .str name)])
  | .binary op => .tagged "binary" (.str op.word)
  | .unary op => .tagged "unary" (.str (match op with | .neg => "neg" | .not => "not"))
  | .logical op => .tagged "logical" (.str (match op with | .and => "and" | .or => "or"))
  | .call => .str "call"
  | .function f => .tagged "function" (.obj [("function", .nat f)])
  | .leave => .str "return"
  | .branch => .str "if"
  | .loop => .str "while"
  | .each name => .tagged "for" (.obj [("var", .str name)])
  | .breakLoop => .str "break"
  | .continueLoop => .str "continue"
  | .raise => .str "raise"
  | .guarded catchName =>
    .tagged "try" (.obj (match catchName with
      | some name => [("catch_var", .str name)]
      | none => []))
  | .block => .str "block"
  | .index => .str "index"
  | .setIndex => .str "set_index"
  | .append => .str "append"
  | .removeAt => .str "remove_at"
  | .addRule rule => .tagged "add_rule" (.obj [("rule", rule.encode)])
  | .defineRuleset name rules =>
    .tagged "define_ruleset"
      (.obj [("name", .str name), ("rules", .arr (rules.map RuleSpec.encode))])
  | .applyRuleset name => .tagged "apply_ruleset" (.obj [("name", .str name)])
  | .freeze => .str "freeze"
  | .newGraph kind => .tagged "new_graph" (.obj [("kind", .str kind)])
  | .addMember linkName =>
    .tagged "add_member" (.obj (match linkName with
      | some name => [("link", .str name)]
      | none => []))
  | .link name => .tagged "link" (.obj [("name", .str name)])

/-- Reads a record with one text field that may be missing. -/
def maybeNamed? (origin : Json.Origin) (field : String) (c : Option Json) :
    Option (Option String) := do
  match ← Json.contentFields? origin [⟨field, true⟩] c with
  | [name] => Json.optionalField? Json.toString? name
  | _ => none

/-- Reads an operation. -/
def decode (origin : Json.Origin) (d : Json) : Option Op := do
  match ← d.variant? with
  | ("literal", c) => (Literal.decode (← c)).map .literal
  | ("list_literal", c) => Json.unit? c .list
  | ("map_literal", c) =>
    match ← Json.contentFields? origin (Json.strict ["keys"]) c with
    | [keys] => ((← keys).toList? Literal.decode).map .map
    | _ => none
  | ("var", c) => (Json.named? origin "name" c).map .var
  | ("define", c) =>
    match ← Json.contentFields? origin [⟨"name", false⟩, ⟨"mutable", true⟩] c with
    | [name, mutable] =>
      let mutable ← match mutable with
        | some d => d.toBool?
        | none => some true
      return .define (← (← name).toString?) mutable
    | _ => none
  | ("assign", c) => (Json.named? origin "name" c).map .assign
  | ("binary", c) => (Json.choice? (BinaryOp.all.map fun op => (op.word, op)) (← c)).map .binary
  | ("unary", c) => (Json.choice? [("neg", .neg), ("not", .not)] (← c)).map .unary
  | ("logical", c) => (Json.choice? [("and", .and), ("or", .or)] (← c)).map .logical
  | ("call", c) => Json.unit? c .call
  | ("function", c) =>
    match ← Json.contentFields? origin (Json.strict ["function"]) c with
    | [f] => (← f).toNat32?.map .function
    | _ => none
  | ("return", c) => Json.unit? c .leave
  | ("if", c) => Json.unit? c .branch
  | ("while", c) => Json.unit? c .loop
  | ("for", c) => (Json.named? origin "var" c).map .each
  | ("break", c) => Json.unit? c .breakLoop
  | ("continue", c) => Json.unit? c .continueLoop
  | ("raise", c) => Json.unit? c .raise
  | ("try", c) => (maybeNamed? origin "catch_var" c).map .guarded
  | ("block", c) => Json.unit? c .block
  | ("index", c) => Json.unit? c .index
  | ("set_index", c) => Json.unit? c .setIndex
  | ("append", c) => Json.unit? c .append
  | ("remove_at", c) => Json.unit? c .removeAt
  | ("add_rule", c) =>
    match ← Json.contentFields? origin (Json.strict ["rule"]) c with
    | [rule] => (RuleSpec.decode origin (← rule)).map .addRule
    | _ => none
  | ("define_ruleset", c) =>
    match ← Json.contentFields? origin (Json.strict ["name", "rules"]) c with
    | [name, rules] =>
      return .defineRuleset (← (← name).toString?) (← (← rules).toList? (RuleSpec.decode origin))
    | _ => none
  | ("apply_ruleset", c) => (Json.named? origin "name" c).map .applyRuleset
  | ("freeze", c) => Json.unit? c .freeze
  | ("new_graph", c) => (Json.named? origin "kind" c).map .newGraph
  | ("add_member", c) => (maybeNamed? origin "link" c).map .addMember
  | ("link", c) => (Json.named? origin "name" c).map .link
  | _ => none

end Op

namespace Location

/-- The place as a document. -/
def encode (l : Location) : Json := .obj [("line", .nat l.line), ("column", .nat l.column)]

/-- Reads a place. -/
def decode (d : Json) : Option Location := do
  match ← d.fields? (Json.strict ["line", "column"]) with
  | [line, column] => return ⟨← (← line).toNat32?, ← (← column).toNat32?⟩
  | _ => none

end Location

namespace Node

/-- The node as a document. -/
def encode (n : Node) : Json :=
  .obj ([("op", n.op.encode), ("owner", .nat n.owner)] ++
    (match n.location with
    | some l => [("location", l.encode)]
    | none => []))

/-- Reads a node of a document that was read from a text. -/
def decode (d : Json) : Option Node := do
  match ← d.fields? [⟨"op", false⟩, ⟨"owner", false⟩, ⟨"location", true⟩] with
  | [op, owner, location] =>
    return ⟨← Op.decode .text (← op), ← (← owner).toNat32?,
      ← Json.optionalField? Location.decode location⟩
  | _ => none

end Node

namespace FunctionDef

/-- The function as a document. -/
def encode (f : FunctionDef) : Json :=
  .obj [
    ("id", .nat f.id),
    ("name", .str f.name),
    ("params", .arr (f.params.map Json.str)),
    ("body", .option (f.body.map Json.nat)),
    ("parent", .option (f.parent.map Json.nat))]

/-- Reads a function. -/
def decode (d : Json) : Option FunctionDef := do
  match ← d.fields? (Json.strict ["id", "name", "params", "body", "parent"]) with
  | [id, name, params, body, parent] =>
    return ⟨← (← id).toNat32?, ← (← name).toString?, ← (← params).toList? Json.toString?,
      ← Json.optionalField? Json.toNat32? body, ← Json.optionalField? Json.toNat32? parent⟩
  | _ => none

end FunctionDef

namespace FunctionTable

/-- The table as a document: the functions under their numbers. -/
def encode (t : FunctionTable) : Json :=
  .obj (t.map fun (id, d) => (Decimal.digitText id, d.encode))

/-- Reads a number that stands as the name of a member. -/
def keyNumber? (key : String) : Option Nat :=
  match Json.parse key with
  | some d => if key.toList.all Decimal.isDigit then d.toNat32? else none
  | none => none

/-- Reads a table. Of two functions under one number the later one counts. -/
def decode : Json → Option FunctionTable
  | .obj members =>
    members.foldlM (fun t (key, d) => do
      return FunctionTable.insert t (← keyNumber? key) (← FunctionDef.decode d)) []
  | _ => none

end FunctionTable

namespace Program

/-- The program as a document. -/
def encode (p : Program) : Json :=
  .obj [
    ("name", .str p.name),
    ("graph", p.graph.encode Node.encode Role.encode),
    ("functions", p.functions.encode),
    ("next_function_id", .nat p.nextFunction)]

/-- Reads a program. -/
def decode (d : Json) : Option Program := do
  match ← d.fields? (Json.strict ["name", "graph", "functions", "next_function_id"]) with
  | [name, graph, functions, next] =>
    return ⟨← (← name).toString?, ← SlotGraph.decode Node.decode Role.decode (← graph),
      ← FunctionTable.decode (← functions), ← (← next).toNat32?⟩
  | _ => none

/-- Reads a program from the text of its document. -/
def parse (text : String) : Option Program := (Json.parse text).bind decode

end Program

end GraphLang
