import GraphLang.Eval.Operators
import GraphLang.Program.Role
import GraphLang.Rule.Spec

/-!
# Operations

What a node of a program does, and which children it takes.
-/

namespace GraphLang

/-- What a node does. -/
inductive Op where
  /-- A scalar. -/
  | literal (l : Literal)
  /-- A list of the elements. -/
  | list
  /-- A map of the elements under the given keys. -/
  | map (keys : List Literal)
  /-- Reads a variable. -/
  | var (name : String)
  /-- Defines a variable in the current scope. -/
  | define (name : String) (mutable : Bool)
  /-- Writes a variable that can be seen. -/
  | assign (name : String)
  /-- An operator with two operands. -/
  | binary (op : BinaryOp)
  /-- An operator with one operand. -/
  | unary (op : UnaryOp)
  /-- A connective. -/
  | logical (op : LogicalOp)
  /-- Calls a function or a native. -/
  | call
  /-- Makes a closure of a function. -/
  | function (f : FunctionId)
  /-- Leaves the function, perhaps with a value. -/
  | leave
  /-- One branch or the other. -/
  | branch
  /-- Repeats the body while the condition holds. -/
  | loop
  /-- Runs the body for each item. -/
  | each (name : String)
  /-- Leaves the loop. -/
  | breakLoop
  /-- Leaves the iteration. -/
  | continueLoop
  /-- Raises an exception. -/
  | raise
  /-- A body with a handler, with a closing part, or with both. -/
  | guarded (catchName : Option String)
  /-- Statements in a scope of their own. -/
  | block
  /-- Reads a member. -/
  | index
  /-- Writes a member. -/
  | setIndex
  /-- Appends to a list. -/
  | append
  /-- Removes a member. -/
  | removeAt
  /-- Attaches a rule. -/
  | addRule (rule : RuleSpec)
  /-- Defines a ruleset. -/
  | defineRuleset (name : String) (rules : List RuleSpec)
  /-- Attaches the rules of a ruleset. -/
  | applyRuleset (name : String)
  /-- Freezes a container. -/
  | freeze
  /-- Makes an empty user graph. -/
  | newGraph (kind : String)
  /-- Adds a member to a user graph, perhaps with a link of that name. -/
  | addMember (link : Option String)
  /-- Adds a link between members. -/
  | link (name : String)
deriving Inhabited

/-- The children that a node takes. -/
structure Shape where
  /-- The roles that must be filled. -/
  required : List Role
  /-- The roles that may be filled. -/
  optional : List Role
  /-- The kind of roles that are filled by position, if there is one. -/
  indexed : Option Role
deriving Repr, DecidableEq, Inhabited

/-- Whether a child may have that role. -/
def Shape.accepts (shape : Shape) (role : Role) : Bool :=
  shape.required.contains role || shape.optional.contains role ||
    (match shape.indexed with
    | some family => family.sameFamily role
    | none => false)

namespace Op

/-- The children that the operation takes. -/
def shape : Op → Shape
  | .literal _ | .var _ | .function _ | .breakLoop | .continueLoop | .newGraph _ => ⟨[], [], none⟩
  | .list | .map _ => ⟨[], [], some (.element 0)⟩
  | .define .. | .assign _ | .raise => ⟨[.value], [], none⟩
  | .binary _ | .logical _ => ⟨[.left, .right], [], none⟩
  | .unary _ => ⟨[.operand], [], none⟩
  | .call => ⟨[.callee], [], some (.argument 0)⟩
  | .leave => ⟨[], [.value], none⟩
  | .branch => ⟨[.condition, .whenTrue], [.whenFalse], none⟩
  | .loop => ⟨[.condition, .body], [], none⟩
  | .each _ => ⟨[.target, .body], [], none⟩
  | .guarded _ => ⟨[.body], [.handler, .finalizer], none⟩
  | .block => ⟨[], [], some (.statement 0)⟩
  | .index | .removeAt => ⟨[.target, .index], [], none⟩
  | .setIndex => ⟨[.target, .index, .value], [], none⟩
  | .append => ⟨[.target, .value], [], none⟩
  | .addRule _ => ⟨[.target], [], some (.argument 0)⟩
  | .defineRuleset .. => ⟨[], [], some (.argument 0)⟩
  | .applyRuleset _ | .freeze => ⟨[.target], [], none⟩
  | .addMember _ => ⟨[.target, .value], [.left], none⟩
  | .link _ => ⟨[.target, .left, .right], [.value], none⟩

/-- The rules that the operation makes. -/
def ruleSpecs : Op → List RuleSpec
  | .addRule rule => [rule]
  | .defineRuleset _ rules => rules
  | _ => []

/-- How many indexed children the operation takes, where it says so itself. -/
def indexedCount : Op → Option Nat
  | .map keys => some keys.length
  | .addRule rule => some rule.argCount
  | .defineRuleset _ rules => some (rules.foldl (fun n rule => n + rule.argCount) 0)
  | _ => none

/-- The name of the operation. -/
def name : Op → String
  | .literal _ => "literal"
  | .list => "list"
  | .map _ => "map"
  | .var _ => "var"
  | .define .. => "define"
  | .assign _ => "assign"
  | .binary _ => "binary"
  | .unary _ => "unary"
  | .logical _ => "logical"
  | .call => "call"
  | .function _ => "function"
  | .leave => "return"
  | .branch => "if"
  | .loop => "while"
  | .each _ => "for"
  | .breakLoop => "break"
  | .continueLoop => "continue"
  | .raise => "raise"
  | .guarded _ => "try"
  | .block => "block"
  | .index => "index"
  | .setIndex => "set_index"
  | .append => "append"
  | .removeAt => "remove_at"
  | .addRule _ => "add_rule"
  | .defineRuleset .. => "define_ruleset"
  | .applyRuleset _ => "apply_ruleset"
  | .freeze => "freeze"
  | .newGraph _ => "new_graph"
  | .addMember _ => "add_member"
  | .link _ => "link"

/-- Whether the operation is a loop. -/
def isLoop : Op → Bool
  | .loop | .each _ => true
  | _ => false

/-- Whether no statement after this one can run. -/
def diverges : Op → Bool
  | .leave | .raise | .breakLoop | .continueLoop => true
  | _ => false

/-- The text of the operation. -/
def display : Op → String
  | .literal l => "literal " ++ l.display
  | .var name => "var " ++ name
  | .define name _ => "define " ++ name
  | .assign name => "assign " ++ name
  | .binary op => "binary " ++ op.symbol
  | .unary .neg => "unary -"
  | .unary .not => "unary not"
  | .logical .and => "logical and"
  | .logical .or => "logical or"
  | .function f => s!"function #{f}"
  | .each name => "for " ++ name
  | .applyRuleset name => "apply_ruleset " ++ name
  | .defineRuleset name _ => "define_ruleset " ++ name
  | op => op.name

end Op

end GraphLang
