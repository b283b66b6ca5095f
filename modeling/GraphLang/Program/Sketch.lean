import GraphLang.Program.Builder
import GraphLang.Program.Document

/-!
# Sketches of programs

Programs are long to write as documents of nodes and edges. In a sketch a
node is an array of its name and its parts, and a scalar stands for itself:
`["if", ["<", ["var", "n"], 2], 1]`. Parts are built in the order written, then the
node itself.
-/

namespace GraphLang

/-- Reads a scalar that stands for itself; doubles are written `{"f": text}`. -/
def Literal.ofPlain? : Json → Option Literal
  | .null => some .nil
  | .bool b => some (.bool b)
  | .str s => some (.str s)
  | .obj [("f", .str text)] => (Decimal.read text).map .float
  | d => d.toInt64?.map .int

namespace Sketch

/-- Builds parts one after the other. -/
def parts : List (Build Nat) → Build (List Nat)
  | [] => return []
  | first :: rest => do
    let n ← first
    let ns ← parts rest
    return n :: ns

/-- Puts a part into so many blocks. -/
def nested (part : Build Nat) : Nat → Build Nat
  | 0 => part
  | n + 1 => do
    let inner ← nested part n
    Build.block [inner]

/-- Builds a part that may be missing. -/
def maybe : Option (Build Nat) → Build (Option Nat)
  | none => return none
  | some part => do
    let n ← part
    return some n

/-- A node with the given parts, from the name and the other pieces of its array. -/
def node? (read : Json → Option (Build Nat)) (name : String) (pieces : List Json) :
    Option (Build Nat) := do
  let all (ts : List Json) : Option (Build (List Nat)) := (ts.mapM read).map parts
  let one (build : Nat → Build Nat) (a : Json) : Option (Build Nat) := do
    let a ← read a
    return do build (← a)
  let two (build : Nat → Nat → Build Nat) (a b : Json) : Option (Build Nat) := do
    let a ← read a
    let b ← read b
    return do build (← a) (← b)
  let three (build : Nat → Nat → Nat → Build Nat) (a b c : Json) : Option (Build Nat) := do
    let a ← read a
    let b ← read b
    let c ← read c
    return do build (← a) (← b) (← c)
  let option (t : Json) : Option (Build (Option Nat)) :=
    match t with
    | .null => some (maybe none)
    | t => (read t).map fun part => maybe (some part)
  match name, pieces with
  | "lit", [l] => (Literal.ofPlain? l).map Build.literal
  | "var", [.str n] => some (Build.var n)
  | "list", ts => do
    let elements ← all ts
    return do Build.list (← elements)
  | "map", es => do
    let entries ← es.mapM fun e => match e with
      | .arr [l, t] => do return (← Literal.ofPlain? l, ← read t)
      | _ => none
    return do Build.map ((entries.map (·.1)).zip (← parts (entries.map (·.2))))
  | "def", [.str n, t] => one (Build.define n) t
  | "const", [.str n, t] => one (Build.defineConst n) t
  | "set", [.str n, t] => one (Build.assign n) t
  | "neg", [t] => one (Build.unary .neg) t
  | "not", [t] => one (Build.unary .not) t
  | "and", [a, b] => two (Build.logical .and) a b
  | "or", [a, b] => two (Build.logical .or) a b
  | "call", f :: ts => do
    let f ← read f
    let args ← all ts
    return do Build.call (← f) (← args)
  | "calln", .str n :: ts => do
    let args ← all ts
    return do Build.callNamed n (← args)
  | "fn", [.str n, ps, t] => do
    return Build.function n (← ps.toList? Json.toString?) (← read t)
  | "defn", [.str n, ps, t] => do return Build.def_ n (← ps.toList? Json.toString?) (← read t)
  | "ret", [] => some (Build.leave none)
  | "ret", [t] => one (fun n => Build.leave (some n)) t
  | "if", [c, t] => two (fun c t => Build.branch c t none) c t
  | "if", [c, t, e] => three (fun c t e => Build.branch c t (some e)) c t e
  | "while", [c, b] => two Build.loop c b
  | "for", [.str n, i, b] => two (Build.each n) i b
  | "break", [] => some (Build.node .breakLoop [])
  | "continue", [] => some (Build.node .continueLoop [])
  | "raise", [t] => one Build.raise t
  | "try", b :: v :: h :: rest => do
    let b ← read b
    let h ← option h
    let f ← option (rest.headD .null)
    return do Build.guarded (← b) v.toString? (← h) (← f)
  | "block", ts => do
    let statements ← all ts
    return do Build.block (← statements)
  | "idx", [t, i] => two Build.index t i
  | "setidx", [t, i, v] => three Build.setIndex t i v
  | "append", [t, v] => two Build.append t v
  | "remove", [t, i] => two Build.removeAt t i
  | "rule", t :: spec :: ts => do
    let t ← read t
    let spec ← RuleSpec.decode .part spec
    let args ← all ts
    return do Build.addRule (← t) spec (← args)
  | "ruleset", .str n :: specs :: ts => do
    let specs ← specs.toList? (RuleSpec.decode .part)
    let args ← all ts
    return do Build.defineRuleset n specs (← args)
  | "apply", [.str n, t] => one (Build.applyRuleset n) t
  | "freeze", [t] => one Build.freeze t
  | "graph", [.str kind] => some (Build.newGraph kind)
  | "member", [g, v] => two (fun g v => Build.addMember g v none) g v
  | "member", [g, v, p, .str n] => three (fun g v p => Build.addMember g v (some (p, n))) g v p
  | "link", [g, a, b, .str n] => three (fun g a b => Build.link g a b n none) g a b
  | "link", [g, a, b, .str n, d] => do
    let d ← read d
    three (fun g a b => do Build.link g a b n (some (← d))) g a b
  | "at", [l, c, t] => do
    let line ← l.toNat32?
    let column ← c.toNat32?
    let t ← read t
    return do
      Build.at_ line column
      t
  | "node", [op, .arr children] => do
    let op ← Op.decode .part op
    let children ← children.mapM fun e => match e with
      | .arr [r, t] => do return (← Role.decode r, ← read t)
      | _ => none
    return do Build.node op ((children.map (·.1)).zip (← parts (children.map (·.2))))
  | "ref", [n] => n.toNat32?.map pure
  | "nest", [n, t] => do return nested (← read t) (← n.toNat32?)
  | symbol, [a, b] => do two (Build.binary (← BinaryOp.ofSymbol? symbol)) a b
  | _, _ => none

/-- Reads a part nested at most so deep. -/
def readWithin : Nat → Json → Option (Build Nat)
  | 0, _ => none
  | depth + 1, .arr (.str name :: pieces) => node? (readWithin depth) name pieces
  | _ + 1, d => (Literal.ofPlain? d).map Build.literal

/-- Reads a part. -/
def read (d : Json) : Option (Build Nat) := readWithin d.depth d

end Sketch

end GraphLang
