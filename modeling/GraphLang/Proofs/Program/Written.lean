import GraphLang.Proofs.Decimal.Readable
import GraphLang.Proofs.Program.Encoding

/-!
# Programs that are written

A program may be written if its numbers fit into their words and its functions stand in the order of
their numbers. A document has no text for a double that is not finite, and its text for every other
double is read as a double. So the text of a program can be read exactly if every double in it is
finite and no edge starts or ends at a vacant slot behind all nodes.
-/

namespace GraphLang

open Json

/-! ### Doubles -/

/-- The scalar is no infinity, and it is a number if it is a double. -/
def Literal.Finite : Literal → Prop
  | .float x => x.isFinite = true
  | _ => True

/-- All doubles in the description are finite. -/
def RuleSpec.Finite : RuleSpec → Prop
  | .coalesce l | .lookup l => l.Finite
  | .clamp min max => min.Finite ∧ max.Finite
  | .conditional t => t.Finite
  | .conditionalElse t f => t.Finite ∧ f.Finite
  | _ => True

/-- All doubles in the operation are finite. -/
def Op.Finite : Op → Prop
  | .literal l => l.Finite
  | .map keys => ∀ l ∈ keys, l.Finite
  | .addRule rule => rule.Finite
  | .defineRuleset _ rules => ∀ rule ∈ rules, rule.Finite
  | _ => True

/-- The text of a double is read as a double, or it cannot be read as one. -/
theorem Json.rereadFloat_cases (x : Float) :
    (∃ y, rereadFloat x = .float y) ∧ x.isFinite = true ∨
      (rereadFloat x).toFloat? = none ∧ x.isFinite = false := by
  unfold rereadFloat
  split
  · rename_i hfinite
    obtain ⟨b, hb, hmantissa, hexponent⟩ := Decimal.exists_classify hfinite
    obtain ⟨y, hy⟩ := Option.isSome_iff_exists.1
      (Decimal.Binary.isSome_documentValue hmantissa hexponent)
    refine Or.inl ⟨⟨y, ?_⟩, hfinite⟩
    simp [hb, ofWritten, Decimal.Binary.isInteger_written, hy]
  · rename_i hinfinite
    exact Or.inr ⟨rfl, by simpa using hinfinite⟩

theorem Json.isSome_rereadFloat (x : Float) :
    (rereadFloat x).toFloat?.isSome ↔ x.isFinite = true := by
  rcases rereadFloat_cases x with ⟨⟨y, hy⟩, hfinite⟩ | ⟨hnone, hinfinite⟩
  · rw [hy, hfinite]
    exact iff_of_true rfl rfl
  · rw [hnone, hinfinite]
    exact iff_of_false nofun nofun

theorem Literal.isSome_reread? (l : Literal) : l.reread?.isSome ↔ l.Finite := by
  cases l with
  | float x => rw [reread?, Option.isSome_map, Json.isSome_rereadFloat, Finite]
  | _ => exact iff_of_true rfl trivial

theorem RuleSpec.isSome_reread? (spec : RuleSpec) : spec.reread?.isSome ↔ spec.Finite := by
  have hboth {α β : Type} {a : Option α} {b : Option β} {f : α → β → RuleSpec} :
      (do return f (← a) (← b) : Option RuleSpec).isSome ↔ a.isSome ∧ b.isSome := by
    cases a <;> cases b <;> simp
  induction spec with
  | coalesce l => rw [reread?, Option.isSome_map, l.isSome_reread?, Finite]
  | lookup l => rw [reread?, Option.isSome_map, l.isSome_reread?, Finite]
  | clamp min max => rw [reread?, hboth, min.isSome_reread?, max.isSome_reread?, Finite]
  | conditional t ih =>
    refine Iff.trans ?_ ih
    rw [reread?]
    cases t.reread? <;> simp
  | conditionalElse t f iht ihf =>
    rw [reread?, hboth]
    exact and_congr iht ihf
  | _ => exact iff_of_true rfl trivial

theorem Op.isSome_reread? (o : Op) : o.reread?.isSome ↔ o.Finite := by
  cases o with
  | literal l => rw [reread?, Option.isSome_map, l.isSome_reread?, Finite]
  | map keys =>
    rw [reread?, Option.isSome_map, isSome_mapM_iff, Finite]
    exact forall₂_congr fun l _ => l.isSome_reread?
  | addRule rule => rw [reread?, Option.isSome_map, rule.isSome_reread?, Finite]
  | defineRuleset name rules =>
    have hrules : (rules.mapM RuleSpec.reread?).isSome ↔ ∀ rule ∈ rules, rule.Finite := by
      rw [isSome_mapM_iff]
      exact forall₂_congr fun rule _ => rule.isSome_reread?
    rw [Finite, ← hrules, reread?]
    cases rules.mapM RuleSpec.reread? <;> simp
  | _ => exact iff_of_true rfl trivial

theorem Node.isSome_reread? (n : Node) : n.reread?.isSome ↔ n.op.Finite := by
  rw [reread?, Option.isSome_map, n.op.isSome_reread?]

/-! ### Programs -/

namespace Program

variable {p : Program}

/-- The program may be written: its numbers fit into their words, and no rule is nested deep. -/
structure Writable (p : Program) : Prop where
  /-- The numbers of nodes fit. -/
  size : p.graph.slots.size ≤ UInt32.size
  /-- The numbers in nodes fit, and their rules are flat. -/
  nodes : ∀ n a, p.node? n = some a → a.Fits ∧ a.op.Flat
  /-- The ends of edges are slots, and the positions that roles name fit. -/
  edges : ∀ e edge, p.graph.edge? e = some edge → edge.source < p.graph.slots.size ∧
    edge.target < p.graph.slots.size ∧ edge.weight.Fits
  /-- The functions stand in the order of their numbers. -/
  ascending : p.functions.Ascending
  /-- The numbers of functions fit, and so do those in functions. -/
  functions : ∀ x ∈ p.functions, x.1 < UInt32.size ∧ x.2.Fits
  /-- The number of the next function fits. -/
  next : p.nextFunction < UInt32.size

/-- All doubles in the program are finite. -/
def Finite (p : Program) : Prop := ∀ n o, p.op? n = some o → o.Finite

/-- No edge starts or ends behind all nodes. -/
def Enclosed (p : Program) : Prop := ∀ e edge, p.graph.edge? e = some edge →
  edge.source < p.graph.nodeBound ∧ edge.target < p.graph.nodeBound

namespace Writable

variable (h : p.Writable)

include h

theorem graph (k : Nat) : SlotGraph.Writable Node.encode Node.decode Role.encode Role.decode
    Node.reread? (k + 8) p.graph where
  size := h.size
  node n a ha := by
    obtain ⟨hfits, hflat⟩ := h.nodes n a ha
    exact Node.readsAs hfits hflat
  edge e edge he := by
    obtain ⟨hsource, htarget, hrole⟩ := h.edges e edge he
    exact ⟨Nat.lt_of_lt_of_le hsource h.size, Nat.lt_of_lt_of_le htarget h.size,
      Role.readsAs hrole⟩

/-- The text of a program is read part by part. -/
theorem readsAs (k : Nat) : ReadsAs decode (k + 13) p.encode
    ((SlotGraph.decode Node.decode Role.decode (p.graph.encode Node.encode Role.encode).reread).map
      fun g => ⟨p.name, g, p.functions, p.nextFunction⟩) := by
  have hgraph := (h.graph k).readsAs
  have hfunctions : ReadsAs FunctionTable.decode (k + 12) _ _ :=
    FunctionTable.readsAs h.ascending (fun x hx => (h.functions x hx).1)
      fun x hx => (h.functions x hx).2
  have hnext : ReadsAs toNat32? (k + 12) _ _ := readsAs_nat32 h.next
  have hstep (c d e : Json) : decode (Json.obj [("name", .str p.name), ("graph", c),
      ("functions", d), ("next_function_id", e)]).reread =
      (SlotGraph.decode Node.decode Role.decode c.reread).bind fun graph =>
        (FunctionTable.decode d.reread).bind fun functions => e.reread.toNat32?.bind fun next =>
          some ⟨p.name, graph, functions, next⟩ := rfl
  refine ⟨?_, ?_⟩
  · rw [encode, hstep, hfunctions.read, hnext.read, Option.map_eq_bind]
    rfl
  · simp [encode, hgraph.shallow, hfunctions.shallow, hnext.shallow]

theorem parse_compress : Program.parse p.encode.compress = decode p.encode.reread := by
  rw [Program.parse, (h.readsAs 0).shallow.parse (by decide), Option.bind_some]

/-- The indented text of a program can be read exactly if all doubles in it are finite and no edge
starts or ends behind all nodes. Blanks may follow the text. -/
theorem isSome_parse_pretty {blanks : String} (hblanks : Blanks blanks.toList) :
    (Program.parse (p.encode.pretty ++ blanks)).isSome ↔ p.Finite ∧ p.Enclosed := by
  rw [Program.parse, (h.readsAs 0).shallow.parse_pretty (by decide) hblanks, Option.bind_some,
    (h.readsAs 0).read, Option.isSome_map, (h.graph 0).isSome_decode]
  refine and_congr_left fun _ => ⟨fun hnodes n o ho => ?_, fun hfinite n a ha => ?_⟩
  · obtain ⟨a, ha, rfl⟩ := Option.map_eq_some_iff.1 ho
    exact a.isSome_reread?.1 (hnodes n a ha)
  · exact a.isSome_reread?.2 (hfinite n a.op (Option.map_eq_some_iff.2 ⟨a, ha, rfl⟩))

end Writable

end Program

end GraphLang
