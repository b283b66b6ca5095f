import GraphLang.Program.Document
import GraphLang.Proofs.SlotGraph.Document

/-!
# Parts of programs as documents

What every part of a program reads as from the text of its document: scalars, descriptions of rules,
roles, operations, nodes, functions, and tables whose functions stand in the order of their numbers.
All of it is read back as it was but for the doubles, and a part that holds a double which is not
finite cannot be read.
-/

namespace GraphLang

open Json

variable {k : Nat}

/-! ### What reads back -/

/-- The scalar is no double. -/
def Literal.Exact : Literal → Prop
  | .float _ => False
  | _ => True

/-- Whether the description is one of a conditional. -/
def RuleSpec.isConditional : RuleSpec → Bool
  | .conditional _ | .conditionalElse .. => true
  | _ => false

/-- No scalar of the description is a double, and no branch of a conditional is a conditional. -/
def RuleSpec.Exact : RuleSpec → Prop
  | .coalesce l | .lookup l => l.Exact
  | .clamp min max => min.Exact ∧ max.Exact
  | .conditional t => t.Exact ∧ t.isConditional = false
  | .conditionalElse t f => (t.Exact ∧ t.isConditional = false) ∧ f.Exact ∧ f.isConditional = false
  | _ => True

/-- The numbers of the description fit into their words. -/
def RuleSpec.Fits : RuleSpec → Prop
  | .maxSize n => n < UInt64.size
  | .round digits => digits < UInt32.size
  | .conditional t => t.Fits
  | .conditionalElse t f => t.Fits ∧ f.Fits
  | _ => True

/-- No scalar of the operation is a double, and no branch of a conditional rule is a conditional. -/
def Op.Exact : Op → Prop
  | .literal l => l.Exact
  | .map keys => ∀ l ∈ keys, l.Exact
  | .addRule rule => rule.Exact
  | .defineRuleset _ rules => ∀ rule ∈ rules, rule.Exact
  | _ => True

/-- The numbers of the operation fit into their words. -/
def Op.Fits : Op → Prop
  | .function f => f < UInt32.size
  | .addRule rule => rule.Fits
  | .defineRuleset _ rules => ∀ rule ∈ rules, rule.Fits
  | _ => True

/-- No branch of a conditional is a conditional. -/
def RuleSpec.Flat : RuleSpec → Prop
  | .conditional t => t.isConditional = false
  | .conditionalElse t f => t.isConditional = false ∧ f.isConditional = false
  | _ => True

/-- No branch of a conditional rule of the operation is a conditional. -/
def Op.Flat : Op → Prop
  | .addRule rule => rule.Flat
  | .defineRuleset _ rules => ∀ rule ∈ rules, rule.Flat
  | _ => True

/-- The position that the role names fits into its word. -/
def Role.Fits (role : Role) : Prop := ∀ i, role.position? = some i → i < UInt16.size

/-- The numbers of the place fit into their words. -/
def Location.Fits (l : Location) : Prop := l.line < UInt32.size ∧ l.column < UInt32.size

/-- The numbers of the node fit into their words. -/
structure Node.Fits (n : Node) : Prop where
  /-- Those of the operation. -/
  op : n.op.Fits
  /-- The number of the function. -/
  owner : n.owner < UInt32.size
  /-- Those of the place. -/
  location : ∀ l, n.location = some l → l.Fits

/-- The numbers of the function fit into their words. -/
structure FunctionDef.Fits (d : FunctionDef) : Prop where
  /-- Its own number. -/
  id : d.id < UInt32.size
  /-- The number of the root. -/
  body : ∀ root, d.body = some root → root < UInt32.size
  /-- The number of the function around it. -/
  parent : ∀ f, d.parent = some f → f < UInt32.size

/-! ### What texts read as -/

/-- What the text of a scalar reads as. -/
def Literal.reread? : Literal → Option Literal
  | .float x => (rereadFloat x).toFloat?.map .float
  | l => some l

/-- What the text of a description reads as. -/
def RuleSpec.reread? : RuleSpec → Option RuleSpec
  | .coalesce l => l.reread?.map .coalesce
  | .clamp min max => do return .clamp (← min.reread?) (← max.reread?)
  | .lookup l => l.reread?.map .lookup
  | .conditional t => do return .conditional (← t.reread?)
  | .conditionalElse t f => do return .conditionalElse (← t.reread?) (← f.reread?)
  | spec => some spec

/-- What the text of an operation reads as. -/
def Op.reread? : Op → Option Op
  | .literal l => l.reread?.map .literal
  | .map keys => (keys.mapM Literal.reread?).map .map
  | .addRule rule => rule.reread?.map .addRule
  | .defineRuleset name rules => do
    return .defineRuleset name (← rules.mapM RuleSpec.reread?)
  | o => some o

/-- What the text of a node reads as. -/
def Node.reread? (n : Node) : Option Node := n.op.reread?.map fun o => { n with op := o }

theorem Literal.Exact.reread? {l : Literal} (h : l.Exact) : l.reread? = some l := by
  cases l with
  | float x => exact h.elim
  | _ => rfl

theorem RuleSpec.Exact.flat {spec : RuleSpec} (h : spec.Exact) : spec.Flat := by
  cases spec with
  | conditional t => exact h.2
  | conditionalElse t f => exact ⟨h.1.2, h.2.2⟩
  | _ => trivial

theorem RuleSpec.Exact.reread? {spec : RuleSpec} (h : spec.Exact) : spec.reread? = some spec := by
  induction spec with
  | coalesce l => rw [RuleSpec.reread?, Literal.Exact.reread? h, Option.map_some]
  | lookup l => rw [RuleSpec.reread?, Literal.Exact.reread? h, Option.map_some]
  | clamp min max => simp [RuleSpec.reread?, h.1.reread?, h.2.reread?]
  | conditional t ih => simp [RuleSpec.reread?, ih h.1]
  | conditionalElse t f iht ihf => simp [RuleSpec.reread?, iht h.1.1, ihf h.2.1]
  | _ => rfl

theorem Op.Exact.flat {o : Op} (h : o.Exact) : o.Flat := by
  cases o with
  | addRule rule => exact RuleSpec.Exact.flat h
  | defineRuleset name rules => exact fun rule hrule => (h rule hrule).flat
  | _ => trivial

theorem Op.Exact.reread? {o : Op} (h : o.Exact) : o.reread? = some o := by
  cases o with
  | literal l => rw [Op.reread?, Literal.Exact.reread? h, Option.map_some]
  | map keys =>
    rw [Op.reread?, mapM_eq_self fun l hl => (h l hl).reread?, Option.map_some]
  | addRule rule => rw [Op.reread?, RuleSpec.Exact.reread? h, Option.map_some]
  | defineRuleset name rules =>
    rw [Op.reread?, mapM_eq_self fun rule hrule => (h rule hrule).reread?]
    rfl
  | _ => rfl

theorem Node.Exact.reread? {n : Node} (h : n.op.Exact) : n.reread? = some n := by
  rw [Node.reread?, Op.Exact.reread? h, Option.map_some]

/-! ### Literals and descriptions of rules -/

theorem Literal.readsAs (l : Literal) : ReadsAs decode (k + 2) l.encode l.reread? := by
  cases l with
  | nil => exact ⟨rfl, shallow_str _⟩
  | bool b => exact ⟨rfl, by simp [encode, tagged]⟩
  | int i =>
    have hint : ReadsAs toInt64? (k + 1) (.int i.toInt) (some i) := readsAs_int64 i
    have hdecode : decode (encode (.int i)).reread = (toInt64? (Json.int i.toInt).reread).map .int :=
      rfl
    exact ⟨by rw [hdecode, hint.read]; rfl, by simp [encode, tagged, hint.shallow]⟩
  | float x => exact ⟨rfl, by simp [encode, tagged]⟩
  | str s => exact ⟨rfl, by simp [encode, tagged]⟩

namespace RuleSpec

variable {spec : RuleSpec}

theorem shallow_of_simple (hfits : spec.Fits) (hsimple : spec.isConditional = false) :
    Shallow (k + 4) spec.encode := by
  have hliteral (l : Literal) : Shallow (k + 2) l.encode := l.readsAs.shallow
  cases spec with
  | maxSize n => simp [encode, tagged, (readsAs_nat64 hfits).shallow]
  | round digits => simp [encode, tagged, (readsAs_nat32 hfits).shallow]
  | coalesce l => simp [encode, tagged, (hliteral l).mono]
  | clamp min max => simp [encode, tagged, hliteral]
  | lookup l => simp [encode, tagged, hliteral]
  | conditional t => cases hsimple
  | conditionalElse t f => cases hsimple
  | _ => simp [encode, tagged]

theorem shallow (hfits : spec.Fits) (hflat : spec.Flat) : Shallow (k + 6) spec.encode := by
  cases spec with
  | conditional t => simp [encode, tagged, shallow_of_simple (show t.Fits from hfits) hflat]
  | conditionalElse t f =>
    simp [encode, tagged, shallow_of_simple hfits.1 hflat.1, shallow_of_simple hfits.2 hflat.2]
  | _ => exact shallow_of_simple (k := k + 2) hfits rfl

/-- A description that is not one of a conditional reads as its parts do. -/
theorem decodeWithin_of_simple (origin : Origin) (hfits : spec.Fits)
    (hsimple : spec.isConditional = false) (fuel : Nat) :
    decodeWithin origin (fuel + 1) spec.encode.reread = spec.reread? := by
  have hliteral (l : Literal) : Literal.decode l.encode.reread = l.reread? :=
    (l.readsAs (k := 0)).read
  cases spec with
  | maxSize n =>
    have hstep (d : Json) : decodeWithin origin (fuel + 1) (Json.tagged "max_size" d).reread =
        d.reread.toNat64?.map .maxSize := rfl
    rw [encode, hstep, (readsAs_nat64 (k := 0) hfits).read]
    rfl
  | round digits =>
    have hstep (d : Json) : decodeWithin origin (fuel + 1) (Json.tagged "round" d).reread =
        d.reread.toNat32?.map .round := rfl
    rw [encode, hstep, (readsAs_nat32 (k := 0) hfits).read]
    rfl
  | coalesce l =>
    have hstep (d : Json) : decodeWithin origin (fuel + 1) (Json.tagged "coalesce" d).reread =
        (Literal.decode d.reread).map .coalesce := rfl
    rw [encode, hstep, hliteral]
    rfl
  | clamp min max =>
    have hstep (c d : Json) : decodeWithin origin (fuel + 1)
        (Json.tagged "validate_range" (.obj [("min", c), ("max", d)])).reread =
        (Literal.decode c.reread).bind fun min => (Literal.decode d.reread).bind fun max =>
          some (.clamp min max) := rfl
    rw [encode, hstep, hliteral, hliteral]
    rfl
  | lookup l =>
    have hstep (d : Json) : decodeWithin origin (fuel + 1)
        (Json.tagged "lookup" (.obj [("default", d)])).reread =
        (Literal.decode d.reread).bind fun l => some (.lookup l) := rfl
    rw [encode, hstep, hliteral, reread?]
    cases l.reread? <;> rfl
  | conditional t => cases hsimple
  | conditionalElse t f => cases hsimple
  | _ => rfl

theorem decode_encode (origin : Origin) (hfits : spec.Fits) (hflat : spec.Flat) :
    decode origin spec.encode.reread = spec.reread? := by
  unfold decode
  rw [depth_reread]
  cases spec with
  | conditional t =>
    have hdepth : (encode (.conditional t)).depth = t.encode.depth + 1 + 1 := by
      simp [encode, tagged, depth, depthMembers]
    have hstep (fuel : Nat) : decodeWithin origin (fuel + 1) (encode (.conditional t)).reread =
        (decodeWithin origin fuel t.encode.reread).bind fun t => some (.conditional t) := rfl
    rw [hdepth, hstep, decodeWithin_of_simple origin (show t.Fits from hfits) hflat]
    rfl
  | conditionalElse t f =>
    have hdepth : (encode (.conditionalElse t f)).depth =
        max t.encode.depth f.encode.depth + 1 + 1 := by
      simp [encode, tagged, depth, depthMembers]
    have hstep (fuel : Nat) : decodeWithin origin (fuel + 1) (encode (.conditionalElse t f)).reread =
        (decodeWithin origin fuel t.encode.reread).bind fun t =>
          (decodeWithin origin fuel f.encode.reread).bind fun f => some (.conditionalElse t f) := by
      cases f <;> rfl
    rw [hdepth, hstep, decodeWithin_of_simple origin hfits.1 hflat.1,
      decodeWithin_of_simple origin hfits.2 hflat.2]
    rfl
  | _ => exact decodeWithin_of_simple origin hfits rfl _

theorem readsAs (origin : Origin) (hfits : spec.Fits) (hflat : spec.Flat) :
    ReadsAs (decode origin) (k + 6) spec.encode spec.reread? :=
  ⟨decode_encode origin hfits hflat, shallow hfits hflat⟩

end RuleSpec

/-! ### Roles and operations -/

theorem Role.readsAs {role : Role} (h : role.Fits) :
    ReadsAs decode (k + 2) role.encode (some role) := by
  have hread {i : Nat} (hi : i < UInt16.size) := readsAs_nat16 (k := k) hi
  cases role with
  | argument i =>
    have hstep (d : Json) : decode (Json.tagged "argument" d).reread =
        d.reread.toNat16?.map .argument := rfl
    have hi := hread (h i rfl)
    exact ⟨by rw [encode, hstep, hi.read]; rfl, by simp [encode, tagged, hi.shallow]⟩
  | element i =>
    have hstep (d : Json) : decode (Json.tagged "element" d).reread =
        d.reread.toNat16?.map .element := rfl
    have hi := hread (h i rfl)
    exact ⟨by rw [encode, hstep, hi.read]; rfl, by simp [encode, tagged, hi.shallow]⟩
  | statement i =>
    have hstep (d : Json) : decode (Json.tagged "statement" d).reread =
        d.reread.toNat16?.map .statement := rfl
    have hi := hread (h i rfl)
    exact ⟨by rw [encode, hstep, hi.read]; rfl, by simp [encode, tagged, hi.shallow]⟩
  | _ => exact ⟨rfl, shallow_str _⟩

namespace Op

variable {o : Op}

theorem shallow (hfits : o.Fits) (hflat : o.Flat) : Shallow (k + 9) o.encode := by
  cases o with
  | literal l =>
    have hl : Shallow (k + 8) l.encode := (l.readsAs (k := k + 6)).shallow
    simp [encode, tagged, hl]
  | map keys =>
    have hkeys := readsAs_list fun l (_ : l ∈ keys) => l.readsAs (k := k + 4)
    simp [encode, tagged, hkeys.shallow]
  | function f => simp [encode, tagged, (readsAs_nat32 (k := k + 6) hfits).shallow]
  | addRule rule =>
    have hrule := RuleSpec.readsAs (k := k + 1) .text hfits hflat
    simp [encode, tagged, hrule.shallow]
  | defineRuleset name rules =>
    have hrules := readsAs_list fun rule hrule =>
      RuleSpec.readsAs (k := k) .text (hfits rule hrule) (hflat rule hrule)
    simp [encode, tagged, hrules.shallow]
  | guarded catchName => cases catchName <;> simp [encode, tagged]
  | addMember linkName => cases linkName <;> simp [encode, tagged]
  | _ => simp [encode, tagged]

theorem decode_encode (origin : Origin) (hfits : o.Fits) (hflat : o.Flat) :
    decode origin o.encode.reread = o.reread? := by
  cases o with
  | literal l =>
    have hstep (d : Json) : decode origin (Json.tagged "literal" d).reread =
        (Literal.decode d.reread).map .literal := rfl
    rw [encode, hstep, (l.readsAs (k := 0)).read]
    rfl
  | map keys =>
    have hkeys := readsAs_list fun l (_ : l ∈ keys) => l.readsAs (k := 0)
    have hstep (d : Json) : decode origin (Json.tagged "map_literal" (.obj [("keys", d)])).reread =
        (d.reread.toList? Literal.decode).map .map := rfl
    rw [encode, hstep, hkeys.read]
    rfl
  | function f =>
    have hstep (d : Json) : decode origin (Json.tagged "function" (.obj [("function", d)])).reread =
        d.reread.toNat32?.map .function := rfl
    rw [encode, hstep, (readsAs_nat32 (k := 0) hfits).read]
    rfl
  | addRule rule =>
    have hstep (d : Json) : decode origin (Json.tagged "add_rule" (.obj [("rule", d)])).reread =
        (RuleSpec.decode origin d.reread).map .addRule := rfl
    rw [encode, hstep, RuleSpec.decode_encode origin hfits hflat]
    rfl
  | defineRuleset name rules =>
    have hrules := readsAs_list fun rule hrule =>
      RuleSpec.readsAs (k := 0) origin (hfits rule hrule) (hflat rule hrule)
    have hstep (d : Json) : decode origin (Json.tagged "define_ruleset"
        (.obj [("name", .str name), ("rules", d)])).reread =
        (d.reread.toList? (RuleSpec.decode origin)).bind fun rules =>
          some (.defineRuleset name rules) := rfl
    rw [encode, hstep, hrules.read]
    rfl
  | binary op => cases op <;> rfl
  | unary op => cases op <;> rfl
  | logical op => cases op <;> rfl
  | guarded catchName => cases catchName <;> rfl
  | addMember linkName => cases linkName <;> rfl
  | _ => rfl

theorem readsAs (origin : Origin) (hfits : o.Fits) (hflat : o.Flat) :
    ReadsAs (decode origin) (k + 9) o.encode o.reread? :=
  ⟨decode_encode origin hfits hflat, shallow hfits hflat⟩

end Op

/-! ### Nodes and functions -/

theorem Location.readsAs {l : Location} (h : l.Fits) :
    ReadsAs decode (k + 2) l.encode (some l) := by
  have hline := readsAs_nat32 (k := k) h.1
  have hcolumn := readsAs_nat32 (k := k) h.2
  have hstep (c d : Json) : decode (Json.obj [("line", c), ("column", d)]).reread =
      c.reread.toNat32?.bind fun line => d.reread.toNat32?.bind fun column =>
        some ⟨line, column⟩ := rfl
  refine ⟨?_, ?_⟩
  · rw [encode, hstep, hline.read, hcolumn.read]
    rfl
  · simp [encode, hline.shallow, hcolumn.shallow]

theorem Node.readsAs {n : Node} (hfits : n.Fits) (hflat : n.op.Flat) :
    ReadsAs decode (k + 10) n.encode n.reread? := by
  have hop := Op.readsAs (k := k) .text hfits.op hflat
  have howner := readsAs_nat32 (k := k + 8) hfits.owner
  obtain ⟨o, owner, location⟩ := n
  cases location with
  | none =>
    have hstep (c d : Json) : decode (Json.obj [("op", c), ("owner", d)]).reread =
        (Op.decode .text c.reread).bind fun o => d.reread.toNat32?.bind fun owner =>
          some ⟨o, owner, none⟩ := rfl
    refine ⟨?_, ?_⟩
    · change decode (Json.obj [("op", o.encode), ("owner", .nat owner)]).reread = _
      rw [hstep, hop.read, howner.read, reread?]
      cases o.reread? <;> rfl
    · simp [encode, hop.shallow, howner.shallow]
  | some l =>
    have hl := Location.readsAs (k := k + 7) (hfits.location l rfl)
    have hstep (c d e : Json) : decode (Json.obj [("op", c), ("owner", d), ("location", e)]).reread =
        (Op.decode .text c.reread).bind fun o => d.reread.toNat32?.bind fun owner =>
          (optionalField? Location.decode (some e.reread)).bind fun location =>
            some ⟨o, owner, location⟩ := rfl
    refine ⟨?_, ?_⟩
    · change decode (Json.obj [("op", o.encode), ("owner", .nat owner),
        ("location", l.encode)]).reread = _
      rw [hstep, hop.read, howner.read, hl.optionalField nofun, reread?]
      cases o.reread? <;> rfl
    · simp [encode, hop.shallow, howner.shallow, hl.shallow]

theorem FunctionDef.readsAs {d : FunctionDef} (h : d.Fits) :
    ReadsAs decode (k + 3) d.encode (some d) := by
  have hid := readsAs_nat32 (k := k + 1) h.id
  have hparam (s : String) (_ : s ∈ d.params) : ReadsAs toString? (k + 1) (.str s) (some s) :=
    ⟨rfl, shallow_str s⟩
  have hparams := readsAs_list hparam
  rw [mapM_eq_self fun _ _ => rfl] at hparams
  have hnumber {o : Option Nat} (ho : ∀ n, o = some n → n < UInt32.size) :
      optionalField? toNat32? (some (Json.option (o.map .nat)).reread) = some o ∧
        Shallow (k + 2) (.option (o.map .nat)) := by
    cases o with
    | none => exact ⟨rfl, shallow_null⟩
    | some n =>
      have hn := readsAs_nat32 (k := k + 1) (ho n rfl)
      exact ⟨hn.optionalField nofun, hn.shallow⟩
  obtain ⟨hbody, hbodyShallow⟩ := hnumber h.body
  obtain ⟨hparent, hparentShallow⟩ := hnumber h.parent
  have hstep (id params body parent : Json) : decode (Json.obj [("id", id), ("name", .str d.name),
      ("params", params), ("body", body), ("parent", parent)]).reread =
      id.reread.toNat32?.bind fun id => (params.reread.toList? toString?).bind fun params =>
        (optionalField? toNat32? (some body.reread)).bind fun body =>
          (optionalField? toNat32? (some parent.reread)).bind fun parent =>
            some ⟨id, d.name, params, body, parent⟩ := rfl
  refine ⟨?_, ?_⟩
  · rw [encode, hstep, hid.read, hparams.read, hbody, hparent]
    rfl
  · simp [encode, hid.shallow, hparams.shallow, hbodyShallow, hparentShallow]

/-! ### Tables of functions -/

namespace FunctionTable

variable {t : FunctionTable}

/-- The functions stand in the order of their numbers. -/
def Ascending (t : FunctionTable) : Prop := t.Pairwise fun x y => x.1 < y.1

theorem keyNumber?_digitText {n : Nat} (h : n < UInt32.size) :
    keyNumber? (Decimal.digitText n) = some n := by
  have hn := readsAs_nat32 (k := 0) h
  have htext : Decimal.digitText n = (Json.nat n).compress := by
    have hpositive : ¬(n : Int) < 0 := by omega
    rw [Json.nat, compress, writeInt, if_neg hpositive, String.empty_append, Int.natAbs_natCast]
  have hdigits : (Decimal.digitText n).toList.all Decimal.isDigit = true := by
    rw [Decimal.digitText, String.toList_ofList, List.all_eq_true]
    exact fun c => Decimal.isDigit_of_mem_toDigits
  have hparse : Json.parse (Decimal.digitText n) = some (Json.nat n).reread := by
    rw [htext]
    exact hn.shallow.parse (by decide)
  simp only [keyNumber?, hparse, hdigits, if_true]
  exact hn.read

/-- A function with a number above those in the table comes last. -/
theorem insert_of_lt {f : FunctionId} (d : FunctionDef) (h : ∀ x ∈ t, x.1 < f) :
    t.insert f d = t ++ [(f, d)] := by
  induction t with
  | nil => rfl
  | cons x t ih =>
    have hx := h x List.mem_cons_self
    have hne : ¬(f == x.1) = true := by simpa using Nat.ne_of_gt hx
    rw [insert, if_neg (Nat.lt_asymm hx), if_neg hne, ih fun y hy => h y (List.mem_cons_of_mem x hy)]
    rfl

/-- What the reader of a table does with one member. -/
def readMember (t : FunctionTable) (m : String × Json) : Option FunctionTable := do
  return FunctionTable.insert t (← keyNumber? m.1) (← FunctionDef.decode m.2)

theorem foldlM_readMember {acc : FunctionTable} (hascending : Ascending (acc ++ t))
    (hkeys : ∀ x ∈ t, x.1 < UInt32.size) (hfits : ∀ x ∈ t, x.2.Fits) :
    (t.map fun x => (Decimal.digitText x.1, x.2.encode.reread)).foldlM readMember acc =
      some (acc ++ t) := by
  induction t generalizing acc with
  | nil => simp
  | cons x t ih =>
    have hread : readMember acc (Decimal.digitText x.1, x.2.encode.reread) = some (acc ++ [x]) := by
      have hdef := FunctionDef.readsAs (k := 0) (hfits x List.mem_cons_self)
      have hlast := insert_of_lt x.2 fun y hy =>
        (List.pairwise_append.1 hascending).2.2 y hy x List.mem_cons_self
      simp only [readMember, keyNumber?_digitText (hkeys x List.mem_cons_self), hdef.read,
        Option.bind_eq_bind, Option.bind_some, hlast]
      rfl
    rw [List.map_cons, List.foldlM_cons, hread, Option.bind_eq_bind, Option.bind_some,
      ih (by simpa [Ascending] using hascending) (fun y hy => hkeys y (List.mem_cons_of_mem x hy))
        fun y hy => hfits y (List.mem_cons_of_mem x hy), List.append_assoc, List.singleton_append]

theorem readsAs (hascending : t.Ascending) (hkeys : ∀ x ∈ t, x.1 < UInt32.size)
    (hfits : ∀ x ∈ t, x.2.Fits) : ReadsAs decode (k + 4) t.encode (some t) := by
  have hread : (t.map fun x => (Decimal.digitText x.1, x.2.encode.reread)).foldlM readMember [] =
      some ([] ++ t) := foldlM_readMember hascending hkeys hfits
  have hreread : t.encode.reread =
      .obj (t.map fun x => (Decimal.digitText x.1, x.2.encode.reread)) := by
    rw [encode, reread, rereadMembers_eq, List.map_map]
    rfl
  refine ⟨?_, ?_⟩
  · rw [hreread]
    exact hread
  · rw [encode, shallow_obj]
    intro m hm
    obtain ⟨x, hx, rfl⟩ := List.mem_map.1 hm
    exact (FunctionDef.readsAs (hfits x hx)).shallow

end FunctionTable

end GraphLang
