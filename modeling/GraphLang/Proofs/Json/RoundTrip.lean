import GraphLang.Proofs.Decimal.Written
import GraphLang.Proofs.Json.Spelling

/-!
# Written documents read back

A document whose whole numbers fit into words, and that is not nested too deep, reads back from its
compact text and from its indented one. All of it stays as it is but for the doubles: a finite one
reads as its digits do, and any other one as null.
-/

namespace GraphLang

namespace Json

/-! ### Numbers -/

/-- Whether a whole number is written and read as one. -/
def Fits (n : Int) : Prop := -2 ^ 63 ≤ n ∧ n < 2 ^ 64

/-- A whole number as it is written. -/
def writtenInt (n : Int) : Decimal.Written :=
  ⟨decide (n < 0), Nat.toDigits 10 n.natAbs, none, none⟩

theorem toList_writeInt (n : Int) : (writeInt n).toList = (writtenInt n).spell := by
  rw [writeInt, String.toList_append, Decimal.digitText, String.toList_ofList,
    Decimal.Written.spell]
  by_cases hn : n < 0 <;> simp [writtenInt, Decimal.fractionText, Decimal.exponentText, hn]

theorem proper_writtenInt (n : Int) : (writtenInt n).Proper where
  whole := Nat.toDigits_ne_nil
  digits _ := Decimal.isDigit_of_mem_toDigits
  zero := Decimal.toDigits_ne_zero_cons n.natAbs
  fraction := nofun

theorem ofWritten_int {n : Int} (hn : Fits n) : ofWritten (writtenInt n) = .int n := by
  obtain ⟨hlow, hhigh⟩ := hn
  unfold ofWritten
  simp only [writtenInt, Decimal.digitsValue_toDigits, Decimal.Written.isInteger,
    Option.isNone_none, Bool.and_self, Bool.true_and, decide_eq_true_eq]
  by_cases hneg : n < 0
  · have hmagnitude : 0 < n.natAbs ∧ n.natAbs ≤ Nat.pow 2 63 := by
      rw [Nat.pow_eq]
      omega
    rw [if_pos hneg, decide_eq_true hneg, if_pos (by simpa using hmagnitude)]
    exact congrArg Json.int (by omega)
  · have hmagnitude : n.natAbs < UInt64.size := by
      rw [UInt64.size]
      omega
    rw [if_neg hneg, if_pos (by simpa using hmagnitude), if_neg hneg]
    exact congrArg Json.int (by omega)

/-! ### What is written -/

/-- What the text of a double reads as. -/
def rereadFloat (x : Float) : Json :=
  if x.isFinite then
    match Decimal.classify x with
    | .finite b => ofWritten b.written
    | _ => .null
  else .null

mutual

/-- What the text of a document reads as. -/
def reread : Json → Json
  | .null => .null
  | .bool b => .bool b
  | .int n => .int n
  | .float x => rereadFloat x
  | .str s => .str s
  | .arr items => .arr (rereadItems items)
  | .obj members => .obj (rereadMembers members)
  | .unreadable => .null

/-- What the texts of items read as. -/
def rereadItems : List Json → List Json
  | [] => []
  | d :: rest => reread d :: rereadItems rest

/-- What the texts of members read as. -/
def rereadMembers : List (String × Json) → List (String × Json)
  | [] => []
  | (name, d) :: rest => (name, reread d) :: rereadMembers rest

end

mutual

/-- The whole numbers of the document fit into words. -/
def Bounded : Json → Prop
  | .int n => Fits n
  | .arr items => BoundedItems items
  | .obj members => BoundedMembers members
  | .null | .bool _ | .float _ | .str _ | .unreadable => True

/-- The whole numbers of the items fit into words. -/
def BoundedItems : List Json → Prop
  | [] => True
  | d :: rest => Bounded d ∧ BoundedItems rest

/-- The whole numbers of the members fit into words. -/
def BoundedMembers : List (String × Json) → Prop
  | [] => True
  | (_, d) :: rest => Bounded d ∧ BoundedMembers rest

end

theorem number_of_isInteger {w : Decimal.Written} (h : w.isInteger = false) :
    (∃ x, ofWritten w = .float x) ∨ ofWritten w = .unreadable := by
  unfold ofWritten
  rw [h]
  cases w.documentValue with
  | some x => exact .inl ⟨x, by simp⟩
  | none => exact .inr (by simp)

theorem spells_float (x : Float) : Spells (rereadFloat x) (writeFloat x).toList := by
  unfold rereadFloat writeFloat
  by_cases hfinite : x.isFinite = true
  · obtain ⟨b, hb, -⟩ := Decimal.exists_classify hfinite
    have hnumber : Number (ofWritten b.written) (Decimal.Style.document.write x).toList :=
      ⟨b.written, b.proper_written, Decimal.toList_write hb, rfl⟩
    rw [if_pos hfinite, if_pos hfinite, hb]
    rcases number_of_isInteger b.isInteger_written with ⟨y, hy⟩ | hy <;>
      simp only [hy] at hnumber ⊢ <;> exact hnumber
  · rw [if_neg hfinite, if_neg hfinite]
    rfl

theorem spells_int {n : Int} (h : Fits n) : Spells (.int n) (writeInt n).toList :=
  ⟨writtenInt n, proper_writtenInt n, toList_writeInt n, ofWritten_int h⟩

theorem spells_bool (b : Bool) : Spells (.bool b) (if b then "true" else "false").toList := by
  cases b <;> rfl

theorem spells_str (s : String) : Spells (.str s) (quote s).toList := toList_quote s

theorem spells_arr {items : List Json} {inner : List Char} (h : SpellsItems items inner) :
    Spells (.arr items) ('[' :: (inner ++ [']'])) := ⟨inner, rfl, h⟩

theorem spells_obj {members : List (String × Json)} {inner : List Char}
    (h : SpellsMembers members inner) : Spells (.obj members) ('\x7b' :: (inner ++ ['\x7d'])) :=
  ⟨inner, rfl, h⟩

mutual

/-- The compact text of a document is one of what it reads as. -/
theorem spells_compress : ∀ d : Json, d.Bounded → Spells d.reread d.compress.toList
  | .null, _ => rfl
  | .bool b, _ => spells_bool b
  | .int _, h => spells_int h
  | .float x, _ => spells_float x
  | .str s, _ => spells_str s
  | .arr items, h => by
    have hitems := spells_arr (spellsItems_compress items h)
    rw [compress, String.toList_append, String.toList_append]
    exact hitems
  | .obj members, h => by
    have hmembers := spells_obj (spellsMembers_compress members h)
    rw [compress, String.toList_append, String.toList_append]
    exact hmembers
  | .unreadable, _ => rfl

theorem spellsItems_compress : ∀ items : List Json, BoundedItems items →
    SpellsItems (rereadItems items) (compressItems items).toList
  | [], _ => rfl
  | [d], h => ⟨[], _, [], by simp [compressItems], blanks_nil, spells_compress d h.1, blanks_nil⟩
  | d :: e :: rest, h => ⟨[], _, _, by simp [compressItems], blanks_nil, spells_compress d h.1,
      spellsItems_compress (e :: rest) h.2⟩

theorem spellsMembers_compress : ∀ members : List (String × Json), BoundedMembers members →
    SpellsMembers (rereadMembers members) (compressMembers members).toList
  | [], _ => rfl
  | [(name, d)], h => ⟨[], [], _, [], by simp [compressMembers, toList_quote], blanks_nil,
      blanks_nil, spells_compress d h.1, blanks_nil⟩
  | (name, d) :: m :: rest, h => ⟨[], [], _, _, by simp [compressMembers, toList_quote],
      blanks_nil, blanks_nil, spells_compress d h.1, spellsMembers_compress (m :: rest) h.2⟩

end

theorem blanks_newline (k : Nat) : Blanks (newline k).toList := by
  intro c hc
  rw [newline, String.toList_append, List.mem_append] at hc
  rcases hc with hc | hc
  · obtain rfl := List.mem_singleton.1 hc
    rfl
  · rw [String.toList_ofList] at hc
    obtain rfl := List.eq_of_mem_replicate hc
    rfl

mutual

/-- The indented text of a document is one of what it reads as. -/
theorem spells_prettyAt : ∀ (k : Nat) (d : Json), d.Bounded →
    Spells d.reread (prettyAt k d).toList
  | _, .null, _ => by simp [prettyAt, reread, Spells]
  | _, .bool b, _ => spells_bool b
  | _, .int _, h => spells_int h
  | _, .float x, _ => spells_float x
  | _, .str s, _ => spells_str s
  | _, .arr [], _ => ⟨[], by simp [prettyAt], rfl⟩
  | k, .arr (d :: rest), h => by
    have hitems := spells_arr (spellsItems_pretty (k + 1) (d :: rest) h k nofun)
    rw [prettyAt, String.toList_append, String.toList_append, String.toList_append]
    · exact hitems
    · nofun
  | _, .obj [], _ => ⟨[], by simp [prettyAt], rfl⟩
  | k, .obj (m :: rest), h => by
    have hmembers := spells_obj (spellsMembers_pretty (k + 1) (m :: rest) h k nofun)
    rw [prettyAt, String.toList_append, String.toList_append, String.toList_append]
    · exact hmembers
    · nofun
  | _, .unreadable, _ => by simp [prettyAt, reread, Spells]

theorem spellsItems_pretty : ∀ (k : Nat) (items : List Json), BoundedItems items → ∀ j : Nat,
    items ≠ [] → SpellsItems (rereadItems items) ((prettyItems k items).toList ++ (newline j).toList)
  | _, [], _, _, h => absurd rfl h
  | k, [d], h, j, _ => ⟨_, _, _, by simp [prettyItems], blanks_newline k,
      spells_prettyAt k d h.1, blanks_newline j⟩
  | k, d :: e :: rest, h, j, _ => ⟨_, _, _, by simp [prettyItems], blanks_newline k,
      spells_prettyAt k d h.1, spellsItems_pretty k (e :: rest) h.2 j nofun⟩

theorem spellsMembers_pretty : ∀ (k : Nat) (members : List (String × Json)),
    BoundedMembers members → ∀ j : Nat, members ≠ [] →
    SpellsMembers (rereadMembers members) ((prettyMembers k members).toList ++ (newline j).toList)
  | _, [], _, _, h => absurd rfl h
  | k, [(name, d)], h, j, _ => ⟨_, [' '], _, _, by simp [prettyMembers, toList_quote],
      blanks_newline k, by simp [Blanks], spells_prettyAt k d h.1, blanks_newline j⟩
  | k, (name, d) :: m :: rest, h, j, _ => ⟨_, [' '], _, _, by simp [prettyMembers, toList_quote],
      blanks_newline k, by simp [Blanks], spells_prettyAt k d h.1,
      spellsMembers_pretty k (m :: rest) h.2 j nofun⟩

end

/-! ### Reading what is written -/

theorem depth_ofWritten (w : Decimal.Written) : (ofWritten w).depth = 1 := by
  unfold ofWritten
  dsimp only
  split_ifs <;> first | rfl | (cases w.documentValue <;> rfl)

theorem depth_rereadFloat (x : Float) : (rereadFloat x).depth = 1 := by
  unfold rereadFloat
  split_ifs
  · cases Decimal.classify x with
    | finite b => exact depth_ofWritten _
    | _ => rfl
  · rfl

mutual

/-- What a text reads as is nested as deep as what was written. -/
theorem depth_reread : ∀ d : Json, d.reread.depth = d.depth
  | .null | .bool _ | .int _ | .str _ | .unreadable => rfl
  | .float x => depth_rereadFloat x
  | .arr items => congrArg (· + 1) (depth_rereadItems items)
  | .obj members => congrArg (· + 1) (depth_rereadMembers members)

theorem depth_rereadItems : ∀ items : List Json, depthItems (rereadItems items) = depthItems items
  | [] => rfl
  | d :: rest => congrArg₂ max (depth_reread d) (depth_rereadItems rest)

theorem depth_rereadMembers : ∀ members : List (String × Json),
    depthMembers (rereadMembers members) = depthMembers members
  | [] => rfl
  | (_, d) :: rest => congrArg₂ max (depth_reread d) (depth_rereadMembers rest)

end

/-- The compact text of a document that is not nested too deep can be read. -/
theorem parse_compress {d : Json} (h : d.Bounded) (hdepth : d.depth < nestingLimit) :
    parse d.compress = some d.reread := by
  have hparse : parse (d.compress ++ "") = some d.reread :=
    parse_of_spells (spells_compress d h) (by rwa [depth_reread]) (by simp)
  rwa [String.append_empty] at hparse

/-- The indented text of a document that is not nested too deep reads as the compact one does. -/
theorem parse_pretty {d : Json} (h : d.Bounded) (hdepth : d.depth < nestingLimit) {blanks : String}
    (hblanks : Blanks blanks.toList) : parse (d.pretty ++ blanks) = some d.reread :=
  parse_of_spells (spells_prettyAt 0 d h) (by rwa [depth_reread]) hblanks

end Json

end GraphLang
