import GraphLang.Json.Parser
import GraphLang.Proofs.Decimal.Spelling
import Mathlib.Data.List.DropRight

/-!
# Texts of documents

A text spells a document if it has its parts in their order, with blanks only around items and
members and in front of the documents of members. Every text that spells a document reads as it,
unless the document is nested too deep. The reader is followed through the text from left to right,
with whatever comes after the text of the document left over.
-/

namespace GraphLang

namespace Json

/-! ### Texts -/

/-- An escaped character reads as the character. -/
theorem readText_escapeChar (fuel : Nat) (out : List Char) (c : Char) (rest : List Char) :
    readText (fuel + 1) (some out) ((escapeChar c).toList ++ rest) =
      readText fuel (some (c :: out)) rest := by
  have hcontrol : ∀ k < 32, readText (fuel + 1) (some out) ((escapeChar (.ofNat k)).toList ++ rest) =
      readText fuel (some (.ofNat k :: out)) rest := by
    intro k hk
    interval_cases k <;> rfl
  by_cases hc : c.toNat < 32
  · rw [← Char.ofNat_toNat c]
    exact hcontrol c.toNat hc
  · unfold escapeChar
    split
    · rfl
    · rfl
    · exact absurd hc (by decide)
    · exact absurd hc (by decide)
    · exact absurd hc (by decide)
    · exact absurd hc (by decide)
    · exact absurd hc (by decide)
    · rename_i hquote hslash _ _ _ _ _
      rw [if_neg hc, String.toList_singleton, List.singleton_append, readText,
        if_neg (by simpa using hquote), if_neg (by simpa using hslash), if_neg hc, Option.map_some]

/-- A text as it is written between its quotes. -/
def escaped (text : List Char) : List Char := text.flatMap fun c => (escapeChar c).toList

theorem escaped_cons (c : Char) (text : List Char) :
    escaped (c :: text) = (escapeChar c).toList ++ escaped text := rfl

theorem toList_quote (s : String) : (quote s).toList = '"' :: (escaped s.toList ++ ['"']) := by
  have hfold (text : List Char) (out : String) :
      (text.foldl (fun out c => out ++ escapeChar c) out).toList = out.toList ++ escaped text := by
    induction text generalizing out with
    | nil => simp [escaped]
    | cons c text ih =>
      rw [List.foldl_cons, ih, String.toList_append, escaped_cons, List.append_assoc]
  rw [quote, String.toList_append, String.foldl_eq_foldl_toList, hfold]
  rfl

theorem length_le_escaped (text : List Char) : text.length ≤ (escaped text).length := by
  induction text with
  | nil => exact Nat.le_refl _
  | cons c text ih =>
    have hc : 0 < (escapeChar c).toList.length := by
      unfold escapeChar
      split <;> first | decide | skip
      split <;> simp [String.toList_append, String.toList_singleton]
    rw [escaped_cons, List.length_append, List.length_cons]
    omega

/-- An escaped text reads as the text, up to its closing quote. -/
theorem readText_escaped (fuel : Nat) (out text rest : List Char) (hfuel : text.length < fuel) :
    readText fuel (some out) (escaped text ++ '"' :: rest) =
      some (some (String.ofList (out.reverse ++ text)), rest) := by
  induction text generalizing fuel out with
  | nil =>
    obtain ⟨fuel, rfl⟩ := Nat.exists_eq_succ_of_ne_zero (Nat.ne_of_gt hfuel)
    rw [List.append_nil]
    rfl
  | cons c text ih =>
    obtain ⟨fuel, rfl⟩ := Nat.exists_eq_succ_of_ne_zero (Nat.ne_of_gt (Nat.zero_lt_of_lt hfuel))
    rw [escaped_cons, List.append_assoc, readText_escapeChar,
      ih fuel (c :: out) (Nat.lt_of_succ_lt_succ hfuel)]
    simp

/-- Digits are not escaped. -/
theorem escaped_digits {text : List Char} (h : text.all Decimal.isDigit = true) :
    escaped text = text := by
  induction text with
  | nil => rfl
  | cons c text ih =>
    obtain ⟨hc, htext⟩ := Bool.and_eq_true_iff.1 (List.all_cons ▸ h)
    have hescape : escapeChar c = String.singleton c := by
      unfold escapeChar
      split <;> first | cases hc | skip
      rw [if_neg]
      simp only [Decimal.isDigit, Bool.and_eq_true, decide_eq_true_eq] at hc
      intro hlt
      exact absurd (Char.le_def.1 hc.1) (by simpa [UInt32.lt_iff_toNat_lt] using by omega)
    rw [escaped_cons, hescape, ih htext, String.toList_singleton, List.singleton_append]

/-- The name of a member reads as it was written. -/
theorem readName_escaped (fuel : Nat) (name : String) (rest : List Char)
    (hfuel : name.toList.length < fuel) :
    readName fuel (escaped name.toList ++ '"' :: rest) = some (some name, rest) := by
  have hname : nameAt (escaped name.toList ++ '"' :: rest) name = name := by
    unfold nameAt
    split
    · rename_i hdigits
      rw [escaped_digits hdigits, ← String.length_toList, List.take_left, String.ofList_toList]
    · rfl
  rw [readName, readText_escaped fuel [] name.toList rest hfuel, Option.map_some]
  dsimp only
  rw [List.reverse_nil, List.nil_append, String.ofList_toList, Option.map_some, hname]

/-! ### Blanks -/

/-- All characters are blanks. -/
def Blanks (text : List Char) : Prop :=
  ∀ c ∈ text, (c == ' ' || c == '\n' || c == '\t' || c == '\r') = true

@[simp] theorem blanks_nil : Blanks [] := nofun

theorem skipBlanks_append {blanks : List Char} (h : Blanks blanks) (text : List Char) :
    skipBlanks (blanks ++ text) = skipBlanks text :=
  List.dropWhile_append_of_pos h

theorem skipBlanks_skipBlanks (text : List Char) :
    skipBlanks (skipBlanks text) = skipBlanks text := List.dropWhile_idempotent _ _

/-- What ends a number may stand behind blanks. -/
theorem Blanks.ends {blanks rest : List Char} (h : Blanks blanks) (hrest : Decimal.Ends rest) :
    Decimal.Ends (blanks ++ rest) := by
  cases blanks with
  | nil => exact hrest
  | cons c blanks =>
    refine .cons ?_ _
    have hc := h c List.mem_cons_self
    simp only [Bool.or_eq_true, beq_iff_eq] at hc
    rcases hc with ((rfl | rfl) | rfl) | rfl <;> simp

theorem readDocument_skipBlanks (fuel depth : Nat) (text : List Char) :
    readDocument fuel depth (skipBlanks text) = readDocument fuel depth text := by
  cases fuel with
  | zero => rfl
  | succ fuel => simp only [readDocument, skipBlanks_skipBlanks]

theorem readDocument_blanks {blanks : List Char} (h : Blanks blanks) (fuel depth : Nat)
    (text : List Char) :
    readDocument fuel depth (blanks ++ text) = readDocument fuel depth text := by
  rw [← readDocument_skipBlanks, skipBlanks_append h, readDocument_skipBlanks]

theorem readItems_skipBlanks (fuel depth : Nat) (out : List Json) (text : List Char) :
    readItems fuel depth out (skipBlanks text) = readItems fuel depth out text := by
  cases fuel with
  | zero => rfl
  | succ fuel => simp only [readItems, readDocument_skipBlanks]

theorem readMembers_skipBlanks (fuel depth : Nat) (out : List (Option String × Json))
    (text : List Char) :
    readMembers fuel depth out (skipBlanks text) = readMembers fuel depth out text := by
  cases fuel with
  | zero => rfl
  | succ fuel => simp only [readMembers, skipBlanks_skipBlanks]

/-! ### Texts of documents -/

/-- The text is that of a number that reads as the document. -/
def Number (d : Json) (text : List Char) : Prop :=
  ∃ w : Decimal.Written, w.Proper ∧ text = w.spell ∧ ofWritten w = d

mutual

/-- The text, from its first character to its last one, is one of the document. Blanks may stand
around items and around members, and in front of the document of a member. -/
def Spells : Json → List Char → Prop
  | .null, text => text = ['n', 'u', 'l', 'l']
  | .bool true, text => text = ['t', 'r', 'u', 'e']
  | .bool false, text => text = ['f', 'a', 'l', 's', 'e']
  | .int n, text => Number (.int n) text
  | .float x, text => Number (.float x) text
  | .str s, text => text = '"' :: (escaped s.toList ++ ['"'])
  | .arr items, text => ∃ inner, text = '[' :: (inner ++ [']']) ∧ SpellsItems items inner
  | .obj members, text =>
    ∃ inner, text = '\x7b' :: (inner ++ ['\x7d']) ∧ SpellsMembers members inner
  | .unreadable, text => Number .unreadable text

/-- The text is one of the items, with commas between them. -/
def SpellsItems : List Json → List Char → Prop
  | [], text => text = []
  | [d], text => ∃ before inner after, text = before ++ (inner ++ after) ∧
    Blanks before ∧ Spells d inner ∧ Blanks after
  | d :: rest, text => ∃ before inner others, text = before ++ (inner ++ ',' :: others) ∧
    Blanks before ∧ Spells d inner ∧ SpellsItems rest others

/-- The text is one of the members, with commas between them. -/
def SpellsMembers : List (String × Json) → List Char → Prop
  | [], text => text = []
  | [(name, d)], text => ∃ before gap inner after,
    text = before ++ '"' :: (escaped name.toList ++ '"' :: ':' :: (gap ++ (inner ++ after))) ∧
    Blanks before ∧ Blanks gap ∧ Spells d inner ∧ Blanks after
  | (name, d) :: rest, text => ∃ before gap inner others,
    text = before ++
      '"' :: (escaped name.toList ++ '"' :: ':' :: (gap ++ (inner ++ ',' :: others))) ∧
    Blanks before ∧ Blanks gap ∧ Spells d inner ∧ SpellsMembers rest others

end

/-- The character is neither a blank nor the end of an array or object. -/
def Opens (c : Char) : Prop :=
  (c == ' ' || c == '\n' || c == '\t' || c == '\r') = false ∧ c ≠ ']' ∧ c ≠ '\x7d'

instance (c : Char) : Decidable (Opens c) := inferInstanceAs (Decidable (_ ∧ _ ∧ _))

theorem opens_of_isDigit {c : Char} (h : Decimal.isDigit c = true) : Opens c := by
  refine ⟨?_, ?_, ?_⟩
  · simp only [Bool.or_eq_false_iff, beq_eq_false_iff_ne]
    refine ⟨⟨⟨?_, ?_⟩, ?_⟩, ?_⟩ <;> rintro rfl <;> cases h
  · rintro rfl
    cases h
  · rintro rfl
    cases h

theorem opens_of_number {c : Char} (h : Decimal.isDigit c = true ∨ c = '-') : Opens c :=
  h.elim opens_of_isDigit fun h => h ▸ (by decide)

theorem skipBlanks_cons {c : Char} (h : Opens c) (rest : List Char) :
    skipBlanks (c :: rest) = c :: rest := by
  rw [skipBlanks, List.dropWhile_cons_of_neg]
  simpa using h.1

/-- A number starts with a digit or a minus sign. -/
theorem exists_spell {w : Decimal.Written} (h : w.Proper) :
    ∃ c rest, w.spell = c :: rest ∧ (Decimal.isDigit c = true ∨ c = '-') := by
  obtain ⟨negative, whole, fraction, e⟩ := w
  obtain ⟨c, digits, rfl⟩ := List.exists_cons_of_ne_nil h.whole
  cases negative with
  | true => exact ⟨'-', _, rfl, Or.inr rfl⟩
  | false => exact ⟨c, _, rfl, Or.inl (h.digits c List.mem_cons_self)⟩

theorem Number.opens {d : Json} {text : List Char} (h : Number d text) :
    ∃ c rest, text = c :: rest ∧ Opens c := by
  obtain ⟨w, hproper, rfl, -⟩ := h
  obtain ⟨c, rest, hspell, hc⟩ := exists_spell hproper
  exact ⟨c, rest, hspell, opens_of_number hc⟩

theorem Spells.opens {d : Json} {text : List Char} (h : Spells d text) :
    ∃ c rest, text = c :: rest ∧ Opens c := by
  cases d with
  | null => exact ⟨_, _, h, by decide⟩
  | bool b => cases b <;> exact ⟨_, _, h, by decide⟩
  | str s => exact ⟨_, _, h, by decide⟩
  | arr items =>
    obtain ⟨inner, rfl, -⟩ := h
    exact ⟨_, _, rfl, by decide⟩
  | obj members =>
    obtain ⟨inner, rfl, -⟩ := h
    exact ⟨_, _, rfl, by decide⟩
  | _ => exact Number.opens h

/-- The items of an array start, behind blanks, with the first one. -/
theorem SpellsItems.opens {d : Json} {items : List Json} {text : List Char}
    (h : SpellsItems (d :: items) text) (rest : List Char) :
    ∃ c others, skipBlanks (text ++ rest) = c :: others ∧ Opens c := by
  have hstart {before inner : List Char} (hbefore : Blanks before) (hd : Spells d inner)
      (after : List Char) :
      ∃ c others, skipBlanks (before ++ (inner ++ after) ++ rest) = c :: others ∧ Opens c := by
    obtain ⟨c, others, rfl, hc⟩ := hd.opens
    refine ⟨c, others ++ (after ++ rest), ?_, hc⟩
    rw [List.append_assoc, skipBlanks_append hbefore, List.append_assoc, List.cons_append,
      skipBlanks_cons hc]
  cases items with
  | nil =>
    obtain ⟨before, inner, after, rfl, hbefore, hd, -⟩ := h
    exact hstart hbefore hd after
  | cons e items =>
    obtain ⟨before, inner, others, rfl, hbefore, hd, -⟩ := h
    exact hstart hbefore hd _

/-- The members of an object start, behind blanks, with a quote. -/
theorem SpellsMembers.opens {m : String × Json} {members : List (String × Json)}
    {text : List Char} (h : SpellsMembers (m :: members) text) (rest : List Char) :
    ∃ others, skipBlanks (text ++ rest) = '"' :: others := by
  obtain ⟨name, d⟩ := m
  cases members with
  | nil =>
    obtain ⟨before, gap, inner, after, rfl, hbefore, -⟩ := h
    exact ⟨_, by rw [List.append_assoc, skipBlanks_append hbefore]; rfl⟩
  | cons m members =>
    obtain ⟨before, gap, inner, others, rfl, hbefore, -⟩ := h
    exact ⟨_, by rw [List.append_assoc, skipBlanks_append hbefore]; rfl⟩

/-! ### Reading -/

/-- A text that starts with a digit or a minus sign is read as a number. -/
theorem readDocument_number {fuel depth : Nat} {c : Char} {rest : List Char}
    (hc : Decimal.isDigit c = true ∨ c = '-') :
    readDocument (fuel + 1) depth (c :: rest) =
      (Decimal.scan (c :: rest)).map fun (w, rest) => (ofWritten w, rest) := by
  rw [readDocument, skipBlanks_cons (opens_of_number hc)]
  split
  case h_7 => rfl
  all_goals
    rename_i heq
    cases heq
    rcases hc with hc | hc <;> cases hc

theorem readDocument_text (fuel depth : Nat) (rest : List Char) :
    readDocument (fuel + 1) depth ('"' :: rest) =
      (readText fuel (some []) rest).map fun (s, rest) =>
        ((s.map .str).getD .unreadable, rest) := rfl

theorem readDocument_items (fuel depth : Nat) {c : Char} (hc : Opens c) {rest others : List Char}
    (h : skipBlanks rest = c :: others) :
    readDocument (fuel + 1) depth ('[' :: rest) =
      (readItems fuel (depth - 1) [] rest).map fun (items, rest) =>
        (within depth (.arr items), rest) := by
  have hopen : skipBlanks ('[' :: rest) = '[' :: rest := rfl
  rw [← readItems_skipBlanks]
  simp only [readDocument, hopen, h]
  split
  · rename_i heq
    cases heq
    exact absurd rfl hc.2.1
  · rfl

theorem readDocument_members (fuel depth : Nat) {rest others : List Char}
    (h : skipBlanks rest = '"' :: others) :
    readDocument (fuel + 1) depth ('\x7b' :: rest) =
      (readMembers fuel (depth - 1) [] rest).map fun (members, rest) =>
        (within depth (ofMembers members), rest) := by
  have hopen : skipBlanks ('\x7b' :: rest) = '\x7b' :: rest := rfl
  rw [← readMembers_skipBlanks]
  simp only [readDocument, hopen, h]
  rfl

/-- What follows a comma is another item. -/
theorem readItems_comma {fuel depth : Nat} {out : List Json} {text rest : List Char} {d : Json}
    (h : readDocument fuel depth text = some (d, ',' :: rest)) :
    readItems (fuel + 1) depth out text = readItems fuel depth (d :: out) rest := by
  rw [readItems, h]
  rfl

theorem readItems_close {fuel depth : Nat} {out : List Json} {text after rest : List Char}
    {d : Json} (hafter : Blanks after)
    (h : readDocument fuel depth text = some (d, after ++ ']' :: rest)) :
    readItems (fuel + 1) depth out text = some ((d :: out).reverse, rest) := by
  rw [readItems, h]
  dsimp only
  rw [skipBlanks_append hafter]
  rfl

/-- What follows a member and a comma is another member. -/
theorem readMembers_comma {fuel depth : Nat} {out : List (Option String × Json)}
    {before text value rest : List Char} {name : Option String} {d : Json} (hbefore : Blanks before)
    (hname : readName fuel text = some (name, ':' :: value))
    (h : readDocument fuel depth value = some (d, ',' :: rest)) :
    readMembers (fuel + 1) depth out (before ++ '"' :: text) =
      readMembers fuel depth ((name, d) :: out) rest := by
  have hopen : skipBlanks ('"' :: text) = '"' :: text := rfl
  have hcolon : skipBlanks (':' :: value) = ':' :: value := rfl
  simp only [readMembers, skipBlanks_append hbefore, hopen, hname, hcolon, h]
  rfl

theorem readMembers_close {fuel depth : Nat} {out : List (Option String × Json)}
    {before text value after rest : List Char} {name : Option String} {d : Json}
    (hbefore : Blanks before) (hname : readName fuel text = some (name, ':' :: value))
    (hafter : Blanks after)
    (h : readDocument fuel depth value = some (d, after ++ '\x7d' :: rest)) :
    readMembers (fuel + 1) depth out (before ++ '"' :: text) =
      some (((name, d) :: out).reverse, rest) := by
  have hopen : skipBlanks ('"' :: text) = '"' :: text := rfl
  have hcolon : skipBlanks (':' :: value) = ':' :: value := rfl
  simp only [readMembers, skipBlanks_append hbefore, hopen, hname, hcolon, h,
    skipBlanks_append hafter]
  rfl

theorem ofMembers_map (members : List (String × Json)) :
    ofMembers (members.map fun m => (some m.1, m.2)) = .obj members := by
  have hmap : (members.map fun m => (some m.1, m.2)).mapM
      (fun x : Option String × Json => x.1.map fun name => (name, x.2)) = some members := by
    induction members with
    | nil => rfl
    | cons m members ih =>
      rw [List.map_cons, List.mapM_cons, ih]
      rfl
  unfold ofMembers
  rw [hmap]

/-- Every text of the document reads as the document. -/
def Reads (d : Json) : Prop :=
  ∀ (text : List Char) (fuel depth : Nat) (rest : List Char), Spells d text → d.depth < depth →
    2 * text.length < fuel → Decimal.Ends rest →
      readDocument fuel depth (text ++ rest) = some (d, rest)

theorem Reads.behind {d : Json} (h : Reads d) {before text rest : List Char} (fuel depth : Nat)
    (hbefore : Blanks before) (htext : Spells d text) (hdepth : d.depth < depth)
    (hfuel : 2 * text.length < fuel) (hrest : Decimal.Ends rest) :
    readDocument fuel depth (before ++ (text ++ rest)) = some (d, rest) := by
  rw [readDocument_blanks hbefore, h text fuel depth rest htext hdepth hfuel hrest]

theorem reads_number {d : Json} (h : ∀ text, Spells d text → Number d text) : Reads d := by
  intro text fuel depth rest htext _ hfuel hrest
  obtain ⟨fuel, rfl⟩ := Nat.exists_eq_succ_of_ne_zero (Nat.ne_of_gt (Nat.zero_lt_of_lt hfuel))
  obtain ⟨w, hproper, rfl, rfl⟩ := h text htext
  have hscan := Decimal.scan_spell hproper hrest
  obtain ⟨c, others, hspell, hc⟩ := exists_spell hproper
  rw [hspell, List.cons_append] at hscan ⊢
  rw [readDocument_number hc, hscan, Option.map_some]

theorem reads_word {d : Json} {word : List Char} (hword : ∀ text, Spells d text → text = word)
    (hread : ∀ fuel depth rest, readDocument (fuel + 1) depth (word ++ rest) = some (d, rest)) :
    Reads d := by
  intro text fuel depth rest htext _ hfuel _
  obtain ⟨fuel, rfl⟩ := Nat.exists_eq_succ_of_ne_zero (Nat.ne_of_gt (Nat.zero_lt_of_lt hfuel))
  rw [hword text htext, hread]

theorem reads_str (s : String) : Reads (.str s) := by
  intro text fuel depth rest htext _ hfuel _
  obtain ⟨fuel, rfl⟩ := Nat.exists_eq_succ_of_ne_zero (Nat.ne_of_gt (Nat.zero_lt_of_lt hfuel))
  obtain rfl : text = '"' :: (escaped s.toList ++ ['"']) := htext
  have hlength := length_le_escaped s.toList
  rw [List.length_cons, List.length_append] at hfuel
  have htext := readText_escaped fuel [] s.toList rest (by omega)
  rw [List.cons_append, List.append_assoc, readDocument_text, List.singleton_append, htext]
  simp

theorem within_of_lt {d : Json} {depth : Nat} (h : 1 < depth) : within depth d = d :=
  if_neg (by omega)

/-- A text of the items of an array reads as the items. -/
theorem readItems_spelled {d : Json} {items : List Json} (hread : ∀ e ∈ d :: items, Reads e)
    {text : List Char} (htext : SpellsItems (d :: items) text) (fuel depth : Nat)
    (out : List Json) (rest : List Char) (hdepth : depthItems (d :: items) < depth)
    (hfuel : 2 * text.length + 1 < fuel) :
    readItems fuel depth out (text ++ ']' :: rest) = some (out.reverse ++ d :: items, rest) := by
  obtain ⟨fuel, rfl⟩ := Nat.exists_eq_succ_of_ne_zero (Nat.ne_of_gt (Nat.zero_lt_of_lt hfuel))
  induction items generalizing d text fuel out with
  | nil =>
    obtain ⟨before, inner, after, rfl, hbefore, hinner, hafter⟩ := htext
    rw [depthItems] at hdepth
    simp only [List.length_append] at hfuel
    have hd := (hread d List.mem_cons_self).behind fuel depth hbefore hinner
      (by omega) (by omega) (hafter.ends (.cons (c := ']') (by decide) rest))
    rw [List.append_assoc, List.append_assoc, readItems_close hafter hd, List.reverse_cons]
  | cons e items ih =>
    obtain ⟨before, inner, others, rfl, hbefore, hinner, hothers⟩ := htext
    rw [depthItems] at hdepth
    simp only [List.length_append, List.length_cons] at hfuel
    have hd := (hread d List.mem_cons_self).behind fuel depth hbefore hinner
      (by omega) (by omega) (.cons (c := ',') (by decide) (others ++ ']' :: rest))
    obtain ⟨fuel, rfl⟩ := Nat.exists_eq_succ_of_ne_zero (show fuel ≠ 0 by omega)
    have hitems := ih (fun e he => hread e (List.mem_cons_of_mem d he)) hothers (d :: out)
      (by omega) fuel (by omega)
    rw [List.append_assoc, List.append_assoc, List.cons_append, readItems_comma hd, hitems,
      List.reverse_cons, List.append_assoc, List.singleton_append]

theorem reads_arr {items : List Json} (hread : ∀ d ∈ items, Reads d) : Reads (.arr items) := by
  rintro text fuel depth rest ⟨inner, rfl, hinner⟩ hdepth hfuel _
  obtain ⟨fuel, rfl⟩ := Nat.exists_eq_succ_of_ne_zero (Nat.ne_of_gt (Nat.zero_lt_of_lt hfuel))
  have hwithin : within depth (.arr items) = .arr items :=
    within_of_lt (by rw [Json.depth] at hdepth; omega)
  rw [List.cons_append, List.append_assoc, List.singleton_append]
  cases items with
  | nil =>
    obtain rfl : inner = [] := hinner
    exact congrArg some (Prod.ext hwithin rfl)
  | cons d items =>
    rw [List.length_cons, List.length_append] at hfuel
    have hitems := readItems_spelled hread hinner fuel (depth - 1) [] rest
      (by rw [Json.depth] at hdepth; omega) (by omega)
    obtain ⟨c, others, hopen, hc⟩ := hinner.opens (']' :: rest)
    rw [readDocument_items fuel depth hc hopen, hitems]
    exact congrArg some (Prod.ext hwithin rfl)

/-- A text of the members of an object reads as the members. -/
theorem readMembers_spelled {m : String × Json} {members : List (String × Json)}
    (hread : ∀ x ∈ m :: members, Reads x.2) {text : List Char}
    (htext : SpellsMembers (m :: members) text) (fuel depth : Nat)
    (out : List (Option String × Json)) (rest : List Char)
    (hdepth : depthMembers (m :: members) < depth) (hfuel : 2 * text.length + 1 < fuel) :
    readMembers fuel depth out (text ++ '\x7d' :: rest) =
      some (out.reverse ++ (m :: members).map fun m => (some m.1, m.2), rest) := by
  obtain ⟨fuel, rfl⟩ := Nat.exists_eq_succ_of_ne_zero (Nat.ne_of_gt (Nat.zero_lt_of_lt hfuel))
  induction members generalizing m text fuel out with
  | nil =>
    obtain ⟨name, d⟩ := m
    obtain ⟨before, gap, inner, after, rfl, hbefore, hgap, hinner, hafter⟩ := htext
    have hlength := length_le_escaped name.toList
    have hread' : Reads d := hread (name, d) List.mem_cons_self
    rw [depthMembers] at hdepth
    simp only [List.length_cons, List.length_append] at hfuel
    have hd := hread'.behind fuel depth hgap hinner (by omega) (by omega)
      (hafter.ends (.cons (c := '\x7d') (by decide) rest))
    have hname := readName_escaped fuel name (':' :: (gap ++ (inner ++ (after ++ '\x7d' :: rest))))
      (by omega)
    simp only [List.append_assoc, List.cons_append]
    rw [readMembers_close hbefore hname hafter hd, List.reverse_cons]
    rfl
  | cons m' members ih =>
    obtain ⟨name, d⟩ := m
    obtain ⟨before, gap, inner, others, rfl, hbefore, hgap, hinner, hothers⟩ := htext
    have hlength := length_le_escaped name.toList
    have hread' : Reads d := hread (name, d) List.mem_cons_self
    rw [depthMembers] at hdepth
    simp only [List.length_cons, List.length_append] at hfuel
    have hd := hread'.behind fuel depth hgap hinner (by omega) (by omega)
      (.cons (c := ',') (by decide) (others ++ '\x7d' :: rest))
    have hname := readName_escaped fuel name
      (':' :: (gap ++ (inner ++ ',' :: (others ++ '\x7d' :: rest)))) (by omega)
    obtain ⟨fuel, rfl⟩ := Nat.exists_eq_succ_of_ne_zero (show fuel ≠ 0 by omega)
    have hmembers := ih (fun x hx => hread x (List.mem_cons_of_mem _ hx)) hothers
      ((some name, d) :: out) (by omega) fuel (by omega)
    simp only [List.append_assoc, List.cons_append]
    rw [readMembers_comma hbefore hname hd, hmembers, List.reverse_cons, List.append_assoc,
      List.singleton_append]
    rfl

theorem reads_obj {members : List (String × Json)} (hread : ∀ m ∈ members, Reads m.2) :
    Reads (.obj members) := by
  rintro text fuel depth rest ⟨inner, rfl, hinner⟩ hdepth hfuel _
  obtain ⟨fuel, rfl⟩ := Nat.exists_eq_succ_of_ne_zero (Nat.ne_of_gt (Nat.zero_lt_of_lt hfuel))
  have hwithin : within depth (.obj members) = .obj members :=
    within_of_lt (by rw [Json.depth] at hdepth; omega)
  rw [List.cons_append, List.append_assoc, List.singleton_append]
  cases members with
  | nil =>
    obtain rfl : inner = [] := hinner
    exact congrArg some (Prod.ext hwithin rfl)
  | cons m members =>
    rw [List.length_cons, List.length_append] at hfuel
    have hmembers := readMembers_spelled hread hinner fuel (depth - 1) [] rest
      (by rw [Json.depth] at hdepth; omega) (by omega)
    obtain ⟨others, hopen⟩ := hinner.opens ('\x7d' :: rest)
    rw [readDocument_members fuel depth hopen, hmembers, Option.map_some]
    dsimp only
    rw [List.reverse_nil, List.nil_append, ofMembers_map, hwithin]

theorem sizeOf_lt_of_mem {m : String × Json} {members : List (String × Json)} (h : m ∈ members) :
    sizeOf m.2 < sizeOf members := by
  have hlt := List.sizeOf_lt_of_mem h
  obtain ⟨name, d⟩ := m
  rw [Prod.mk.sizeOf_spec] at hlt
  exact Nat.lt_of_le_of_lt (Nat.le_add_left _ _) hlt

/-- The texts of every document read as the document. -/
theorem reads (d : Json) : Reads d :=
  match d with
  | .null => reads_word (fun _ h => h) fun _ _ _ => rfl
  | .bool true => reads_word (fun _ h => h) fun _ _ _ => rfl
  | .bool false => reads_word (fun _ h => h) fun _ _ _ => rfl
  | .int _ => reads_number fun _ h => h
  | .float _ => reads_number fun _ h => h
  | .str s => reads_str s
  | .arr items => reads_arr fun d _ => reads d
  | .obj members => reads_obj fun m hm =>
    have := sizeOf_lt_of_mem hm
    reads m.2
  | .unreadable => reads_number fun _ h => h
termination_by sizeOf d

/-- A text of a document that is not nested too deep reads as the document. Blanks may follow. -/
theorem parse_of_spells {d : Json} {text blanks : String} (h : Spells d text.toList)
    (hdepth : d.depth < nestingLimit) (hblanks : Blanks blanks.toList) :
    parse (text ++ blanks) = some d := by
  have hread := reads d text.toList (2 * (text ++ blanks).toList.length + 2) nestingLimit
    blanks.toList h hdepth (by rw [String.toList_append, List.length_append]; omega)
    (by simpa using hblanks.ends Decimal.ends_nil)
  have hrest : skipBlanks blanks.toList = [] := by
    simpa [skipBlanks] using skipBlanks_append hblanks []
  rw [← String.toList_append] at hread
  simp only [parse, parseWithin, hread, hrest]
  rfl

end Json

end GraphLang
