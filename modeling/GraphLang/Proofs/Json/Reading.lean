import GraphLang.Json.Decode
import GraphLang.Program.Document
import GraphLang.Proofs.Json.RoundTrip

/-!
# Documents that read as values

What is written as a document is not nested deep and holds no whole number that is too large, so its
text reads as a document again. What value that is follows from the parts: a list reads as one if
all of its items do.
-/

namespace GraphLang.Json

variable {α : Type} {d : Json} {k : Nat}

/-! ### Documents that can be written and read -/

/-- The whole numbers of the document fit into words, and it is nested at most so deep. -/
structure Shallow (k : Nat) (d : Json) : Prop where
  /-- Its whole numbers fit. -/
  bounded : d.Bounded
  /-- It is not nested deeper. -/
  depth : d.depth ≤ k

theorem boundedItems_iff {items : List Json} : BoundedItems items ↔ ∀ d ∈ items, d.Bounded := by
  induction items with
  | nil => simp [BoundedItems]
  | cons d items ih => simp [BoundedItems, ih]

theorem boundedMembers_iff {members : List (String × Json)} :
    BoundedMembers members ↔ ∀ m ∈ members, m.2.Bounded := by
  induction members with
  | nil => simp [BoundedMembers]
  | cons m members ih => simp [BoundedMembers, ih]

theorem rereadItems_eq (items : List Json) : rereadItems items = items.map reread := by
  induction items with
  | nil => rfl
  | cons d items ih => rw [rereadItems, ih, List.map_cons]

theorem rereadMembers_eq (members : List (String × Json)) :
    rereadMembers members = members.map fun m => (m.1, m.2.reread) := by
  induction members with
  | nil => rfl
  | cons m members ih => rw [rereadMembers, ih, List.map_cons]

theorem depthItems_le_iff {items : List Json} :
    depthItems items ≤ k ↔ ∀ d ∈ items, d.depth ≤ k := by
  induction items with
  | nil => simp [depthItems]
  | cons d items ih => simp [depthItems, ih]

theorem depthMembers_le_iff {members : List (String × Json)} :
    depthMembers members ≤ k ↔ ∀ m ∈ members, m.2.depth ≤ k := by
  induction members with
  | nil => simp [depthMembers]
  | cons m members ih => simp [depthMembers, ih]

theorem Shallow.mono {j : Nat} (h : d.Shallow j) (hle : j ≤ k) : d.Shallow k :=
  ⟨h.bounded, Nat.le_trans h.depth hle⟩

@[simp] theorem shallow_null : Shallow (k + 1) .null := ⟨trivial, by simp [depth]⟩

@[simp] theorem shallow_bool (b : Bool) : Shallow (k + 1) (.bool b) := ⟨trivial, by simp [depth]⟩

@[simp] theorem shallow_str (s : String) : Shallow (k + 1) (.str s) := ⟨trivial, by simp [depth]⟩

@[simp] theorem shallow_float (x : Float) : Shallow (k + 1) (.float x) :=
  ⟨trivial, by simp [depth]⟩

theorem shallow_int {n : Int} (h : Fits n) : Shallow (k + 1) (.int n) := ⟨h, by simp [depth]⟩

theorem shallow_nat {n : Nat} (h : n < 2 ^ 64) : Shallow (k + 1) (.nat n) :=
  shallow_int ⟨by omega, by exact_mod_cast h⟩

@[simp] theorem shallow_arr {items : List Json} :
    Shallow (k + 1) (.arr items) ↔ ∀ d ∈ items, d.Shallow k := by
  constructor
  · rintro ⟨hbounded, hdepth⟩ d hd
    rw [depth, Nat.add_le_add_iff_right, depthItems_le_iff] at hdepth
    exact ⟨boundedItems_iff.1 hbounded d hd, hdepth d hd⟩
  · intro h
    refine ⟨boundedItems_iff.2 fun d hd => (h d hd).bounded, ?_⟩
    rw [depth, Nat.add_le_add_iff_right, depthItems_le_iff]
    exact fun d hd => (h d hd).depth

@[simp] theorem shallow_obj {members : List (String × Json)} :
    Shallow (k + 1) (.obj members) ↔ ∀ m ∈ members, m.2.Shallow k := by
  constructor
  · rintro ⟨hbounded, hdepth⟩ m hm
    rw [depth, Nat.add_le_add_iff_right, depthMembers_le_iff] at hdepth
    exact ⟨boundedMembers_iff.1 hbounded m hm, hdepth m hm⟩
  · intro h
    refine ⟨boundedMembers_iff.2 fun m hm => (h m hm).bounded, ?_⟩
    rw [depth, Nat.add_le_add_iff_right, depthMembers_le_iff]
    exact fun m hm => (h m hm).depth

/-! ### Documents of values -/

/-- The document may be written, nested at most so deep, and its text reads as the value, if there
is one. -/
structure ReadsAs (read : Json → Option α) (k : Nat) (d : Json) (a : Option α) : Prop where
  /-- Its text reads as the value. -/
  read : read d.reread = a
  /-- It may be written. -/
  shallow : d.Shallow k

/-- The text of the document can be read, unless it is nested too deep. -/
theorem Shallow.parse (h : d.Shallow k) (hk : k < nestingLimit) :
    parse d.compress = some d.reread :=
  parse_compress h.bounded (Nat.lt_of_le_of_lt h.depth hk)

theorem Shallow.parse_pretty (h : d.Shallow k) (hk : k < nestingLimit) {blanks : String}
    (hblanks : Blanks blanks.toList) : Json.parse (d.pretty ++ blanks) = some d.reread :=
  Json.parse_pretty h.bounded (Nat.lt_of_le_of_lt h.depth hk) hblanks

/-- A field that may be null. -/
theorem ReadsAs.optionalField {read : Json → Option α} {a : Option α} (h : ReadsAs read k d a)
    (hd : d.reread ≠ .null) : optionalField? read (some d.reread) = a.map some := by
  have hfield : optionalField? read (some d.reread) = (read d.reread).map some := by
    cases hreread : d.reread with
    | null => exact absurd hreread hd
    | _ => rfl
  rw [hfield, h.read]

theorem readsAs_nat {bound n : Nat} (hbound : bound ≤ UInt64.size) (h : n < bound) :
    ReadsAs (toNatBelow? bound) (k + 1) (.nat n) (some n) where
  read := by
    have hbounds : (decide ((0 : Int) ≤ n) && decide ((n : Int) < bound)) = true := by simpa using h
    rw [nat, reread, toNatBelow?, if_pos hbounds, Int.toNat_natCast]
  shallow := shallow_nat (Nat.lt_of_lt_of_le h hbound)

theorem readsAs_nat16 {n : Nat} (h : n < UInt16.size) :
    ReadsAs toNat16? (k + 1) (.nat n) (some n) := readsAs_nat (by decide) h

theorem readsAs_nat32 {n : Nat} (h : n < UInt32.size) :
    ReadsAs toNat32? (k + 1) (.nat n) (some n) := readsAs_nat (by decide) h

theorem readsAs_nat64 {n : Nat} (h : n < UInt64.size) :
    ReadsAs toNat64? (k + 1) (.nat n) (some n) := readsAs_nat (by decide) h

theorem readsAs_int64 (i : Int64) : ReadsAs toInt64? (k + 1) (.int i.toInt) (some i) where
  read := by
    have hbounds : (decide (Int64.minValue.toInt ≤ i.toInt) &&
        decide (i.toInt ≤ Int64.maxValue.toInt)) = true := by
      rw [Bool.and_eq_true, decide_eq_true_eq, decide_eq_true_eq]
      exact ⟨Int64.minValue_le_toInt i, Int64.toInt_le i⟩
    rw [reread, toInt64?, if_pos hbounds, Int64.ofInt_toInt]
  shallow := by
    have hlow := Int64.minValue_le_toInt i
    have hhigh := Int64.toInt_le i
    rw [Int64.toInt_minValue] at hlow
    rw [Int64.toInt_maxValue] at hhigh
    exact shallow_int ⟨hlow, by omega⟩

theorem mapM_congr {β : Type} {f g : α → Option β} {l : List α} (h : ∀ a ∈ l, f a = g a) :
    l.mapM f = l.mapM g := by
  induction l with
  | nil => rfl
  | cons a l ih =>
    rw [List.mapM_cons, List.mapM_cons, h a List.mem_cons_self,
      ih fun b hb => h b (List.mem_cons_of_mem a hb)]

theorem mapM_eq_map {β : Type} {f : α → Option β} {g : α → β} {l : List α}
    (h : ∀ a ∈ l, f a = some (g a)) : l.mapM f = some (l.map g) :=
  (mapM_congr h).trans List.mapM_pure

/-- What is read back one by one is read back as a list. -/
theorem mapM_eq_self {f : α → Option α} {l : List α} (h : ∀ a ∈ l, f a = some a) :
    l.mapM f = some l := by
  simpa using mapM_eq_map (g := id) h

theorem isSome_mapM_iff {β : Type} {f : α → Option β} {l : List α} :
    (l.mapM f).isSome ↔ ∀ a ∈ l, (f a).isSome := by
  induction l with
  | nil => simp
  | cons a l ih =>
    rw [List.mapM_cons, List.forall_mem_cons, ← ih]
    cases f a <;> cases l.mapM f <;> simp

/-- A list reads as one if all of its items do. -/
theorem readsAs_list {write : α → Json} {read : Json → Option α} {again : α → Option α} {l : List α}
    (h : ∀ a ∈ l, ReadsAs read k (write a) (again a)) :
    ReadsAs (toList? read) (k + 1) (.arr (l.map write)) (l.mapM again) where
  read := by
    rw [reread, rereadItems_eq, toList?, List.map_map, List.mapM_map]
    exact mapM_congr fun a ha => (h a ha).read
  shallow := by
    rw [shallow_arr]
    intro d hd
    obtain ⟨a, ha, rfl⟩ := List.mem_map.1 hd
    exact (h a ha).shallow

/-! ### What any document reads as -/

variable {β : Type} {P : α → Prop}

/-- What is read, if anything, has the property. -/
def Ensures (P : α → Prop) (read : Option α) : Prop := ∀ a ∈ read, P a

theorem ensures_none : Ensures P none := nofun

theorem ensures_some {a : α} (h : P a) : Ensures P (some a) := by
  rintro _ ⟨⟩
  exact h

theorem ensures_map {read : Option β} {f : β → α} (h : ∀ b ∈ read, P (f b)) :
    Ensures P (read.map f) := by
  intro a ha
  obtain ⟨b, hb, rfl⟩ := Option.map_eq_some_iff.1 ha
  exact h b hb

theorem ensures_bind {read : Option β} {f : β → Option α} (h : ∀ b ∈ read, Ensures P (f b)) :
    Ensures P (read >>= f) := by
  intro a ha
  obtain ⟨b, hb, ha⟩ := Option.bind_eq_some_iff.1 ha
  exact h b hb a ha

theorem ensures_unit {c : Option Json} {a : α} (h : P a) : Ensures P (unit? c a) := by
  unfold unit?
  split_ifs
  · exact ensures_some h
  · exact ensures_none

/-- What holds of every item that is read holds of all items of a list that is read. -/
theorem ensures_list {read : Json → Option α} (h : ∀ d, Ensures P (read d)) (d : Json) :
    Ensures (fun l => ∀ a ∈ l, P a) (toList? read d) := by
  unfold toList?
  split
  · rename_i items
    induction items with
    | nil => exact ensures_some (List.forall_mem_nil _)
    | cons d items ih =>
      rw [List.mapM_cons]
      exact ensures_bind fun a ha => ensures_bind fun rest hrest =>
        ensures_some (List.forall_mem_cons.2 ⟨h d a ha, ih rest hrest⟩)
  · exact ensures_none

theorem ensures_nat (bound : Nat) (d : Json) : Ensures (· < bound) (toNatBelow? bound d) := by
  unfold toNatBelow?
  split
  · split_ifs with hbounds
    · simp only [Bool.and_eq_true, decide_eq_true_eq] at hbounds
      exact ensures_some (by omega)
    · exact ensures_none
  · exact ensures_none

theorem ensures_optionalField {read : Json → Option α} (h : ∀ d, Ensures P (read d))
    (c : Option Json) : Ensures (fun o => ∀ a, o = some a → P a) (optionalField? read c) := by
  unfold optionalField?
  split
  · exact ensures_some nofun
  · exact ensures_some nofun
  · refine ensures_map fun a ha => ?_
    rintro _ ⟨⟩
    exact h _ a ha

end GraphLang.Json
