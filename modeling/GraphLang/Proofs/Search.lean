import GraphLang.Search
import Mathlib.Data.List.Basic
import Std.Data.HashSet.Lemmas

/-!
# What a search finds

With more fuel than there are points left to see, a search finds everything that can be reached
from its stack, and nothing else. A search made of turns is over after as many of them as it can
spend something on, and its answer follows from what turns keep.
-/

namespace GraphLang

/-- What is dropped from the front of a stack was passed over. -/
theorem mem_dropWhile_or {α : Type} {p : α → Bool} {stack : List α} {x : α} (hx : x ∈ stack) :
    p x = true ∨ x ∈ stack.dropWhile p := by
  induction stack with
  | nil => cases hx
  | cons y stack ih =>
    by_cases hy : p y = true
    · rw [List.dropWhile_cons_of_pos hy]
      rcases List.mem_cons.1 hx with rfl | hx
      · exact Or.inl hy
      · exact ih hx
    · rw [List.dropWhile_cons_of_neg hy]
      exact Or.inr hx

theorem not_of_dropWhile_eq_cons {α : Type} {p : α → Bool} {stack rest : List α} {x : α}
    (h : stack.dropWhile p = x :: rest) : p x = false := by
  have hne : stack.dropWhile p ≠ [] := by simp [h]
  have hhead := List.head_dropWhile_not p hne
  simpa [h] using hhead

variable {ι : Type} [BEq ι] [Hashable ι] [LawfulBEq ι] {next : ι → List ι} {points : List ι}

/-- How many points have not been seen. -/
def unseen (points : List ι) (seen : Std.HashSet ι) : Nat :=
  (points.filter fun x => !seen.contains x).length

/-- Every new point pays for one unit of fuel. -/
theorem unseen_insert_lt {seen : Std.HashSet ι} {x : ι} (hx : x ∈ points) (hnew : x ∉ seen) :
    unseen points (seen.insert x) < unseen points seen := by
  have hfilter : (points.filter fun y => !(seen.insert x).contains y) =
      (points.filter fun y => !seen.contains y).filter fun y => !(x == y) := by
    rw [List.filter_filter]
    refine List.filter_congr fun y _ => ?_
    simp [Std.HashSet.contains_insert]
  rw [unseen, hfilter, unseen, List.length_filter_lt_length_iff_exists]
  exact ⟨x, List.mem_filter.2 ⟨hx, by simpa using hnew⟩, by simp⟩

omit [LawfulBEq ι] in
theorem unseen_empty : unseen points (∅ : Std.HashSet ι) = points.length := by
  simp [unseen]

/-- A search with enough fuel ends in a closed set that holds the stack. -/
theorem reach_closed (hnext : ∀ x ∈ points, ∀ y ∈ next x, y ∈ points) {fuel : Nat}
    {stack : List ι} {seen : Std.HashSet ι} (hstack : ∀ x ∈ stack, x ∈ points)
    (hfuel : unseen points seen < fuel) :
    (∀ x ∈ seen, x ∈ reach next fuel stack seen) ∧
      (∀ x ∈ stack, x ∈ reach next fuel stack seen) ∧
      ∀ x ∈ reach next fuel stack seen, x ∈ seen ∨ ∀ y ∈ next x, y ∈ reach next fuel stack seen := by
  induction fuel generalizing stack seen with
  | zero => omega
  | succ fuel ih =>
    unfold reach
    cases hdrop : stack.dropWhile seen.contains with
    | nil =>
      refine ⟨fun x hx => hx, fun x hx => ?_, fun x hx => Or.inl hx⟩
      rcases mem_dropWhile_or (p := seen.contains) hx with hseen | hmem
      · exact hseen
      · rw [hdrop] at hmem
        cases hmem
    | cons x rest =>
      dsimp only
      have hsub : ∀ y ∈ x :: rest, y ∈ stack := by
        intro y hy
        exact (List.dropWhile_sublist _).subset (hdrop ▸ hy)
      have hx : x ∈ points := hstack x (hsub x (by simp))
      have hnew : x ∉ seen := by
        have := not_of_dropWhile_eq_cons hdrop
        simpa using this
      have hstack' : ∀ y ∈ next x ++ rest, y ∈ points := by
        intro y hy
        rcases List.mem_append.1 hy with hy | hy
        · exact hnext x hx y hy
        · exact hstack y (hsub y (List.mem_cons_of_mem x hy))
      have hfuel' : unseen points (seen.insert x) < fuel := by
        have := unseen_insert_lt hx hnew
        omega
      obtain ⟨hseen, hon, hclosed⟩ := ih hstack' hfuel'
      refine ⟨fun y hy => hseen y (by simp [hy]), fun y hy => ?_, fun y hy => ?_⟩
      · rcases mem_dropWhile_or (p := seen.contains) hy with hold | hmem
        · have hold : y ∈ seen := hold
          exact hseen y (by simp [hold])
        · rw [hdrop] at hmem
          rcases List.mem_cons.1 hmem with rfl | hmem
          · exact hseen y (by simp)
          · exact hon y (List.mem_append_right _ hmem)
      · rcases hclosed y hy with hold | hall
        · rcases Std.HashSet.mem_insert.1 hold with heq | hold
          · rw [beq_iff_eq] at heq
            subst heq
            exact Or.inr fun z hz => hon z (List.mem_append_left _ hz)
          · exact Or.inl hold
        · exact Or.inr hall

/-- With enough fuel, a search does not depend on how much there is. -/
theorem reach_fuel (hnext : ∀ x ∈ points, ∀ y ∈ next x, y ∈ points) {fuel fuel' : Nat}
    {stack : List ι} {seen : Std.HashSet ι} (hstack : ∀ x ∈ stack, x ∈ points)
    (hfuel : unseen points seen < fuel) (hfuel' : unseen points seen < fuel') :
    reach next fuel stack seen = reach next fuel' stack seen := by
  induction fuel generalizing fuel' stack seen with
  | zero => omega
  | succ fuel ih =>
    obtain ⟨fuel', rfl⟩ : ∃ k, fuel' = k + 1 := ⟨fuel' - 1, by omega⟩
    rw [reach, reach]
    cases hdrop : stack.dropWhile seen.contains with
    | nil => rfl
    | cons x rest =>
      have hsub : ∀ y ∈ x :: rest, y ∈ stack := fun y hy =>
        (List.dropWhile_sublist _).subset (hdrop ▸ hy)
      have hx := hstack x (hsub x List.mem_cons_self)
      have hnew : x ∉ seen := by simpa using not_of_dropWhile_eq_cons hdrop
      have hlt := unseen_insert_lt hx hnew
      refine ih (fun y hy => ?_) (by omega) (by omega)
      rcases List.mem_append.1 hy with hy | hy
      · exact hnext x hx y hy
      · exact hstack y (hsub y (List.mem_cons_of_mem x hy))

/-- Whatever holds of the stack and of what was seen, and passes on to what comes next, holds of all
that a search ends with. -/
theorem reach_induction {P : ι → Prop} {fuel : Nat} {stack : List ι} {seen : Std.HashSet ι}
    (hseen : ∀ x ∈ seen, P x) (hstack : ∀ x ∈ stack, P x)
    (hnext : ∀ x, P x → ∀ y ∈ next x, P y) : ∀ x ∈ reach next fuel stack seen, P x := by
  induction fuel generalizing stack seen with
  | zero => exact hseen
  | succ fuel ih =>
    unfold reach
    cases hdrop : stack.dropWhile seen.contains with
    | nil => exact hseen
    | cons y rest =>
      have hsub : ∀ z ∈ y :: rest, z ∈ stack := fun z hz =>
        (List.dropWhile_sublist _).subset (hdrop ▸ hz)
      have hy : P y := hstack y (hsub y List.mem_cons_self)
      refine ih (fun x hx => ?_) fun x hx => ?_
      · rcases Std.HashSet.mem_insert.1 hx with heq | hold
        · rw [beq_iff_eq] at heq
          exact heq ▸ hy
        · exact hseen x hold
      · rcases List.mem_append.1 hx with hx | hx
        · exact hnext y hy x hx
        · exact hstack x (hsub x (List.mem_cons_of_mem y hx))

/-! ### Depth-first search -/

section preorder

variable {allowed : ι → Bool} {fuel : Nat} {stack : List ι} {seen : Std.HashSet ι}

omit [LawfulBEq ι] in
/-- The point that the search looks at next. -/
theorem next_point {y : ι} {rest : List ι}
    (hdrop : stack.dropWhile (fun x => seen.contains x || !allowed x) = y :: rest) :
    y ∉ seen ∧ allowed y = true ∧ ∀ z ∈ y :: rest, z ∈ stack := by
  have hy := not_of_dropWhile_eq_cons hdrop
  simp only [Bool.or_eq_false_iff, Bool.not_eq_false'] at hy
  refine ⟨by simpa using hy.1, hy.2, fun z hz => ?_⟩
  exact (List.dropWhile_sublist _).subset (hdrop ▸ hz)

/-- What a depth-first search finds is allowed, was not seen before, and was on the stack or comes
after something that the search finds. -/
theorem mem_preorder {x : ι} (hx : x ∈ preorder next allowed fuel stack seen) :
    allowed x = true ∧ x ∉ seen ∧
      (x ∈ stack ∨ ∃ y ∈ preorder next allowed fuel stack seen, x ∈ next y) := by
  induction fuel generalizing stack seen with
  | zero => cases hx
  | succ fuel ih =>
    unfold preorder at hx ⊢
    cases hdrop : stack.dropWhile fun x => seen.contains x || !allowed x with
    | nil =>
      rw [hdrop] at hx
      cases hx
    | cons y rest =>
      rw [hdrop] at hx
      dsimp only at hx ⊢
      obtain ⟨hnew, hy, hsub⟩ := next_point hdrop
      rcases List.mem_cons.1 hx with rfl | hx
      · exact ⟨hy, hnew, Or.inl (hsub x List.mem_cons_self)⟩
      · obtain ⟨hallowed, hnew, hfrom⟩ := ih hx
        refine ⟨hallowed, fun hold => hnew (by simp [hold]), ?_⟩
        rcases hfrom with hon | ⟨z, hz, hnext⟩
        · rcases List.mem_append.1 hon with hnext | hrest
          · exact Or.inr ⟨y, List.mem_cons_self, hnext⟩
          · exact Or.inl (hsub x (List.mem_cons_of_mem y hrest))
        · exact Or.inr ⟨z, List.mem_cons_of_mem y hz, hnext⟩

omit [LawfulBEq ι] in
/-- Whatever holds of the stack and passes on to what comes next holds of all that the search
finds. -/
theorem preorder_induction {P : ι → Prop} (hstack : ∀ x ∈ stack, allowed x = true → P x)
    (hnext : ∀ x, P x → ∀ y ∈ next x, allowed y = true → P y) :
    ∀ x ∈ preorder next allowed fuel stack seen, P x := by
  induction fuel generalizing stack seen with
  | zero => exact fun x hx => nomatch hx
  | succ fuel ih =>
    intro x hx
    unfold preorder at hx
    cases hdrop : stack.dropWhile fun x => seen.contains x || !allowed x with
    | nil =>
      rw [hdrop] at hx
      cases hx
    | cons y rest =>
      rw [hdrop] at hx
      obtain ⟨-, hy, hsub⟩ := next_point hdrop
      have hPy : P y := hstack y (hsub y List.mem_cons_self) hy
      rcases List.mem_cons.1 hx with rfl | hx
      · exact hPy
      · refine ih (fun z hz hallowed => ?_) x hx
        rcases List.mem_append.1 hz with hz | hz
        · exact hnext y hPy z hz hallowed
        · exact hstack z (hsub z (List.mem_cons_of_mem y hz)) hallowed

/-- A depth-first search with enough fuel finds what is on the stack and whatever comes next. -/
theorem preorder_closed (hpoints : ∀ x, allowed x = true → x ∈ points)
    (hfuel : unseen points seen < fuel) {x : ι} (hallowed : allowed x = true)
    (hfrom : x ∈ stack ∨ ∃ y ∈ preorder next allowed fuel stack seen, x ∈ next y) :
    x ∈ seen ∨ x ∈ preorder next allowed fuel stack seen := by
  induction fuel generalizing stack seen with
  | zero => omega
  | succ fuel ih =>
    unfold preorder at hfrom ⊢
    cases hdrop : stack.dropWhile fun x => seen.contains x || !allowed x with
    | nil =>
      rw [hdrop] at hfrom
      rcases hfrom with hon | ⟨y, hy, -⟩
      · have hpassed := mem_dropWhile_or (p := fun x => seen.contains x || !allowed x) hon
        rw [hdrop] at hpassed
        simp only [hallowed, Bool.not_true, Bool.or_false, List.not_mem_nil, or_false] at hpassed
        exact Or.inl hpassed
      · cases hy
    | cons y rest =>
      rw [hdrop] at hfrom
      dsimp only at hfrom ⊢
      obtain ⟨hnew, hy, -⟩ := next_point hdrop
      have hlt := unseen_insert_lt (hpoints y hy) hnew
      -- The new point itself is found first; everything else is left to the rest of the search.
      have hrest : x ∈ next y ++ rest ∨
          (∃ z ∈ preorder next allowed fuel (next y ++ rest) (seen.insert y), x ∈ next z) →
          x ∈ seen ∨ x ∈ y :: preorder next allowed fuel (next y ++ rest) (seen.insert y) := by
        intro h
        rcases ih (by omega) h with hseen | hfound
        · rcases Std.HashSet.mem_insert.1 hseen with heq | hseen
          · rw [beq_iff_eq] at heq
            exact Or.inr (by simp [heq])
          · exact Or.inl hseen
        · exact Or.inr (List.mem_cons_of_mem y hfound)
      rcases hfrom with hon | ⟨z, hz, hnext⟩
      · have hpassed := mem_dropWhile_or (p := fun x => seen.contains x || !allowed x) hon
        rw [hdrop] at hpassed
        simp only [hallowed, Bool.not_true, Bool.or_false] at hpassed
        rcases hpassed with hseen | hon
        · exact Or.inl hseen
        · rcases List.mem_cons.1 hon with rfl | hon
          · exact Or.inr List.mem_cons_self
          · exact hrest (Or.inl (List.mem_append_right _ hon))
      · rcases List.mem_cons.1 hz with rfl | hz
        · exact hrest (Or.inl (List.mem_append_left _ hnext))
        · exact hrest (Or.inr ⟨z, hz, hnext⟩)

/-- With enough fuel, a depth-first search does not depend on how much there is. -/
theorem preorder_fuel (hpoints : ∀ x, allowed x = true → x ∈ points) {fuel' : Nat}
    (hfuel : unseen points seen < fuel) (hfuel' : unseen points seen < fuel') :
    preorder next allowed fuel stack seen = preorder next allowed fuel' stack seen := by
  induction fuel generalizing fuel' stack seen with
  | zero => omega
  | succ fuel ih =>
    obtain ⟨fuel', rfl⟩ : ∃ k, fuel' = k + 1 := ⟨fuel' - 1, by omega⟩
    rw [preorder, preorder]
    cases hdrop : stack.dropWhile fun x => seen.contains x || !allowed x with
    | nil => rfl
    | cons x rest =>
      obtain ⟨hnew, hx, -⟩ := next_point hdrop
      have hlt := unseen_insert_lt (hpoints x hx) hnew
      exact congrArg (x :: ·) (ih (by omega) (by omega))

end preorder

/-! ### Turns -/

namespace Search

variable {σ : Type} {search : Search σ} {s : σ}

/-- What a number of turns comes to. -/
def after (search : Search σ) : Nat → σ → Turn σ
  | 0, s => .on s
  | k + 1, s =>
    match search.turn s with
    | .over found => .over found
    | .on t => search.after k t

/-- A search is over, with its answer, after no more turns than it can spend something on and a last
one. -/
theorem exists_over (search : Search σ) (s : σ) :
    ∃ k ≤ search.budget s + 1, search.after k s = .over (search.run s) := by
  fun_induction search.run s with
  | case1 s found hturn => exact ⟨1, by omega, by rw [after, hturn]⟩
  | case2 s t hturn ih =>
    obtain ⟨k, hk, hover⟩ := ih
    have hspent := search.spends hturn
    exact ⟨k + 1, by omega, by rw [after, hturn]; exact hover⟩

theorem run_of_after {found : Bool} {k : Nat} (h : search.after k s = .over found) :
    search.run s = found := by
  fun_induction search.run s generalizing k with
  | case1 s found' hturn =>
    cases k with
    | zero => cases h
    | succ k =>
      rw [after, hturn] at h
      exact Turn.over.inj h
  | case2 s t hturn ih =>
    cases k with
    | zero => cases h
    | succ k =>
      rw [after, hturn] at h
      exact ih h

/-- What turns keep holds at the last one, and so does what follows from it there of the answer. -/
theorem run_induction {P : σ → Prop} {A : Bool → Prop}
    (hon : ∀ s t, P s → search.turn s = .on t → P t)
    (hover : ∀ s found, P s → search.turn s = .over found → A found) (hs : P s) :
    A (search.run s) := by
  fun_induction search.run s with
  | case1 s found hturn => exact hover s found hs hturn
  | case2 s t hturn ih => exact ih (hon s t hs hturn)

end Search

end GraphLang
