import GraphLang.Proofs.SlotGraph.Acyclic
import GraphLang.Program.Validation
import Mathlib.Logic.Relation
import Mathlib.Order.Bounds.Basic

/-!
# The free names of a function

The free names of functions are the least solution of a law: a name is free in a function that does
not bind it, if the function uses it or makes a function in which it is free. The search for them
enters every function once, along the first way that leads there, and so finds the names whose
first way is not bound on. Where every function is made in one body there is one way only, and the
search finds all free names.
-/

namespace GraphLang.Program

variable {p : Program} {f g h k : FunctionId} {x : String} {met met' ks way : List FunctionId}

/-! ### What a body says -/

/-- The operations in the body of a function, in the order of the body. -/
def bodyOps (p : Program) (f : FunctionId) : List Op :=
  match (p.function? f).bind (·.body) with
  | none => []
  | some root => (p.subtree root).filterMap p.op?

/-- The name that an operation reads or writes. -/
def usedName? : Op → Option String
  | .var name | .assign name => some name
  | _ => none

/-- The function that an operation makes a closure of. -/
def madeFunction? : Op → Option FunctionId
  | .function g => some g
  | _ => none

/-- The parameters of a function and the names that its body binds. -/
def bindings (p : Program) (f : FunctionId) : List String :=
  ((p.function? f).map (·.params)).getD [] ++ (p.bodyOps f).filterMap boundName?

/-- The body of the function reads or writes the name. -/
def Uses (p : Program) (f : FunctionId) (x : String) : Prop :=
  x ∈ (p.bodyOps f).filterMap usedName?

/-- The name is a parameter of the function, or its body binds it. -/
def Binds (p : Program) (f : FunctionId) (x : String) : Prop := x ∈ p.bindings f

theorem nestedFunctions_eq (p : Program) (f : FunctionId) :
    p.nestedFunctions f = (p.bodyOps f).filterMap madeFunction? := by
  unfold nestedFunctions bodyOps
  cases (p.function? f).bind (·.body) with
  | none => rfl
  | some root =>
    dsimp only
    rw [List.filterMap_filterMap]
    refine List.filterMap_congr fun n _ => ?_
    cases p.op? n with
    | none => rfl
    | some o => cases o <;> rfl

theorem registered_of_mem_bodyOps {o : Op} (ho : o ∈ p.bodyOps f) :
    f ∈ p.functions.map (·.1) := by
  have hget : ∀ t : FunctionTable, t.get? f ≠ none → f ∈ t.map (·.1) := by
    intro t
    induction t with
    | nil => exact fun ht => absurd rfl ht
    | cons y t ih =>
      intro ht
      rw [FunctionTable.get?] at ht
      by_cases hy : (y.1 == f) = true
      · exact List.mem_map.2 ⟨y, List.mem_cons_self, beq_iff_eq.1 hy⟩
      · rw [if_neg hy] at ht
        exact List.mem_cons_of_mem _ (ih ht)
  refine hget p.functions fun hnone => ?_
  have hfunction : p.function? f = none := hnone
  simp [bodyOps, hfunction] at ho

/-! ### The law -/

/-- A name is free in a function exactly if the function does not bind it, and uses it or makes a
function in which it is free. -/
def FreeLaw (p : Program) (F : FunctionId → Set String) : Prop :=
  ∀ f, F f = {x | (p.Uses f x ∨ ∃ g ∈ p.nestedFunctions f, x ∈ F g) ∧ ¬p.Binds f x}

/-- The name is used in the function, or in one that the function leads to, and bound nowhere on the
way. -/
inductive Free (p : Program) (x : String) : FunctionId → Prop
  /-- The function itself uses the name. -/
  | used {f : FunctionId} : p.Uses f x → ¬p.Binds f x → Free p x f
  /-- The name is free in a function that the function makes. -/
  | inner {f g : FunctionId} : g ∈ p.nestedFunctions f → Free p x g → ¬p.Binds f x → Free p x f

/-- The least family of sets of names that satisfies the law. -/
theorem isLeast_free (p : Program) :
    IsLeast {F | p.FreeLaw F} fun f => {x | p.Free x f} := by
  refine ⟨fun f => Set.ext fun x => ⟨fun hx => ?_, ?_⟩, fun F hF f x hx => ?_⟩
  · cases hx with
    | used hused hbound => exact ⟨Or.inl hused, hbound⟩
    | inner hg hfree hbound => exact ⟨Or.inr ⟨_, hg, hfree⟩, hbound⟩
  · rintro ⟨hused | ⟨g, hg, hfree⟩, hbound⟩
    · exact .used hused hbound
    · exact .inner hg hfree hbound
  · have hx : p.Free x f := hx
    induction hx with
    | used hused hbound =>
      rw [hF]
      exact ⟨Or.inl hused, hbound⟩
    | inner hg hfree hbound ih =>
      rw [hF]
      exact ⟨Or.inr ⟨_, hg, ih hfree⟩, hbound⟩

/-! ### First ways -/

/-- Function nodes lead from the second function to the first one, past the functions met. -/
inductive Reaches (p : Program) (h : FunctionId) (met : List FunctionId) : FunctionId → Prop
  /-- The function has not been met. -/
  | here : h ∉ met → Reaches p h met h
  /-- The function makes one that leads on. -/
  | onward {k g : FunctionId} : k ∉ met → g ∈ p.nestedFunctions k → Reaches p h met g → Reaches p h met k

/-- The way to a function that starts with the first candidate that leads there past the functions
met, and goes on with the functions that this candidate makes. -/
inductive FirstWay (p : Program) (h : FunctionId) :
    List FunctionId → List FunctionId → List FunctionId → Prop
  /-- The candidate is the function. -/
  | here {met ks : List FunctionId} : h ∉ met → FirstWay p h met (h :: ks) [h]
  /-- The candidate does not lead there. -/
  | skip {k : FunctionId} {met ks way : List FunctionId} : ¬p.Reaches h met k →
      FirstWay p h met ks way → FirstWay p h met (k :: ks) way
  /-- The candidate leads there through a function that it makes. -/
  | onward {k : FunctionId} {met ks way : List FunctionId} : k ∉ met → k ≠ h →
      FirstWay p h (k :: met) (p.nestedFunctions k) way → FirstWay p h met (k :: ks) (k :: way)

/-- There is a first way to a function that uses the name, and no function on it binds the name. -/
def Found (p : Program) (met ks : List FunctionId) (x : String) : Prop :=
  ∃ h way, p.FirstWay h met ks way ∧ p.Uses h x ∧ ∀ k ∈ way, ¬p.Binds k x

theorem Reaches.notMem (hr : p.Reaches h met k) : h ∉ met := by
  induction hr with
  | here hh => exact hh
  | onward _ _ _ ih => exact ih

theorem Reaches.start (hr : p.Reaches h met k) : k ∉ met := by
  cases hr with
  | here hh => exact hh
  | onward hk _ _ => exact hk

theorem Reaches.trans (hk : p.Reaches k met f) (hr : p.Reaches h met k) : p.Reaches h met f := by
  induction hk with
  | here _ => exact hr
  | onward hnew hg _ ih => exact .onward hnew hg ih

theorem Reaches.mono (hsub : met' ⊆ met) (hr : p.Reaches h met k) : p.Reaches h met' k := by
  induction hr with
  | here hh => exact .here fun hmem => hh (hsub hmem)
  | onward hk hg _ ih => exact .onward (fun hmem => hk (hsub hmem)) hg ih

/-- What leads there does so past a function, or that function leads there without coming back. -/
theorem Reaches.avoid (f : FunctionId) (hr : p.Reaches h met k) :
    p.Reaches h (f :: met) k ∨ f = h ∨ ∃ g ∈ p.nestedFunctions f, p.Reaches h (f :: met) g := by
  induction hr with
  | here hh =>
    by_cases hf : f = h
    · exact Or.inr (Or.inl hf)
    · exact Or.inl (.here (by simp [Ne.symm hf, hh]))
  | @onward k g hk hg _ ih =>
    rcases ih with hpast | hcome
    · by_cases hf : f = k
      · exact Or.inr (Or.inr ⟨g, hf ▸ hg, hpast⟩)
      · exact Or.inl (.onward (by simp [Ne.symm hf, hk]) hg hpast)
    · exact Or.inr hcome

/-- A function leads to itself and to what the functions that it makes lead to past it. -/
theorem reaches_iff (hf : f ∉ met) : p.Reaches h met f ↔
    h = f ∨ ∃ g ∈ p.nestedFunctions f, p.Reaches h (f :: met) g := by
  constructor
  · intro hr
    rcases hr.avoid f with hpast | rfl | hcome
    · exact absurd List.mem_cons_self hpast.start
    · exact Or.inl rfl
    · exact Or.inr hcome
  · rintro (rfl | ⟨g, hg, hr⟩)
    · exact .here hf
    · exact .onward hf hg (hr.mono (List.subset_cons_self _ _))

theorem FirstWay.reaches (hw : p.FirstWay h met ks way) : ∃ k ∈ ks, p.Reaches h met k := by
  induction hw with
  | here hh => exact ⟨h, List.mem_cons_self, .here hh⟩
  | skip _ _ ih =>
    obtain ⟨k, hk, hr⟩ := ih
    exact ⟨k, List.mem_cons_of_mem _ hk, hr⟩
  | @onward k met ks way hk _ _ ih =>
    exact ⟨k, List.mem_cons_self, (reaches_iff hk).2 (Or.inr ih)⟩

theorem FirstWay.notMem (hw : p.FirstWay h met ks way) : h ∉ met := by
  obtain ⟨k, -, hr⟩ := hw.reaches
  exact hr.notMem

/-- The first way starts with a candidate that has not been met. -/
theorem FirstWay.head (hw : p.FirstWay h met ks way) : ∃ k ∈ ks, k ∈ way ∧ k ∉ met := by
  induction hw with
  | here hh => exact ⟨h, List.mem_cons_self, List.mem_cons_self, hh⟩
  | skip _ _ ih =>
    obtain ⟨k, hk, hrest⟩ := ih
    exact ⟨k, List.mem_cons_of_mem _ hk, hrest⟩
  | @onward k met ks way hk _ _ _ =>
    exact ⟨k, List.mem_cons_self, List.mem_cons_self, hk⟩

/-! ### Functions that were visited -/

/-- It makes no difference to ways to the function which of the two lists was met. -/
def Alike (p : Program) (h : FunctionId) (met met' : List FunctionId) : Prop :=
  ∀ k, p.Reaches h met k ↔ p.Reaches h met' k

theorem Alike.symm (ha : p.Alike h met met') : p.Alike h met' met := fun k => (ha k).symm

theorem Alike.reaches_cons (ha : p.Alike h met met') (hr : p.Reaches h (f :: met) k) :
    p.Reaches h (f :: met') k := by
  have hnew : ∀ {k}, p.Reaches h (f :: met) k → k ∉ f :: met' := by
    intro k hk hmem
    rcases List.mem_cons.1 hmem with rfl | hmem
    · exact hk.start List.mem_cons_self
    · exact ((ha k).1 (hk.mono (List.subset_cons_self _ _))).start hmem
  induction hr with
  | here hh => exact .here (hnew (.here hh))
  | onward hk hg hr ih => exact .onward (hnew (.onward hk hg hr)) hg ih

theorem Alike.cons (ha : p.Alike h met met') (f : FunctionId) :
    p.Alike h (f :: met) (f :: met') := fun _ => ⟨ha.reaches_cons, ha.symm.reaches_cons⟩

theorem FirstWay.alike (hw : p.FirstWay h met ks way) (ha : p.Alike h met met') :
    p.FirstWay h met' ks way := by
  induction hw generalizing met' with
  | here hh => exact .here ((ha h).1 (.here hh)).start
  | skip hk _ ih => exact .skip (fun hr => hk ((ha _).2 hr)) (ih ha)
  | @onward k met ks way hk hne hw ih =>
    have hr : p.Reaches h met k := (reaches_iff hk).2 (Or.inr hw.reaches)
    exact .onward ((ha k).1 hr).start hne (ih (ha.cons k))

/-- Once all that a function leads to was visited too, what is left is reached as before. -/
theorem alike_of_visited (hv : ∀ k, k ∈ met' ↔ k ∈ met ∨ p.Reaches k met g) (hh : h ∉ met') :
    p.Alike h met met' := by
  refine fun k => ⟨fun hr => ?_, fun hr => hr.mono fun k hk => (hv k).2 (Or.inl hk)⟩
  have hnew : ∀ {k}, p.Reaches h met k → k ∉ met' := fun hr hmem =>
    ((hv _).1 hmem).elim hr.start fun hg => hh ((hv h).2 (Or.inr (hg.trans hr)))
  induction hr with
  | here _ => exact .here hh
  | onward hk hg hr ih => exact .onward (hnew (.onward hk hg hr)) hg ih

/-- The first way starts with the first candidate, if that leads there. -/
theorem firstWay_cons : p.FirstWay h met (k :: ks) way ↔
    p.FirstWay h met [k] way ∨ ¬p.Reaches h met k ∧ p.FirstWay h met ks way := by
  constructor
  · intro hw
    cases hw with
    | here hh => exact Or.inl (.here hh)
    | skip hk hw => exact Or.inr ⟨hk, hw⟩
    | onward hk hne hw => exact Or.inl (.onward hk hne hw)
  · rintro (hw | ⟨hk, hw⟩)
    · cases hw with
      | here hh => exact .here hh
      | skip _ hw => cases hw
      | onward hk hne hw => exact .onward hk hne hw
    · exact .skip hk hw

/-- A search among candidates searches from the first, and then from the others past all that was
visited. -/
theorem found_cons (hv : ∀ k, k ∈ met' ↔ k ∈ met ∨ p.Reaches k met g) :
    p.Found met (g :: ks) x ↔ p.Found met [g] x ∨ p.Found met' ks x := by
  have hrest : ∀ h way, p.FirstWay h met' ks way ↔
      ¬p.Reaches h met g ∧ p.FirstWay h met ks way := by
    refine fun h way => ⟨fun hw => ?_, fun ⟨hr, hw⟩ => ?_⟩
    · exact ⟨fun hr => hw.notMem ((hv h).2 (Or.inr hr)),
        hw.alike (alike_of_visited hv hw.notMem).symm⟩
    · exact hw.alike (alike_of_visited hv fun hmem => ((hv h).1 hmem).elim hw.notMem hr)
  constructor
  · rintro ⟨h, way, hw, hrest'⟩
    rcases firstWay_cons.1 hw with hw | hw
    · exact Or.inl ⟨h, way, hw, hrest'⟩
    · exact Or.inr ⟨h, way, (hrest h way).2 hw, hrest'⟩
  · rintro (⟨h, way, hw, hrest'⟩ | ⟨h, way, hw, hrest'⟩)
    · exact ⟨h, way, firstWay_cons.2 (Or.inl hw), hrest'⟩
    · exact ⟨h, way, firstWay_cons.2 (Or.inr ((hrest h way).1 hw)), hrest'⟩

/-- From a function that has not been visited, the search goes on with the functions it makes. -/
theorem found_singleton (hf : f ∉ met) : p.Found met [f] x ↔
    (p.Uses f x ∨ p.Found (f :: met) (p.nestedFunctions f) x) ∧ ¬p.Binds f x := by
  constructor
  · rintro ⟨h, way, hw, hused, hbound⟩
    cases hw with
    | here _ => exact ⟨Or.inl hused, hbound _ List.mem_cons_self⟩
    | skip _ hw => cases hw
    | onward _ _ hw =>
      exact ⟨Or.inr ⟨h, _, hw, hused, fun k hk => hbound k (List.mem_cons_of_mem _ hk)⟩,
        hbound _ List.mem_cons_self⟩
  · rintro ⟨hused | ⟨h, way, hw, hused, hbound⟩, hf'⟩
    · exact ⟨f, [f], .here hf, hused, by simpa using hf'⟩
    · refine ⟨h, f :: way, .onward hf ?_ hw, hused, by simpa using ⟨hf', hbound⟩⟩
      rintro rfl
      exact hw.notMem List.mem_cons_self

/-! ### The search -/

theorem mem_addFree {bound free : List String} {y : String} :
    x ∈ addFree bound free y ↔ x ∈ free ∨ x = y ∧ x ∉ bound := by
  unfold addFree
  by_cases hy : (bound.contains y || free.contains y) = true
  · rw [if_pos hy]
    simp only [Bool.or_eq_true, List.contains_iff_mem] at hy
    refine ⟨Or.inl, ?_⟩
    rintro (hx | ⟨rfl, hx⟩)
    · exact hx
    · exact hy.resolve_left hx
  · rw [if_neg hy]
    simp only [Bool.or_eq_true, List.contains_iff_mem, not_or] at hy
    rw [List.mem_append, List.mem_singleton]
    refine or_congr_right ⟨fun hx => ⟨hx, hx ▸ hy.1⟩, And.left⟩

theorem mem_foldl_addFree {bound free names : List String} :
    x ∈ names.foldl (addFree bound) free ↔ x ∈ free ∨ x ∈ names ∧ x ∉ bound := by
  induction names generalizing free with
  | nil => simp
  | cons y names ih =>
    rw [List.foldl_cons, ih, mem_addFree, List.mem_cons]
    tauto

theorem nodup_addFree {bound free : List String} (hfree : free.Nodup) (y : String) :
    (addFree bound free y).Nodup := by
  unfold addFree
  split
  · exact hfree
  · next hy =>
    simp only [Bool.or_eq_true, List.contains_iff_mem, not_or] at hy
    exact (List.perm_append_singleton y free).nodup_iff.2 (List.nodup_cons.2 ⟨hy.2, hfree⟩)

theorem nodup_foldl_addFree {bound free names : List String} (hfree : free.Nodup) :
    (names.foldl (addFree bound) free).Nodup := by
  induction names generalizing free with
  | nil => exact hfree
  | cons y names ih => exact ih (nodup_addFree hfree y)

/-- How an operation adds to the names found and to the functions visited. -/
def freeStep (p : Program) (fuel : Nat) (bound : List String)
    (acc : List String × List FunctionId) (o : Op) : List String × List FunctionId :=
  match o with
  | .var name | .assign name => (addFree bound acc.1 name, acc.2)
  | .function g =>
    ((p.freeFrom fuel g acc.2).1.foldl (addFree bound) acc.1, (p.freeFrom fuel g acc.2).2)
  | _ => acc

theorem freeFrom_visited {fuel : Nat} (hf : f ∈ met) : p.freeFrom fuel f met = ([], met) := by
  cases fuel with
  | zero => rfl
  | succ fuel => rw [freeFrom, if_pos (List.contains_iff_mem.2 hf)]

theorem freeFrom_new {fuel : Nat} (hf : f ∉ met) : p.freeFrom (fuel + 1) f met =
    (p.bodyOps f).foldl (p.freeStep fuel (p.bindings f)) ([], f :: met) := by
  rw [freeFrom, if_neg (by simpa using hf)]
  cases hd : p.function? f with
  | none => simp [bodyOps, hd]
  | some d =>
    cases hbody : d.body with
    | none => simp [bodyOps, hd, hbody]
    | some root =>
      have hops : p.bodyOps f = (p.subtree root).filterMap p.op? := by simp [bodyOps, hd, hbody]
      have hbound : p.bindings f =
          d.params ++ ((p.subtree root).filterMap p.op?).filterMap boundName? := by
        simp [bindings, hops, hd]
      rw [hops, hbound]
      simp only [hbody]
      congr 1

/-- How many functions have not been visited. -/
def unvisited (p : Program) (met : List FunctionId) : Nat :=
  ((p.functions.map (·.1)).filter fun f => !met.contains f).length

theorem unvisited_mono (hsub : met ⊆ met') : p.unvisited met' ≤ p.unvisited met := by
  refine List.Sublist.length_le (List.monotone_filter_right _ fun f hf => ?_)
  simp only [Bool.not_eq_true', List.contains_eq_mem, decide_eq_false_iff_not] at hf ⊢
  exact fun hmem => hf (hsub hmem)

/-- Every new function pays for one unit of fuel. -/
theorem unvisited_cons_lt (hf : f ∈ p.functions.map (·.1)) (hnew : f ∉ met) :
    p.unvisited (f :: met) < p.unvisited met := by
  have hfilter : ((p.functions.map (·.1)).filter fun k => !(f :: met).contains k) =
      ((p.functions.map (·.1)).filter fun k => !met.contains k).filter fun k => !(k == f) := by
    rw [List.filter_filter]
    refine List.filter_congr fun k _ => ?_
    rw [List.contains_cons, Bool.not_or]
  rw [unvisited, hfilter, unvisited, List.length_filter_lt_length_iff_exists]
  exact ⟨f, List.mem_filter.2 ⟨hf, by simpa using hnew⟩, by simp⟩

/-- The search visits what the candidates lead to past the functions met, and adds the names found
there. -/
structure Searches (p : Program) (met ks : List FunctionId) (bound free used : List String)
    (r : List String × List FunctionId) : Prop where
  visited : ∀ h, h ∈ r.2 ↔ h ∈ met ∨ ∃ k ∈ ks, p.Reaches h met k
  names : ∀ x, x ∈ r.1 ↔ x ∈ free ∨ (x ∈ used ∨ p.Found met ks x) ∧ x ∉ bound

/-- One operation after the other: a function that an operation makes is searched past all that was
visited for the operations before. -/
theorem searches_foldl {fuel : Nat} (bound : List String)
    (ih : ∀ g met, p.unvisited met < fuel → p.Searches met [g] [] [] [] (p.freeFrom fuel g met))
    (ops : List Op) (free : List String) (met : List FunctionId)
    (hfuel : ∀ o ∈ ops, p.unvisited met < fuel) :
    p.Searches met (ops.filterMap madeFunction?) bound free (ops.filterMap usedName?)
      (ops.foldl (p.freeStep fuel bound) (free, met)) := by
  induction ops generalizing free met with
  | nil =>
    refine ⟨fun h => by simp, fun x => ?_⟩
    have hnone : ¬p.Found met [] x := fun ⟨_, _, hw, _⟩ => nomatch hw
    simp [hnone]
  | cons o ops ihops =>
    have hlt : p.unvisited met < fuel := hfuel o List.mem_cons_self
    rw [List.foldl_cons]
    have huse : ∀ name, usedName? o = some name → madeFunction? o = none →
        p.freeStep fuel bound (free, met) o = (addFree bound free name, met) →
        p.Searches met ((o :: ops).filterMap madeFunction?) bound free
          ((o :: ops).filterMap usedName?)
          (ops.foldl (p.freeStep fuel bound) (p.freeStep fuel bound (free, met) o)) := by
      intro name hname hmade hstep
      rw [hstep, List.filterMap_cons_none hmade, List.filterMap_cons_some hname]
      have hrest := ihops (addFree bound free name) met fun _ _ => hlt
      refine ⟨hrest.visited, fun x => ?_⟩
      rw [hrest.names, mem_addFree, List.mem_cons]
      tauto
    cases o with
    | var name => exact huse name rfl rfl rfl
    | assign name => exact huse name rfl rfl rfl
    | function g =>
      obtain ⟨hvisited, hnames⟩ := ih g met hlt
      have hv : ∀ k, k ∈ (p.freeFrom fuel g met).2 ↔ k ∈ met ∨ p.Reaches k met g := by
        simpa using hvisited
      have hmade : (Op.function g :: ops).filterMap madeFunction? =
        g :: ops.filterMap madeFunction? := rfl
      have hused : (Op.function g :: ops).filterMap usedName? = ops.filterMap usedName? := rfl
      have hsub : met ⊆ (p.freeFrom fuel g met).2 := fun k hk => (hv k).2 (Or.inl hk)
      have hrest := ihops ((p.freeFrom fuel g met).1.foldl (addFree bound) free)
        (p.freeFrom fuel g met).2 fun _ _ => (unvisited_mono hsub).trans_lt hlt
      refine ⟨fun h => ?_, fun x => ?_⟩
      · refine (hrest.visited h).trans ?_
        rw [hmade, hv, List.exists_mem_cons_iff, or_assoc]
        by_cases hmem : h ∈ (p.freeFrom fuel g met).2
        · rcases (hv h).1 hmem with hmem | hmem <;> simp [hmem]
        · have ha := alike_of_visited hv hmem
          simp only [ha _]
      · refine (hrest.names x).trans ?_
        rw [hmade, hused, found_cons hv, mem_foldl_addFree, hnames]
        simp only [List.not_mem_nil, false_or, not_false_eq_true, and_true]
        tauto
    | _ => exact ihops free met fun _ _ => hlt

/-- With fuel for the functions not visited yet, the search is complete. -/
theorem searches_freeFrom {fuel : Nat} (f : FunctionId) (met : List FunctionId)
    (hfuel : p.unvisited met < fuel) : p.Searches met [f] [] [] [] (p.freeFrom fuel f met) := by
  induction fuel generalizing f met with
  | zero => omega
  | succ fuel ih =>
    by_cases hf : f ∈ met
    · rw [freeFrom_visited hf]
      refine ⟨fun h => ?_, fun x => ?_⟩
      · have hno : ¬p.Reaches h met f := fun hr => hr.start hf
        simp [hno]
      · have hno : ¬p.Found met [f] x := by
          rintro ⟨h, way, hw, -⟩
          obtain ⟨k, hk, -, hnew⟩ := hw.head
          exact hnew (List.mem_singleton.1 hk ▸ hf)
        simp [hno]
    · rw [freeFrom_new hf]
      have hsearch := searches_foldl (p.bindings f) ih (p.bodyOps f) [] (f :: met)
        fun o ho => by
          have := unvisited_cons_lt (registered_of_mem_bodyOps ho) hf
          omega
      rw [← nestedFunctions_eq] at hsearch
      refine ⟨fun h => ?_, fun x => ?_⟩
      · rw [hsearch.visited, List.mem_cons]
        simp only [List.mem_singleton, exists_eq_left, reaches_iff hf]
        tauto
      · rw [hsearch.names, found_singleton hf]
        simp [Uses, Binds]

theorem mem_freeVariables : x ∈ p.freeVariables f ↔ p.Found [] [f] x := by
  have hfuel : p.unvisited [] < p.functions.length + 2 := by
    have hle : p.unvisited [] ≤ (p.functions.map (·.1)).length := List.length_filter_le _ _
    rw [List.length_map] at hle
    omega
  rw [freeVariables, (searches_freeFrom f [] hfuel).names]
  simp

theorem nodup_freeFrom (p : Program) (fuel : Nat) (f : FunctionId) (met : List FunctionId) :
    (p.freeFrom fuel f met).1.Nodup := by
  cases fuel with
  | zero => exact List.nodup_nil
  | succ fuel =>
    by_cases hf : f ∈ met
    · rw [freeFrom_visited hf]
      exact List.nodup_nil
    · rw [freeFrom_new hf]
      have hfold : ∀ (ops : List Op) (acc : List String × List FunctionId), acc.1.Nodup →
          (ops.foldl (p.freeStep fuel (p.bindings f)) acc).1.Nodup := by
        intro ops
        induction ops with
        | nil => exact fun _ hacc => hacc
        | cons o ops ih =>
          intro acc hacc
          refine ih _ ?_
          unfold freeStep
          split
          · exact nodup_addFree hacc _
          · exact nodup_addFree hacc _
          · exact nodup_foldl_addFree hacc
          · exact hacc
      exact hfold _ _ List.nodup_nil

/-! ### Ways and free names -/

/-- What the search finds is free. -/
theorem Found.free (hfound : p.Found met ks x) : ∃ k ∈ ks, p.Free x k := by
  obtain ⟨h, way, hw, hused, hbound⟩ := hfound
  induction hw with
  | here _ => exact ⟨h, List.mem_cons_self, .used hused (hbound h List.mem_cons_self)⟩
  | skip _ _ ih =>
    obtain ⟨k, hk, hfree⟩ := ih hbound
    exact ⟨k, List.mem_cons_of_mem _ hk, hfree⟩
  | @onward k met ks way _ _ _ ih =>
    obtain ⟨g, hg, hfree⟩ := ih fun k hk => hbound k (List.mem_cons_of_mem _ hk)
    exact ⟨k, List.mem_cons_self, .inner hg hfree (hbound k List.mem_cons_self)⟩

/-- There is a first way to whatever a candidate leads to. -/
theorem exists_firstWay (hr : ∃ k ∈ ks, p.Reaches h met k) : ∃ way, p.FirstWay h met ks way := by
  induction hfuel : p.unvisited met using Nat.strong_induction_on generalizing met ks with
  | _ fuel ih =>
    subst hfuel
    induction ks with
    | nil => simp at hr
    | cons k ks ihks =>
      by_cases hk : p.Reaches h met k
      · by_cases hkh : k = h
        · subst hkh
          exact ⟨[k], .here hk.start⟩
        · have hgo := ((reaches_iff hk.start).1 hk).resolve_left (Ne.symm hkh)
          have hlt : p.unvisited (k :: met) < p.unvisited met := by
            obtain ⟨g, hg, -⟩ := hgo
            rw [nestedFunctions_eq] at hg
            obtain ⟨o, ho, -⟩ := List.mem_filterMap.1 hg
            exact unvisited_cons_lt (registered_of_mem_bodyOps ho) hk.start
          obtain ⟨way, hw⟩ := ih _ hlt hgo rfl
          exact ⟨k :: way, .onward hk.start hkh hw⟩
      · have hrest : ∃ k ∈ ks, p.Reaches h met k := by
          obtain ⟨k', hk', hr'⟩ := hr
          rcases List.mem_cons.1 hk' with rfl | hk'
          · exact absurd hr' hk
          · exact ⟨k', hk', hr'⟩
        obtain ⟨way, hw⟩ := ihks hrest
        exact ⟨way, .skip hk hw⟩

/-- Function nodes lead from the first function to the second one. -/
def Leads (p : Program) (f k : FunctionId) : Prop :=
  Relation.ReflTransGen (fun a b => b ∈ p.nestedFunctions a) f k

/-- Function nodes lead from the first function to the second one, past functions that bind the
name. -/
def LeadsUnbound (p : Program) (x : String) (f k : FunctionId) : Prop :=
  Relation.ReflTransGen (fun a b => b ∈ p.nestedFunctions a ∧ ¬p.Binds b x) f k

/-- Of the functions that the function leads to, no two make the same one. -/
def MadeOnce (p : Program) (f : FunctionId) : Prop :=
  ∀ a b g, p.Leads f a → p.Leads f b → g ∈ p.nestedFunctions a → g ∈ p.nestedFunctions b → a = b

theorem LeadsUnbound.leads (hl : p.LeadsUnbound x f k) : p.Leads f k :=
  Relation.ReflTransGen.mono (fun _ _ hstep => hstep.1) f k hl

theorem LeadsUnbound.not_binds (hf : ¬p.Binds f x) (hl : p.LeadsUnbound x f k) : ¬p.Binds k x := by
  rcases Relation.ReflTransGen.cases_tail hl with rfl | ⟨b, -, -, hk⟩
  · exact hf
  · exact hk

theorem Leads.reaches (hl : p.Leads f h) : p.Reaches h [] f := by
  induction hl using Relation.ReflTransGen.head_induction_on with
  | refl => exact .here List.not_mem_nil
  | head hg _ ih => exact .onward List.not_mem_nil hg ih

theorem Free.leadsUnbound (hfree : p.Free x f) :
    ¬p.Binds f x ∧ ∃ h, p.Uses h x ∧ p.LeadsUnbound x f h := by
  induction hfree with
  | @used f hused hbound => exact ⟨hbound, f, hused, .refl⟩
  | inner hg _ hbound ih =>
    obtain ⟨hg', h, hused, hl⟩ := ih
    exact ⟨hbound, h, hused, .head ⟨hg, hg'⟩ hl⟩

/-- Where no function is made twice, whatever leads to a function leads there along the first way:
seen from the end, there is no other function to come from. -/
theorem FirstWay.unbound (honce : p.MadeOnce f) (hf : ¬p.Binds f x)
    (hw : p.FirstWay h met ks way) (hmet : f ∈ met) (hk : p.Leads f k)
    (hks : ks ⊆ p.nestedFunctions k) (hl : p.LeadsUnbound x f h) :
    (∀ g ∈ way, ¬p.Binds g x) ∧ ∃ g ∈ ks, g ∉ met ∧ p.LeadsUnbound x f g := by
  induction hw generalizing k with
  | here hh =>
    exact ⟨by simpa using hl.not_binds hf, h, List.mem_cons_self, hh, hl⟩
  | skip _ _ ih =>
    obtain ⟨hway, g, hg, hrest⟩ := ih hmet hk fun g hg => hks (List.mem_cons_of_mem _ hg)
    exact ⟨hway, g, List.mem_cons_of_mem _ hg, hrest⟩
  | @onward c met ks way hc _ _ ih =>
    have hlc : p.Leads f c := hk.tail (hks List.mem_cons_self)
    obtain ⟨hway, g, hg, hnew, hlg⟩ := ih (List.mem_cons_of_mem _ hmet) hlc (List.Subset.refl _)
    have hc' : p.LeadsUnbound x f c := by
      rcases Relation.ReflTransGen.cases_tail hlg with rfl | ⟨b, hb, hgb, -⟩
      · exact absurd (List.mem_cons_of_mem _ hmet) hnew
      · exact honce b c g (LeadsUnbound.leads hb) hlc hgb hg ▸ hb
    refine ⟨?_, c, List.mem_cons_self, hc, hc'⟩
    simpa using ⟨hc'.not_binds hf, hway⟩

theorem MadeOnce.found (honce : p.MadeOnce f) (hfree : p.Free x f) : p.Found [] [f] x := by
  obtain ⟨hf, h, hused, hl⟩ := hfree.leadsUnbound
  obtain ⟨way, hw⟩ := exists_firstWay ⟨f, List.mem_singleton_self f, hl.leads.reaches⟩
  refine ⟨h, way, hw, hused, ?_⟩
  cases hw with
  | here _ => simpa using hf
  | skip _ hw => cases hw
  | onward _ _ hw =>
    have hway := (hw.unbound honce hf List.mem_cons_self .refl (List.Subset.refl _) hl).1
    simpa using ⟨hf, hway⟩

/-- The captured names of a function, none twice, are the ones that some function on whose first way
no function binds them uses. All of them are in the least solution of the law, and where no function
is made twice they are all of it; then names captured by a function that is made here, and not bound
here, are captured here too. -/
theorem freeVariables_first_ways (p : Program) (f : FunctionId) :
    (p.freeVariables f).Nodup ∧
      (∀ x, x ∈ p.freeVariables f ↔
        ∃ h way, p.FirstWay h [] [f] way ∧ p.Uses h x ∧ ∀ k ∈ way, ¬p.Binds k x) ∧
      ∃ F, IsLeast {F | p.FreeLaw F} F ∧
        (∀ x ∈ p.freeVariables f, x ∈ F f) ∧
        (p.MadeOnce f → (∀ x, x ∈ p.freeVariables f ↔ x ∈ F f) ∧
          ∀ g ∈ p.nestedFunctions f, ∀ x ∈ p.freeVariables g, ¬p.Binds f x →
            x ∈ p.freeVariables f) := by
  have hsub : ∀ g, ∀ x ∈ p.freeVariables g, p.Free x g := by
    intro g x hx
    obtain ⟨k, hk, hfree⟩ := (mem_freeVariables.1 hx).free
    exact List.mem_singleton.1 hk ▸ hfree
  refine ⟨p.nodup_freeFrom _ f [], fun x => mem_freeVariables,
    fun f => {x | p.Free x f}, isLeast_free p, hsub f, fun honce => ?_⟩
  have hall : ∀ x, p.Free x f → x ∈ p.freeVariables f := fun x hfree =>
    mem_freeVariables.2 (honce.found hfree)
  exact ⟨fun x => ⟨hsub f x, hall x⟩, fun g hg x hx hbound =>
    hall x (.inner hg (hsub g x hx) hbound)⟩

/-! ### A function that is made twice -/

/-- The main function makes `f`, and `f` makes `g`, which reads the parameter `x` of `f`. A last
node makes `g` too; it is no part of a body unless further edges attach it. -/
def closures (further : List (Nat × Nat × Role)) : Program :=
  let nodes : List Node := [⟨.var "x", 2, none⟩, ⟨.function 2, 1, none⟩, ⟨.block, 1, none⟩,
    ⟨.function 1, 0, none⟩, ⟨.leave, 0, none⟩, ⟨.block, 0, none⟩, ⟨.function 2, 0, none⟩]
  let edges : List (Nat × Nat × Role) :=
    [(2, 1, .statement 0), (4, 3, .value), (5, 4, .statement 0)] ++ further
  ⟨"closures", edges.foldl (fun g e => (g.addEdge e.1 e.2.1 e.2.2).2)
      (nodes.foldl (fun g a => (g.addNode a).2) .empty),
    [(0, ⟨0, mainName, [], some 5, none⟩), (1, ⟨1, "f", ["x"], some 2, some 0⟩),
      (2, ⟨2, "g", [], some 0, some 1⟩)], 3⟩

theorem madeOnce_closures : (closures []).MadeOnce 0 := by
  have hmade : (closures []).nestedFunctions 0 = [1] ∧ (closures []).nestedFunctions 1 = [2] ∧
      (closures []).nestedFunctions 2 = [] := ⟨by cbv, by cbv, by cbv⟩
  have hfew : ∀ {k}, (closures []).Leads 0 k → k = 0 ∨ k = 1 ∨ k = 2 := by
    intro k hk
    induction hk with
    | refl => exact Or.inl rfl
    | tail _ hg ih =>
      rcases ih with rfl | rfl | rfl <;> simp [hmade] at hg <;> simp [hg]
  intro a b g ha hb hga hgb
  rcases hfew ha with rfl | rfl | rfl <;> rcases hfew hb with rfl | rfl | rfl <;>
    simp_all

/-- Where `g` is made once, the main function captures what `g` needs and `f` does not bind:
nothing, while `g` captures `x`. -/
theorem closures_made_once : (closures []).validate = .ok [] ∧ (closures []).MadeOnce 0 ∧
    (closures []).freeVariables 2 = ["x"] ∧ ∃ F, IsLeast {F | (closures []).FreeLaw F} F ∧
      F 0 = ∅ := by
  refine ⟨by cbv, madeOnce_closures, by cbv, ?_⟩
  obtain ⟨-, -, F, hleast, -, honce⟩ := freeVariables_first_ways (closures []) 0
  refine ⟨F, hleast, Set.eq_empty_of_forall_notMem fun x hx => ?_⟩
  have hnone : (closures []).freeVariables 0 = [] := by cbv
  have hmem := ((honce madeOnce_closures).1 x).2 hx
  rw [hnone] at hmem
  exact List.not_mem_nil hmem

/-- The main function makes `g` itself, so `x` is free in it. The search comes to `g` through `f`
first, which binds `x`, and does not enter `g` again. -/
theorem closures_name_lost :
    let p := closures [(5, 6, .statement 1)]
    p.validate = .ok [] ∧ (∀ F, IsLeast {F | p.FreeLaw F} F → "x" ∈ F 0) ∧ p.freeVariables 0 = [] ∧
      2 ∈ p.nestedFunctions 0 ∧ "x" ∈ p.freeVariables 2 ∧ ¬p.Binds 0 "x" := by
  intro p
  have hmade : p.nestedFunctions 0 = [1, 2] := by cbv
  have hbound : p.bindings 0 = [] ∧ p.bindings 2 = [] := ⟨by cbv, by cbv⟩
  have hused : (p.bodyOps 2).filterMap usedName? = ["x"] := by cbv
  have hfree : p.Free "x" 2 := .used (by simp [Uses, hused]) (by simp [Binds, hbound])
  have hmain : p.Free "x" 0 := .inner (by simp [hmade]) hfree (by simp [Binds, hbound])
  have hinner : p.freeVariables 2 = ["x"] := by cbv
  refine ⟨by cbv, fun F hF => ?_, by cbv, by simp [hmade], by simp [hinner],
    by simp [Binds, hbound]⟩
  exact hF.unique (isLeast_free p) ▸ hmain

end GraphLang.Program
