import GraphLang.Eval.Node
import GraphLang.Proofs.Store.Copying
import GraphLang.Rule.Engine

/-!
# The functions and natives that values hold

A condition on functions and natives carries over to values, rules, containers and stores: it
holds of everything that can be called from there. Operations on values and containers make no
new function or native, so they keep such a condition.
-/

namespace GraphLang

/-- A sequence that gives a result has a first step that does. -/
theorem Except.bind_eq_ok {ε α β : Type} {x : Except ε α} {f : α → Except ε β} {b : β}
    (h : (x >>= f) = .ok b) : ∃ a, x = .ok a ∧ f a = .ok b := by
  cases x with
  | error e => cases h
  | ok a => exact ⟨a, rfl, h⟩

@[simp] theorem Except.pure_eq_ok {ε α : Type} {a b : α} :
    (pure a : Except ε α) = .ok b ↔ a = b := by
  constructor
  · rintro ⟨⟩
    rfl
  · rintro rfl
    rfl

variable {P Q : Value → Prop}

/-- The condition holds of every function and native in the value. -/
def Value.Holds (P : Value → Prop) : Value → Prop
  | .function f => P (.function f)
  | .native n => P (.native n)
  | .exception _ _ _ payload _ => payload.Holds P
  | _ => True

/-- The condition holds of every function and native in the rule. -/
def Rule.Holds (P : Value → Prop) (r : Rule) : Prop := ∀ v ∈ r.callbacks, v.Holds P

/-- The condition holds of every function and native in the members and rules. -/
structure Container.Holds (P : Value → Prop) (c : Container) : Prop where
  value : ∀ n m, c.graph.node? n = some m → m.value.Holds P
  rule : ∀ r ∈ c.rules, r.Holds P

/-- The condition holds of every function and native in the containers of the store. -/
def Store.Holds (P : Value → Prop) (s : Store) : Prop := ∀ c ∈ s.graphs, c.Holds P

theorem Value.Holds.mono (h : ∀ v, P v → Q v) {v : Value} (hv : v.Holds P) : v.Holds Q := by
  induction v with
  | exception _ _ _ payload _ ih => exact ih hv
  | function f => exact h _ hv
  | native n => exact h _ hv
  | _ => trivial

theorem Rule.Holds.mono (h : ∀ v, P v → Q v) {r : Rule} (hr : r.Holds P) : r.Holds Q :=
  fun v hv => (hr v hv).mono h

theorem Container.Holds.mono (h : ∀ v, P v → Q v) {c : Container} (hc : c.Holds P) :
    c.Holds Q :=
  ⟨fun n m hm => (hc.value n m hm).mono h, fun r hr => (hc.rule r hr).mono h⟩

theorem Store.Holds.mono (h : ∀ v, P v → Q v) {s : Store} (hs : s.Holds P) : s.Holds Q :=
  fun c hc => (hs c hc).mono h

@[simp] theorem Literal.holds_toValue (l : Literal) : l.toValue.Holds P := by
  cases l <;> trivial

@[simp] theorem Key.holds_toValue (k : Key) : k.toValue.Holds P := by
  cases k <;> trivial

/-! ### Containers -/

namespace Container

variable {c : Container}

theorem holds_new (kind : Kind) : (Container.new kind).Holds P where
  value n m hm := by
    have hm' : m = ⟨.nil, none⟩ := by
      cases n with
      | zero => simpa [Container.new, SlotGraph.addNode, SlotGraph.empty, SlotGraph.node?_eq,
          eq_comm] using hm
      | succ n => simp [Container.new, SlotGraph.addNode, SlotGraph.empty, SlotGraph.node?_eq] at hm
    subst hm'
    trivial
  rule r hr := by simp [Container.new] at hr

theorem Holds.value? (h : c.Holds P) {n : Nat} {v : Value} (hv : c.value? n = some v) :
    v.Holds P := by
  obtain ⟨m, hm, rfl⟩ := Option.map_eq_some_iff.1 hv
  exact h.value n m hm

theorem Holds.filterMap_value? (h : c.Holds P) (ns : List Nat) :
    ∀ v ∈ ns.filterMap c.value?, v.Holds P := by
  intro v hv
  obtain ⟨n, -, hn⟩ := List.mem_filterMap.1 hv
  exact h.value? hn

theorem Holds.memberValues (h : c.Holds P) : ∀ v ∈ c.memberValues, v.Holds P :=
  h.filterMap_value? _

theorem Holds.elements (h : c.Holds P) : ∀ v ∈ c.elements, v.Holds P :=
  h.filterMap_value? _

theorem Holds.element? (h : c.Holds P) {i : Nat} {v : Value} (hv : c.element? i = some v) :
    v.Holds P := by
  obtain ⟨n, -, hn⟩ := Option.bind_eq_some_iff.1 hv
  exact h.value? hn

theorem Holds.entry? (h : c.Holds P) {k : Key} {v : Value} (hv : c.entry? k = some v) :
    v.Holds P := by
  obtain ⟨n, -, hn⟩ := Option.bind_eq_some_iff.1 hv
  exact h.value? hn

/-- A node added to a graph is the only new content. -/
theorem node?_addNode_or {α β : Type} {g : SlotGraph α β} {a b : α} {n : Nat}
    (h : (g.addNode a).2.node? n = some b) : b = a ∨ g.node? n = some b := by
  rw [SlotGraph.node?_eq] at h ⊢
  unfold SlotGraph.addNode at h
  split at h
  · rename_i k rest hvacant
    by_cases hn : k = n
    · subst hn
      by_cases hlt : k < g.slots.size
      · simp [hlt] at h
        exact Or.inl h.symm
      · simp [hlt] at h
    · simp [hn] at h
      exact Or.inr h
  · rw [Array.getElem?_push] at h
    split at h
    · exact Or.inl (by simpa [eq_comm] using h)
    · exact Or.inr h

theorem Holds.attach (h : c.Holds P) (label : Label) {v : Value} (hv : v.Holds P) :
    (c.attach label v).2.Holds P where
  value n m hm := by
    simp only [Container.attach, Container.connect, SlotGraph.node?_addEdge] at hm
    rcases node?_addNode_or hm with rfl | hm
    · exact hv
    · exact h.value n m hm
  rule := h.rule

theorem Holds.putValue (h : c.Holds P) (n : Nat) {v : Value} (hv : v.Holds P) :
    (c.putValue n v).Holds P where
  value n' m hm := by
    simp only [Container.putValue, SlotGraph.node?_modifyNode] at hm
    split at hm
    · obtain ⟨m', -, rfl⟩ := Option.map_eq_some_iff.1 hm
      exact hv
    · exact h.value n' m hm
  rule := h.rule

theorem holds_ofElements {vs : List Value} (h : ∀ v ∈ vs, v.Holds P) :
    (Container.ofElements vs).Holds P := by
  suffices hfold : ∀ c : Container, c.Holds P →
      (vs.foldl (fun c v => (c.attach .element v).2) c).Holds P from hfold _ (holds_new .list)
  induction vs with
  | nil => exact fun c hc => hc
  | cons v vs ih =>
    intro c hc
    exact ih (fun u hu => h u (List.mem_cons_of_mem v hu)) _
      (hc.attach .element (h v List.mem_cons_self))

theorem holds_ofEntries {es : List (Key × Value)} (h : ∀ e ∈ es, e.2.Holds P) :
    (Container.ofEntries es).Holds P := by
  unfold Container.ofEntries
  have hnew : (Container.new .map).Holds P := holds_new .map
  generalize Container.new .map = c at hnew
  induction es generalizing c with
  | nil => exact hnew
  | cons e es ih =>
    rw [List.foldl_cons]
    refine ih (fun u hu => h u (List.mem_cons_of_mem e hu)) _ ?_
    obtain ⟨key, value⟩ := e
    have he : value.Holds P := h (key, value) List.mem_cons_self
    dsimp only
    unfold Container.putEntry
    split
    · exact hnew.putValue _ he
    · exact hnew.attach _ he

theorem Holds.removed (h : c.Holds P) (n : Nat) :
    ({ c with graph := c.graph.removeNode n } : Container).Holds P where
  value n' m hm := by
    simp only [SlotGraph.node?_removeNode] at hm
    split at hm
    · cases hm
    · exact h.value n' m hm
  rule := h.rule

theorem Holds.linked (h : c.Holds P) (s t : Nat) (tie : Tie) (seq : Nat) :
    ({ c with graph := (c.graph.addEdge s t tie).2, nextSeq := seq } : Container).Holds P where
  value n' m hm := by
    simp only [SlotGraph.node?_addEdge] at hm
    exact h.value n' m hm
  rule := h.rule

theorem Holds.ruled (h : c.Holds P) {r : Rule} (hr : r.Holds P) :
    ({ c with rules := c.rules ++ [r] } : Container).Holds P where
  value := h.value
  rule r' hr' := by
    rcases List.mem_append.1 hr' with hr' | hr'
    · exact h.rule r' hr'
    · rw [List.mem_singleton.1 hr']
      exact hr

theorem Holds.frozen (h : c.Holds P) (frozen : Bool) :
    ({ c with frozen := frozen } : Container).Holds P :=
  ⟨h.value, h.rule⟩

theorem Holds.setValue (h : c.Holds P) {n : Nat} {v old : Value} {c' : Container}
    (hv : v.Holds P) (hset : c.setValue n v = .ok (old, c')) : old.Holds P ∧ c'.Holds P := by
  obtain ⟨-, -, hset⟩ := Except.bind_eq_ok hset
  cases hm : c.graph.node? n with
  | none => simp [hm] at hset
  | some m =>
    simp only [hm, Except.pure_eq_ok] at hset
    obtain ⟨rfl, rfl⟩ := hset
    exact ⟨h.value n m hm, h.putValue n hv⟩

theorem Holds.addMember (h : c.Holds P) {label : Label} {v : Value} {n : Nat} {c' : Container}
    (hv : v.Holds P) (hadd : c.addMember label v = .ok (n, c')) : c'.Holds P := by
  obtain ⟨-, -, hadd⟩ := Except.bind_eq_ok hadd
  have hattach := h.attach label hv
  rwa [Except.pure_eq_ok.1 hadd] at hattach

theorem Holds.removeNode (h : c.Holds P) {n : Nat} {old : Value} {c' : Container}
    (hremove : c.removeNode n = .ok (old, c')) : old.Holds P ∧ c'.Holds P := by
  obtain ⟨-, -, hremove⟩ := Except.bind_eq_ok hremove
  by_cases hroot : n = root
  · simp [hroot] at hremove
  · cases hm : c.graph.node? n with
    | none => simp [hroot, hm] at hremove
    | some m =>
      simp only [beq_iff_eq, hroot, if_false, hm, Except.pure_eq_ok] at hremove
      obtain ⟨rfl, rfl⟩ := hremove
      exact ⟨h.value n m hm, h.removed n⟩

theorem Holds.addEdge (h : c.Holds P) {s t e : Nat} {label : Label} {data : Option Value}
    {c' : Container} (hadd : c.addEdge s t label data = .ok (e, c')) : c'.Holds P := by
  obtain ⟨-, -, hadd⟩ := Except.bind_eq_ok hadd
  obtain ⟨-, -, hadd⟩ := Except.bind_eq_ok hadd
  obtain ⟨-, -, hadd⟩ := Except.bind_eq_ok hadd
  obtain ⟨-, rfl⟩ := Except.pure_eq_ok.1 hadd
  exact h.linked s t ⟨label, data, c.nextSeq⟩ (c.nextSeq + 1)

/-- The condition holds of the value that a change took out. -/
def Applied.Holds (P : Value → Prop) : Applied → Prop
  | .value v => v.Holds P
  | _ => True

end Container

/-! ### What operations give

Stores, operators, transforms and rule descriptions only pass on the functions and natives that
they were given. So a condition on those of the arguments and the store holds of the results. -/

/-! ### Stores -/

namespace Store

variable {s : Store}

theorem Holds.get (h : s.Holds P) (g : GraphId) : (s.get g).Holds P := by
  unfold Store.get
  cases hg : s.graphs[g]? with
  | none => exact Container.holds_new .list
  | some c => exact h c (Array.mem_of_getElem? hg)

theorem Holds.set (h : s.Holds P) (g : GraphId) {c : Container} (hc : c.Holds P) :
    (s.set g c).Holds P := by
  intro c' hc'
  rcases Array.mem_or_eq_of_mem_setIfInBounds hc' with hc' | rfl
  · exact h c' hc'
  · exact hc

theorem Holds.alloc (h : s.Holds P) {c : Container} (hc : c.Holds P) :
    (s.alloc c).2.Holds P := by
  intro c' hc'
  rcases Array.mem_push.1 hc' with hc' | rfl
  · exact h c' hc'
  · exact hc

theorem Holds.newException (h : s.Holds P) (kind message : String) (payload : Value)
    (path : List CallSite) : (s.newException kind message payload path).2.Holds P := h

theorem holds_renamed {c : Container} (h : c.Holds P) (base : Nat) (sources : List GraphId) :
    (renamed base sources c).Holds P where
  value n m hm := by
    simp only [renamed, SlotGraph.mapNodes, SlotGraph.node?_eq, Array.getElem?_map] at hm
    cases hslot : c.graph.slots[n]? with
    | none => simp [hslot] at hm
    | some slot =>
      simp only [hslot, Option.map_some, Option.bind_some] at hm
      obtain ⟨m', hm', rfl⟩ := Option.map_eq_some_iff.1 hm
      have hvalue := h.value n m' (by simp [SlotGraph.node?_eq, hslot, hm'])
      cases hv : m'.value <;> simp_all [Value.Holds, Member.moved, Value.moved]
  rule := h.rule

/-- A deep copy and the containers it leads to hold what the source and the store hold. -/
theorem Holds.deepCopy (h : s.Holds P) {c : Container} (hc : c.Holds P) :
    (s.deepCopy c).1.Holds P ∧ (s.deepCopy c).2.Holds P := by
  rw [deepCopy_eq]
  refine ⟨holds_renamed hc _ _, fun c' hc' => ?_⟩
  rcases Array.mem_append.1 hc' with hc' | hc'
  · exact h c' hc'
  · obtain ⟨g, -, rfl⟩ := List.mem_map.1 (List.mem_toArray.1 hc')
    exact holds_renamed (h.get g) _ _

end Store

/-! ### Operators -/

namespace Operators

variable {s : Store}

theorem holds_intArith {op : BinaryOp} {a b : Int64} {v : Value}
    (h : intArith op a b = .ok v) : v.Holds P := by
  unfold intArith at h
  cases op <;> simp only at h <;> repeat' split at h
  all_goals cases h
  all_goals trivial

theorem holds_floatArith {op : BinaryOp} {a b : Float} {v : Value}
    (h : floatArith op a b = .ok v) : v.Holds P := by
  unfold floatArith at h
  cases op <;> simp only at h <;> repeat' split at h
  all_goals cases h
  all_goals trivial

/-- The condition holds of a result, if there is one, and of a store. -/
def Gives (P : Value → Prop) (x : Except Fault Value × Store) : Prop :=
  (∀ v, x.1 = .ok v → v.Holds P) ∧ x.2.Holds P

theorem holds_concatenated (h : s.Holds P) {a b : GraphId} {vs : List Value}
    (hvs : concatenated s a b = .ok vs) : ∀ v ∈ vs, v.Holds P := by
  intro v hv
  unfold concatenated at hvs
  split at hvs
  · cases hvs
    rcases List.mem_append.1 hv with hv | hv
    · exact (h.get a).elements v hv
    · exact (h.get b).elements v hv
  · cases hvs

theorem gives_order (h : s.Holds P) (op : BinaryOp) (left right : Value) :
    Gives P ((order s left right).map fun o => match o with
      | some o => Value.bool (ordered op o)
      | none => Value.bool false, s) := by
  refine ⟨fun v hv => ?_, h⟩
  cases horder : order s left right with
  | error e => simp [horder, Except.map] at hv
  | ok o => cases o <;> simp only [horder, Except.map, Except.ok.injEq] at hv <;> subst hv <;> trivial

/-- An operator with two operands gives a scalar or a new list of elements from the store. -/
theorem gives_binary (h : s.Holds P) (op : BinaryOp) (left right : Value) :
    Gives P (binary s op left right) := by
  unfold binary
  split
  · exact ⟨fun v hv => by cases hv; trivial, h⟩
  · exact ⟨fun v hv => by cases hv; trivial, h⟩
  · exact gives_order h .lt left right
  · exact gives_order h .le left right
  · exact gives_order h .gt left right
  · exact gives_order h .ge left right
  · split
    · exact ⟨fun v hv => holds_intArith hv, h⟩
    · exact ⟨fun v hv => by cases hv; trivial, h⟩
    · split
      · rename_i hvalues
        exact ⟨fun v hv => by cases hv; trivial,
          h.alloc (Container.holds_ofElements (holds_concatenated h hvalues))⟩
      · exact ⟨fun v hv => (by cases hv), h⟩
    · split
      · exact ⟨fun v hv => holds_floatArith hv, h⟩
      · exact ⟨fun v hv => (by cases hv), h⟩

theorem holds_unary {op : UnaryOp} {operand v : Value} (h : unary s op operand = .ok v) :
    v.Holds P := by
  unfold unary at h
  repeat' split at h
  all_goals cases h
  all_goals trivial

@[simp] theorem holds_logical (op : LogicalOp) (left right : Value) :
    (logical s op left right).Holds P := by
  cases op <;> trivial

/-- Reading a member gives a value of the store or a text. -/
theorem holds_index (h : s.Holds P) {target position v : Value}
    (hindex : index s target position = .ok v) : v.Holds P := by
  unfold index at hindex
  split at hindex
  · rename_i g
    dsimp only at hindex
    split at hindex
    · obtain ⟨i, -, hindex⟩ := Except.bind_eq_ok hindex
      split at hindex
      · cases hindex
        exact (h.get g).element? ‹_›
      · cases hindex
    · obtain ⟨key, -, hindex⟩ := Except.bind_eq_ok hindex
      split at hindex
      · cases hindex
        exact Container.Holds.entry? (h.get g) ‹_›
      · cases hindex
    · obtain ⟨node, -, hindex⟩ := Except.bind_eq_ok hindex
      split at hindex
      · rename_i u hu
        cases hindex
        split at hu
        · exact (h.get g).value? hu
        · cases hu
      · cases hindex
  · repeat' split at hindex
    all_goals cases hindex
    trivial
  · cases hindex

end Operators

/-! ### Rules -/

/-- Numbers hold no function and no native. -/
theorem Value.holds_of_number {v : Value} {x : Float} (h : v.number? = some x) : v.Holds P := by
  cases v with
  | int | float => trivial
  | _ => cases h

/-- A transform without a callback gives the value, a scalar, what it holds itself or an entry of
its table. -/
theorem Transform.holds_apply {s : Store} (h : s.Holds P) {r : Transform} {value v : Value}
    (hr : ∀ x ∈ r.callbacks, x.Holds P) (hvalue : value.Holds P)
    (happly : r.apply s value = .ok v) : v.Holds P := by
  cases r with
  | coalesce replacement =>
    cases value with
    | nil =>
      cases happly
      exact hr _ List.mem_cons_self
    | _ =>
      cases happly
      exact hvalue
  | lookup table default =>
    simp only [Transform.apply] at happly
    split at happly
    · rename_i g
      split at happly
      · cases happly
        cases hfound : (Key.ofValue? value).bind fun key => Container.entry? (s.get g) key with
        | none => exact hr default (List.mem_cons_of_mem _ List.mem_cons_self)
        | some u =>
          obtain ⟨key, -, hkey⟩ := Option.bind_eq_some_iff.1 hfound
          exact Container.Holds.entry? (h.get g) hkey
      · cases happly
    · cases happly
  | clamp min max =>
    simp only [Transform.apply] at happly
    split at happly
    · rename_i hlow hhigh
      split at happly
      · cases happly
        split
        · exact Value.holds_of_number hlow
        split
        · exact Value.holds_of_number hhigh
        · exact hvalue
      · cases happly
        exact hvalue
    · cases happly
  | _ =>
    simp only [Transform.apply] at happly
    repeat' split at happly
    all_goals cases happly
    all_goals exact hvalue

namespace RuleSpec

theorem holds_next {args rest : List Value} {v : Value} (hargs : ∀ v ∈ args, v.Holds P)
    (h : next args = .ok (v, rest)) : v.Holds P ∧ ∀ v ∈ rest, v.Holds P := by
  cases args with
  | nil => cases h
  | cons a args =>
    cases h
    exact ⟨hargs v List.mem_cons_self, fun u hu => hargs u (List.mem_cons_of_mem v hu)⟩

/-- The condition holds of every function and native that a transform holds. -/
theorem holds_toTransform {spec : RuleSpec} {args rest : List Value} {r : Transform}
    (hargs : ∀ v ∈ args, v.Holds P) (h : spec.toTransform args = .ok (r, rest)) :
    (∀ v ∈ r.callbacks, v.Holds P) ∧ ∀ v ∈ rest, v.Holds P := by
  cases args with
  | nil => cases spec <;> cases h <;> simp [Transform.callbacks]
  | cons a args =>
    cases spec <;> cases h <;> simp_all [Transform.callbacks]

/-- A rule holds what its arguments hold. -/
theorem holds_instantiate {spec : RuleSpec} {args : List Value} {r : Rule}
    (hargs : ∀ v ∈ args, v.Holds P) (h : spec.instantiate args = .ok r) : r.Holds P := by
  unfold instantiate at h
  by_cases hcount : (args.length != spec.argCount) = true
  · rw [if_pos hcount] at h
    cases h
  rw [if_neg hcount] at h
  cases spec with
  | predicate name =>
    obtain ⟨⟨callee, rest⟩, hnext, h⟩ := Except.bind_eq_ok h
    cases h
    intro v hv
    rw [List.mem_singleton.1 hv]
    exact (holds_next hargs hnext).1
  | conditional t =>
    obtain ⟨⟨test, rest⟩, hnext, h⟩ := Except.bind_eq_ok h
    obtain ⟨⟨whenTrue, rest'⟩, ht, h⟩ := Except.bind_eq_ok h
    cases h
    obtain ⟨htest, hrest⟩ := holds_next hargs hnext
    intro v hv
    rcases List.mem_cons.1 hv with rfl | hv
    · exact htest
    · exact (holds_toTransform hrest ht).1 v (by simpa using hv)
  | conditionalElse t f =>
    obtain ⟨⟨test, rest⟩, hnext, h⟩ := Except.bind_eq_ok h
    obtain ⟨⟨whenTrue, rest'⟩, ht, h⟩ := Except.bind_eq_ok h
    obtain ⟨⟨whenFalse, rest''⟩, hf, h⟩ := Except.bind_eq_ok h
    cases h
    obtain ⟨htest, hrest⟩ := holds_next hargs hnext
    obtain ⟨htrue, hrest'⟩ := holds_toTransform hrest ht
    intro v hv
    rcases List.mem_cons.1 hv with rfl | hv
    · exact htest
    · rcases List.mem_append.1 hv with hv | hv
      · exact htrue v hv
      · exact (holds_toTransform hrest' hf).1 v hv
  | maxSize | acyclic | singleRoot | homogeneous | rejectMixedFreeze | copyElements =>
    cases h
    intro v hv
    cases hv
  | _ =>
    obtain ⟨⟨t, rest⟩, ht, h⟩ := Except.bind_eq_ok h
    cases h
    exact (holds_toTransform hargs ht).1

theorem holds_instantiateAll {specs : List RuleSpec} {args : List Value} {rs : List Rule}
    (hargs : ∀ v ∈ args, v.Holds P) (h : instantiateAll specs args = .ok rs) :
    ∀ r ∈ rs, r.Holds P := by
  induction specs generalizing args rs with
  | nil =>
    cases h
    simp
  | cons spec specs ih =>
    obtain ⟨r, hr, h⟩ := Except.bind_eq_ok h
    obtain ⟨rest, hrest, h⟩ := Except.bind_eq_ok h
    cases h
    intro r' hr'
    rcases List.mem_cons.1 hr' with rfl | hr'
    · exact holds_instantiate (fun v hv => hargs v (List.mem_of_mem_take hv)) hr
    · exact ih (fun v hv => hargs v (List.mem_of_mem_drop hv)) hrest r' hr'

end RuleSpec

end GraphLang
