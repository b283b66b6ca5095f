import GraphLang.Proofs.Container.Model
import Mathlib.Data.List.InsertIdx

/-!
# Changes of containers are changes of their models

Each primitive change of a container does to its model what the change of that name says, and the
conditions of a change that do not depend on rules are those of the model.
-/

namespace GraphLang.Container

variable {c : Container} {ε : Type}

/-! ### Members in their places -/

section Roster

variable {members : List Held}

/-- In a list of distinct members, a new value for one of them changes one place. -/
theorem map_put_node (hnodup : (members.map (·.node)).Nodup) {i : Nat} {x : Held}
    (hx : members[i]? = some x) (value : Value) :
    (members.map (Held.put x.node value)).map (·.value) = (members.map (·.value)).set i value := by
  induction members generalizing i with
  | nil => cases hx
  | cons y rest ih =>
    rw [List.map_cons, List.nodup_cons] at hnodup
    cases i with
    | zero =>
      cases hx
      have hrest : (rest.map (Held.put x.node value)).map (·.value) = rest.map (·.value) := by
        rw [List.map_map]
        refine List.map_congr_left fun z hz => ?_
        have hne : z.node ≠ x.node := fun heq => hnodup.1 (heq ▸ List.mem_map_of_mem hz)
        simp [Held.put, hne]
      simp only [List.map_cons, List.set_cons_zero, hrest, Held.put, if_true]
    | succ i =>
      have hne : y.node ≠ x.node := fun heq =>
        hnodup.1 (heq ▸ List.mem_map_of_mem (List.mem_of_getElem? hx))
      simp only [List.map_cons, List.set_cons_succ, ih hnodup.2 hx, Held.put, if_neg hne]

/-- In a list of distinct members, taking one of them out empties one place. -/
theorem filter_node_ne (hnodup : (members.map (·.node)).Nodup) {i : Nat} {x : Held}
    (hx : members[i]? = some x) : members.filter (·.node != x.node) = members.eraseIdx i := by
  induction members generalizing i with
  | nil => cases hx
  | cons y rest ih =>
    rw [List.map_cons, List.nodup_cons] at hnodup
    cases i with
    | zero =>
      cases hx
      rw [List.filter_cons_of_neg (by simp), List.eraseIdx_cons_zero, List.filter_eq_self]
      intro z hz
      have hne : z.node ≠ x.node := fun heq => hnodup.1 (heq ▸ List.mem_map_of_mem hz)
      simpa using hne
    | succ i =>
      have hne : y.node ≠ x.node := fun heq =>
        hnodup.1 (heq ▸ List.mem_map_of_mem (List.mem_of_getElem? hx))
      rw [List.filter_cons_of_pos (by simpa using hne), List.eraseIdx_cons_succ, ih hnodup.2 hx]

end Roster

namespace Formed

/-! ### Lists -/

theorem elementNode?_eq (h : c.Formed) (hkind : c.kind = .list) (i : Nat) :
    c.elementNode? i = c.roster[i]?.map (·.node) := by
  rw [elementNode?, h.elementNodes_eq hkind, List.getElem?_map]

theorem step_insert (h : c.Formed) (hkind : c.kind = .list) (value : Value) :
    (c.attach .element value).2.Formed ∧
      c.model.Step (.insert value) (.node (c.attach .element value).1)
        (c.attach .element value).2.model := by
  have hformed : (c.attach .element value).2.Formed :=
    h.attach .element value (by rw [hkind]; rfl) fun hmap => by rw [hkind] at hmap; cases hmap
  refine ⟨hformed, ?_⟩
  rw [h.model_list hkind, hformed.model_list hkind, h.roster_attach, List.map_append]
  exact .insert _ value _

theorem step_set (h : c.Formed) (hkind : c.kind = .list) {i : Nat} {x : Held}
    (hx : c.roster[i]? = some x) (value : Value) :
    c.model.Step (.set i value) (.value x.value) (c.putValue x.node value).model := by
  have hlt := (List.getElem?_eq_some_iff.1 hx).1
  have hstep := Model.Step.set (c.roster.map (·.value)) i value (by rwa [List.length_map])
  rw [h.model_list hkind, (h.putValue x.node value).model_list hkind, h.roster_putValue,
    map_put_node h.nodup_nodes hx]
  rw [List.getElem_map, List.getElem_eq_iff hlt |>.2 hx] at hstep
  exact hstep

theorem step_removeIndex (h : c.Formed) (hkind : c.kind = .list) {i : Nat} {x : Held}
    (hx : c.roster[i]? = some x) (hn : x.node ≠ root) :
    c.model.Step (.remove (.index i)) (.value x.value)
      { c with graph := c.graph.removeNode x.node }.model := by
  have hlt := (List.getElem?_eq_some_iff.1 hx).1
  have hstep := Model.Step.removeIndex (c.roster.map (·.value)) i (by rwa [List.length_map])
  rw [h.model_list hkind, (h.removeNode hn).model_list hkind, h.roster_removeNode hn,
    filter_node_ne h.nodup_nodes hx, ← List.eraseIdx_map]
  rw [List.getElem_map, List.getElem_eq_iff hlt |>.2 hx] at hstep
  exact hstep

/-! ### Maps -/

/-- Nodes and keys tell the members of a map apart. -/
theorem node_eq_iff (h : c.Formed) (hkind : c.kind = .map) {x y : Held} (hx : x ∈ c.roster)
    (hy : y ∈ c.roster) : y.node = x.node ↔ y.label = x.label :=
  ⟨fun heq => congrArg Held.label (List.inj_on_of_nodup_map h.nodup_nodes hy hx heq),
    fun heq => congrArg Held.node (List.inj_on_of_nodup_map (h.nodup_labels hkind) hy hx heq)⟩

theorem step_replace (h : c.Formed) (hkind : c.kind = .map) {key : Key} {x : Held}
    (hx : x ∈ c.roster) (hlabel : x.label = .entry key) (value : Value) :
    c.model.Step (.put key value) (.node x.node) (c.putValue x.node value).model := by
  have hkey : key ∈ (c.roster.filterMap Held.entry?).map (·.1) :=
    (h.mem_keys hkind).2 (hlabel ▸ List.mem_map_of_mem hx)
  have hput : (c.putValue x.node value).roster.filterMap Held.entry? =
      Model.put (c.roster.filterMap Held.entry?) key value := by
    rw [Model.put, if_pos hkey, h.roster_putValue, List.filterMap_map, List.map_filterMap]
    refine List.filterMap_congr fun y hy => ?_
    rw [Function.comp_apply]
    by_cases hnode : y.node = x.node
    · have hy' := ((h.node_eq_iff hkind hx hy).1 hnode).trans hlabel
      simp [Held.put, Held.entry?, hnode, hy']
    · have hy' : y.label ≠ .entry key := fun heq =>
        hnode ((h.node_eq_iff hkind hx hy).2 (heq.trans hlabel.symm))
      rw [Held.put, if_neg hnode]
      cases hentry : y.entry? with
      | none => rfl
      | some entry =>
        have hne : entry.1 ≠ key := fun heq =>
          hy' (heq ▸ Held.entry?_eq_some_iff.1 hentry |>.1)
        simp [hne]
  rw [model_map hkind, model_map (c := c.putValue x.node value) hkind, hput]
  exact .put _ key value _

theorem step_append (h : c.Formed) (hkind : c.kind = .map) {key : Key}
    (hkey : Label.entry key ∉ c.roster.map (·.label)) (value : Value) :
    (c.attach (.entry key) value).2.Formed ∧
      c.model.Step (.put key value) (.node (c.attach (.entry key) value).1)
        (c.attach (.entry key) value).2.model := by
  have hformed : (c.attach (.entry key) value).2.Formed :=
    h.attach _ value (by rw [hkind]; rfl) fun _ => hkey
  have hput : (c.attach (.entry key) value).2.roster.filterMap Held.entry? =
      Model.put (c.roster.filterMap Held.entry?) key value := by
    rw [Model.put, if_neg fun hmem => hkey ((h.mem_keys hkind).1 hmem), h.roster_attach,
      List.filterMap_append]
    rfl
  refine ⟨hformed, ?_⟩
  rw [model_map hkind, model_map (c := (c.attach (.entry key) value).2) hkind, hput]
  exact .put _ key value _

theorem step_removeKey (h : c.Formed) (hkind : c.kind = .map) {key : Key} {x : Held}
    (hx : x ∈ c.roster) (hlabel : x.label = .entry key) (hn : x.node ≠ root) :
    c.model.Step (.remove (.key key)) (.value x.value)
      { c with graph := c.graph.removeNode x.node }.model := by
  have hmem : (key, x.value) ∈ c.roster.filterMap Held.entry? :=
    List.mem_filterMap.2 ⟨x, hx, Held.entry?_eq_some_iff.2 ⟨hlabel, rfl⟩⟩
  have hfilter : { c with graph := c.graph.removeNode x.node }.roster.filterMap Held.entry? =
      (c.roster.filterMap Held.entry?).filter (·.1 ≠ key) := by
    rw [h.roster_removeNode hn, List.filterMap_filter, List.filter_filterMap]
    refine List.filterMap_congr fun y hy => ?_
    have hnode := h.node_eq_iff hkind hx hy
    rw [hlabel] at hnode
    cases hentry : y.entry? with
    | none => simp
    | some entry =>
      have hy' := Held.entry?_eq_some_iff.1 hentry |>.1
      rw [hy', Label.entry.injEq] at hnode
      by_cases hkey : entry.1 = key
      · simp [hnode.2 hkey, hkey, Option.filter]
      · simp [mt hnode.1 hkey, hkey, Option.filter]
  rw [model_map hkind, model_map (c := { c with graph := c.graph.removeNode x.node }) hkind,
    hfilter]
  exact .removeKey _ key x.value hmem

/-! ### User graphs -/

theorem map_handles (members : List Held) :
    (members.map fun x => (x.node, x.value)).map (·.1) = members.map (·.node) := by
  rw [List.map_map]
  rfl

theorem formed_addMember (h : c.Formed) {name : String} (hkind : c.kind = .user name)
    (value : Value) : (c.attach .contains value).2.Formed :=
  h.attach .contains value (by rw [hkind]; rfl) fun hmap => by rw [hkind] at hmap; cases hmap

/-- The handle of a new member is that of no other member. -/
theorem fst_attach_not_mem (h : c.Formed) (label : Label) (value : Value) :
    (c.attach label value).1 ∉ c.roster.map (·.node) := by
  intro hmem
  have hnode := (h.mem_nodes.1 hmem).2
  rw [hasNode_fst_attach label value h.timed.sound] at hnode
  cases hnode

theorem step_addMember (h : c.Formed) {name : String} (hkind : c.kind = .user name)
    (value : Value) :
    c.model.Step (.addMember value none) (.node (c.attach .contains value).1)
      (c.attach .contains value).2.model := by
  rw [h.model_user hkind, (h.formed_addMember hkind value).model_user hkind, h.roster_attach,
    h.linkage_attach .contains value rfl, List.map_append]
  refine .addMember name _ _ value _ ?_
  rw [map_handles]
  exact h.fst_attach_not_mem .contains value

theorem mem_roster_attach (h : c.Formed) (label : Label) (value : Value) {n : Nat} :
    n ∈ (c.attach label value).2.roster.map (·.node) ↔
      n ∈ c.roster.map (·.node) ∨ n = (c.attach label value).1 := by
  rw [h.roster_attach, List.map_append, List.mem_append, List.map_cons, List.map_nil,
    List.mem_singleton]

theorem step_addLinked (h : c.Formed) {name : String} (hkind : c.kind = .user name)
    (value : Value) {parent : Nat} (hparent : parent ∈ c.roster.map (·.node)) (tag : String) :
    let c' := (c.attach .contains value).2
    let node := (c.attach .contains value).1
    (c'.connect parent node (.link tag) none).2.Formed ∧
      c.model.Step (.addMember value (some (parent, tag))) (.node node)
        (c'.connect parent node (.link tag) none).2.model := by
  intro c' node
  have hformed : c'.Formed := h.formed_addMember hkind value
  have hparent' := (h.mem_roster_attach .contains value).2 (Or.inl hparent)
  have hnode := (h.mem_roster_attach .contains value).2 (Or.inr rfl)
  have hlinked := hformed.connect tag none hparent' hnode
  refine ⟨hlinked, ?_⟩
  rw [h.model_user hkind, hlinked.model_user hkind, hformed.roster_connect tag none hparent' hnode,
    hformed.linkage_connect tag none hparent' hnode, h.roster_attach,
    h.linkage_attach .contains value rfl, List.map_append]
  refine .addLinked name _ _ value _ parent tag ?_ ?_
  · rw [map_handles]
    exact h.fst_attach_not_mem .contains value
  · rwa [map_handles]

theorem step_link (h : c.Formed) {name : String} (hkind : c.kind = .user name)
    {source target : Nat} (hsource : source ∈ c.roster.map (·.node))
    (htarget : target ∈ c.roster.map (·.node)) (tag : String) (data : Option Value) :
    c.model.Step (.link source target tag data)
      (.edge (c.connect source target (.link tag) data).1)
      (c.connect source target (.link tag) data).2.model := by
  rw [h.model_user hkind, (h.connect tag data hsource htarget).model_user hkind,
    h.roster_connect tag data hsource htarget, h.linkage_connect tag data hsource htarget]
  refine .link name _ _ source target tag data _ ?_ ?_
  · rwa [map_handles]
  · rwa [map_handles]

theorem step_removeNode (h : c.Formed) {name : String} (hkind : c.kind = .user name) {x : Held}
    (hx : x ∈ c.roster) (hn : x.node ≠ root) :
    c.model.Step (.remove (.node x.node)) (.value x.value)
      { c with graph := c.graph.removeNode x.node }.model := by
  have hstep := Model.Step.removeNode name (c.roster.map fun y => (y.node, y.value)) c.linkage
    x.node x.value (List.mem_map.2 ⟨x, hx, rfl⟩)
  rw [h.model_user hkind, (h.removeNode hn).model_user hkind, h.roster_removeNode hn,
    h.linkage_removeNode]
  convert hstep using 2
  · rw [List.filter_map]
    congr 1
    refine List.filter_congr fun y _ => ?_
    rw [Bool.eq_iff_iff]
    simp
  · refine List.filter_congr fun l _ => ?_
    rw [Bool.eq_iff_iff]
    simp

end Formed

/-! ### Conditions -/

/-- The outcome of a check that may refuse. -/
def verdict : Option (MutationError ε) → Except (MutationError ε) Unit
  | none => .ok ()
  | some e => .error e

namespace Formed

theorem expectMember_eq (h : c.Formed) (n : Nat) :
    (c.expectMember n : Except (MutationError ε) Unit) =
      if n ∈ c.roster.map (·.node) then .ok () else .error (.container (.unknownNode n)) := by
  unfold expectMember
  simp only [h.mem_nodes]
  by_cases hn : n = root <;> cases c.graph.hasNode n <;> simp [hn]

theorem nodeAt_eq (h : c.Formed) (hkind : c.kind = .list) (i : Nat) :
    (c.nodeAt i : Except (MutationError ε) Nat) = if hi : i < c.roster.length then
      .ok (c.roster.get ⟨i, hi⟩).node else .error (.indexOutOfRange i c.roster.length) := by
  unfold nodeAt
  rw [h.elementNode?_eq hkind, size, h.members_eq, List.length_map]
  by_cases hi : i < c.roster.length
  · rw [dif_pos hi, List.getElem?_eq_getElem hi]
    rfl
  · rw [dif_neg hi, List.getElem?_eq_none (Nat.le_of_not_lt hi)]
    rfl

/-- The node under a key is that of the member with the key. -/
theorem nodeUnder_cases (h : c.Formed) (key : Key) :
    (∃ x ∈ c.roster, x.label = .entry key ∧ c.entryNode? key = some x.node) ∨
      Label.entry key ∉ c.roster.map (·.label) ∧ c.entryNode? key = none := by
  rw [h.entryNode?_eq]
  cases hfind : c.roster.find? (·.label == .entry key) with
  | some x =>
    exact Or.inl ⟨x, List.mem_of_find?_eq_some hfind, by simpa using List.find?_some hfind, rfl⟩
  | none =>
    refine Or.inr ⟨fun hmem => ?_, rfl⟩
    obtain ⟨x, hx, hlabel⟩ := List.mem_map.1 hmem
    simpa [hlabel] using List.find?_eq_none.1 hfind x hx

/-- A change can be made, or is refused, as its model says. -/
theorem preflight_eq (h : c.Formed) (m : Mutation) :
    (c.preflight m : Except (MutationError ε) Unit) = verdict (c.model.refusal? m) := by
  cases hkind : c.kind with
  | list =>
    rw [h.model_list hkind]
    have hat (i : Nat) : (do discard <| c.nodeAt i : Except (MutationError ε) Unit) =
        verdict (if i < (c.roster.map (·.value)).length then none
          else some (.indexOutOfRange i (c.roster.map (·.value)).length)) := by
      rw [h.nodeAt_eq hkind, List.length_map]
      split <;> rfl
    cases m with
    | set i value =>
      simp only [preflight, expectList, hkind]
      exact hat i
    | remove target =>
      cases target with
      | index i =>
        simp only [preflight, expectList, hkind]
        exact hat i
      | _ => simp only [preflight, expectMap, expectUser, hkind]; rfl
    | _ => simp only [preflight, expectList, expectMap, expectUser, hkind]; rfl
  | map =>
    rw [model_map hkind]
    cases m with
    | remove target =>
      cases target with
      | key key =>
        simp only [preflight, expectMap, hkind, Model.refusal?, nodeUnder, h.mem_keys hkind]
        obtain ⟨x, hx, hlabel, hnode⟩ | ⟨hkey, hnode⟩ := h.nodeUnder_cases key
        · rw [hnode, if_pos (hlabel ▸ List.mem_map_of_mem hx)]
          rfl
        · rw [hnode, if_neg hkey]
          rfl
      | _ => simp only [preflight, expectList, expectUser, hkind]; rfl
    | _ => simp only [preflight, expectList, expectMap, expectUser, hkind]; rfl
  | user name =>
    rw [h.model_user hkind]
    cases m with
    | remove target =>
      cases target with
      | node n =>
        simp only [preflight, expectUser, hkind, h.expectMember_eq, Model.refusal?,
          Model.stranger?, map_handles]
        generalize c.roster.map (·.node) = nodes
        by_cases hn : n ∈ nodes <;> simp [hn] <;> rfl
      | _ => simp only [preflight, expectList, expectMap, hkind]; rfl
    | addMember value parent =>
      cases parent with
      | none => simp only [preflight, expectUser, hkind]; rfl
      | some link =>
        simp only [preflight, expectUser, hkind, h.expectMember_eq, Model.refusal?,
          Model.stranger?, map_handles]
        generalize c.roster.map (·.node) = nodes
        by_cases hn : link.1 ∈ nodes <;> simp [hn] <;> rfl
    | link source target tag data =>
      simp only [preflight, expectUser, hkind, h.expectMember_eq, Model.refusal?,
        Model.stranger?, map_handles]
      generalize c.roster.map (·.node) = nodes
      by_cases hs : source ∈ nodes <;> by_cases ht : target ∈ nodes <;> simp [hs, ht] <;> rfl
    | _ => simp only [preflight, expectList, expectMap, hkind]; rfl

end Formed

/-! ### New containers -/

/-- The containers that programs make, and what they stand for at first. -/
inductive Created : Container → Model → Prop where
  /-- A list of given elements. -/
  | list (values : List Value) : Created (ofElements values) (.list values)
  /-- A map of given entries, put one after the other. -/
  | map (entries : List (Key × Value)) : Created (ofEntries entries)
    (.map (entries.foldl (fun entries entry => Model.put entries entry.1 entry.2) []))
  /-- An empty user graph. -/
  | user (name : String) : Created (new (.user name)) (.user name [] [])

/-- A container of a kind that was built step by step. -/
structure Built (c : Container) (kind : Kind) (model : Model) : Prop where
  /-- Its edges hold its members and link them. -/
  formed : c.Formed
  /-- It is of that kind. -/
  kind_eq : c.kind = kind
  /-- It can be changed. -/
  mutable : c.frozen = false
  /-- It stands for that model. -/
  model_eq : c.model = model

theorem Built.insert {values : List Value} (h : c.Built .list (.list values)) (value : Value) :
    (c.attach .element value).2.Built .list (.list (values ++ [value])) := by
  obtain ⟨hformed, hstep⟩ := h.formed.step_insert h.kind_eq value
  rw [h.model_eq] at hstep
  refine ⟨hformed, h.kind_eq, h.mutable, ?_⟩
  generalize (c.attach .element value).2.model = model at hstep
  cases hstep
  rfl

theorem Built.put {entries : List (Key × Value)} (h : c.Built .map (.map entries)) (key : Key)
    (value : Value) : (c.putEntry key value).Built .map (.map (Model.put entries key value)) := by
  have hput {a : Applied} {model : Model} (hstep : c.model.Step (.put key value) a model) :
      model = .map (Model.put entries key value) := by
    rw [h.model_eq] at hstep
    cases hstep
    rfl
  unfold putEntry
  obtain ⟨x, hx, hlabel, hnode⟩ | ⟨hkey, hnode⟩ := h.formed.nodeUnder_cases key
  · rw [hnode]
    exact ⟨h.formed.putValue x.node value, h.kind_eq, h.mutable,
      hput (h.formed.step_replace h.kind_eq hx hlabel value)⟩
  · rw [hnode]
    obtain ⟨hformed, hstep⟩ := h.formed.step_append h.kind_eq hkey value
    exact ⟨hformed, h.kind_eq, h.mutable, hput hstep⟩

/-- A new container stands for what it was made of. -/
theorem Created.built {model : Model} (h : Created c model) : c.Built model.kind model := by
  cases h with
  | list values =>
    have hfold (done rest : List Value) (c : Container) (h : c.Built .list (.list done)) :
        (rest.foldl (fun c value => (c.attach .element value).2) c).Built .list
          (.list (done ++ rest)) := by
      induction rest generalizing done c with
      | nil => rwa [List.append_nil]
      | cons value rest ih =>
        rw [List.foldl_cons, List.append_cons]
        exact ih _ _ (h.insert value)
    refine hfold [] values (new .list) ⟨.new .list, rfl, rfl, ?_⟩
    rw [(Formed.new .list).model_list rfl, roster_new]
    rfl
  | map entries =>
    have hfold (done rest : List (Key × Value)) (c : Container) (h : c.Built .map (.map done)) :
        (rest.foldl (fun c entry => c.putEntry entry.1 entry.2) c).Built .map
          (.map (rest.foldl (fun entries entry => Model.put entries entry.1 entry.2) done)) := by
      induction rest generalizing done c with
      | nil => exact h
      | cons entry rest ih => exact ih _ _ (h.put entry.1 entry.2)
    refine hfold [] entries (new .map) ⟨.new .map, rfl, rfl, ?_⟩
    rw [model_map rfl, roster_new]
    rfl
  | user name =>
    refine ⟨.new _, rfl, rfl, ?_⟩
    rw [(Formed.new _).model_user rfl, roster_new, linkage_new]
    rfl

/-- New containers have no rules. -/
theorem Created.rules_eq {model : Model} (h : Created c model) : c.rules = [] := by
  cases h with
  | list values =>
    have hfold (rest : List Value) (c : Container) :
        (rest.foldl (fun c value => (c.attach .element value).2) c).rules = c.rules := by
      induction rest generalizing c with
      | nil => rfl
      | cons value rest ih => exact ih _
    exact hfold values _
  | map entries =>
    have hput (c : Container) (key : Key) (value : Value) :
        (c.putEntry key value).rules = c.rules := by
      unfold putEntry
      split <;> rfl
    have hfold (rest : List (Key × Value)) (c : Container) :
        (rest.foldl (fun c entry => c.putEntry entry.1 entry.2) c).rules = c.rules := by
      induction rest generalizing c with
      | nil => rfl
      | cons entry rest ih => exact (ih _).trans (hput c entry.1 entry.2)
    exact hfold entries _
  | user name => rfl

end GraphLang.Container
