import GraphLang.Proofs.Container.Timeline

/-!
# The members of a container and its links

A container that was made by the operations of its kind holds its members under the root, each one
by one edge, and all other edges are links between members. Then everything that queries show is in
two lists, the members and the links, oldest first, and every change does one thing to these lists.
-/

namespace GraphLang

/-- Which edges lead to the members of a container of that kind. -/
def Kind.fits : Kind → Label → Bool
  | .list, .element => true
  | .map, .entry _ => true
  | .user _, .contains => true
  | _, _ => false

theorem Kind.not_isLink_of_fits {kind : Kind} {label : Label} (h : kind.fits label = true) :
    label.isLink = false := by
  cases kind <;> cases label <;> first | rfl | cases h

namespace Container

variable {c : Container}

/-- A member: how it is held, its node and its value. -/
structure Held where
  /-- What the edge from the root says. -/
  label : Label
  /-- The node. -/
  node : Nat
  /-- The value. -/
  value : Value

/-- A link between two members. -/
structure Link where
  /-- The member it starts at. -/
  source : Nat
  /-- The member it ends at. -/
  target : Nat
  /-- Its name. -/
  name : String
  /-- A value attached to it. -/
  data : Option Value

/-- The member that an edge leads to. -/
def held? (c : Container) (view : EdgeView) : Option Held :=
  (c.value? view.target).map fun value => ⟨view.tie.label, view.target, value⟩

/-- The members, oldest first. -/
def roster (c : Container) : List Held := (c.edgesFrom root).filterMap c.held?

/-- The link that an edge is. -/
def EdgeView.link? (view : EdgeView) : Option Link :=
  match view.tie.label with
  | .link name => some ⟨view.source, view.target, name, view.tie.data⟩
  | _ => none

/-- The links with what is attached to them, oldest first. -/
def linkage (c : Container) : List Link := c.timeline.filterMap EdgeView.link?

theorem EdgeView.link?_of_not_isLink {view : EdgeView} (h : view.tie.label.isLink = false) :
    view.link? = none := by
  unfold link?
  split
  · rename_i name hlabel
    rw [hlabel] at h
    cases h
  · rfl

/-- The edges of a container hold its members under the root and link them. -/
structure Formed (c : Container) : Prop where
  /-- Edges are told apart by their numbers. -/
  timed : c.Timed
  /-- The root is there. -/
  hasNode_root : c.graph.hasNode root = true
  /-- No edge leads to the root. -/
  target_ne_root : ∀ view ∈ c.timeline, view.target ≠ root
  /-- Edges from the root hold members. -/
  fits : ∀ view ∈ c.timeline, view.source = root → c.kind.fits view.tie.label = true
  /-- Other edges are links. -/
  isLink : ∀ view ∈ c.timeline, view.source ≠ root → view.tie.label.isLink = true
  /-- All other nodes are members. -/
  listed : ∀ n, n ≠ root → c.graph.hasNode n = true → n ∈ c.roster.map (·.node)
  /-- No node is a member twice. -/
  nodup_nodes : (c.roster.map (·.node)).Nodup
  /-- The members of a map have keys of their own. -/
  nodup_labels : c.kind = .map → (c.roster.map (·.label)).Nodup

/-! ### Look-ups -/

theorem value?_eq_some_iff {n : Nat} : (∃ value, c.value? n = some value) ↔
    c.graph.hasNode n = true := by
  unfold value?
  rw [SlotGraph.hasNode_iff]
  constructor
  · rintro ⟨value, h⟩
    obtain ⟨m, hm, -⟩ := Option.map_eq_some_iff.1 h
    exact ⟨m, hm⟩
  · rintro ⟨m, hm⟩
    exact ⟨m.value, by rw [hm]; rfl⟩

theorem Timed.roster_eq (h : c.Timed) :
    c.roster = (c.timeline.filter (·.source == root)).filterMap c.held? := by
  rw [roster, h.edgesFrom_eq]

theorem Timed.mem_roster (h : c.Timed) {x : Held} : x ∈ c.roster ↔
    ∃ view ∈ c.timeline, view.source = root ∧ view.tie.label = x.label ∧ view.target = x.node ∧
      c.value? x.node = some x.value := by
  rw [h.roster_eq, List.mem_filterMap]
  constructor
  · rintro ⟨view, hview, hheld⟩
    obtain ⟨hmem, hsource⟩ := List.mem_filter.1 hview
    obtain ⟨value, hvalue, rfl⟩ := Option.map_eq_some_iff.1 hheld
    exact ⟨view, hmem, beq_iff_eq.1 hsource, rfl, rfl, hvalue⟩
  · rintro ⟨view, hmem, hsource, hlabel, htarget, hvalue⟩
    refine ⟨view, List.mem_filter.2 ⟨hmem, beq_iff_eq.2 hsource⟩, ?_⟩
    unfold held?
    rw [htarget, hvalue, hlabel]
    rfl

/-- An edge leads to a node. -/
theorem Timed.hasNode_target (h : c.Timed) {view : EdgeView} (hview : view ∈ c.timeline) :
    c.graph.hasNode view.target = true :=
  h.sound.hasNode_target (mem_timeline.1 hview)

namespace Formed

theorem fits_of_mem (h : c.Formed) {x : Held} (hx : x ∈ c.roster) : c.kind.fits x.label = true := by
  obtain ⟨view, hview, hsource, hlabel, -⟩ := h.timed.mem_roster.1 hx
  exact hlabel ▸ h.fits view hview hsource

theorem value?_of_mem (h : c.Formed) {x : Held} (hx : x ∈ c.roster) :
    c.value? x.node = some x.value := by
  obtain ⟨view, -, -, -, -, hvalue⟩ := h.timed.mem_roster.1 hx
  exact hvalue

/-- The members are the nodes other than the root. -/
theorem mem_nodes (h : c.Formed) {n : Nat} :
    n ∈ c.roster.map (·.node) ↔ n ≠ root ∧ c.graph.hasNode n = true := by
  constructor
  · intro hn
    obtain ⟨x, hx, rfl⟩ := List.mem_map.1 hn
    obtain ⟨view, hview, -, -, htarget, hvalue⟩ := h.timed.mem_roster.1 hx
    exact ⟨htarget ▸ h.target_ne_root view hview, value?_eq_some_iff.1 ⟨x.value, hvalue⟩⟩
  · exact fun hn => h.listed n hn.1 hn.2

/-- Links join members. -/
theorem ends_of_mem_linkage (h : c.Formed) {l : Link} (hl : l ∈ c.linkage) :
    l.source ∈ c.roster.map (·.node) ∧ l.target ∈ c.roster.map (·.node) := by
  obtain ⟨view, hview, hlink⟩ := List.mem_filterMap.1 hl
  have hends : l.source = view.source ∧ l.target = view.target := by
    unfold EdgeView.link? at hlink
    split at hlink <;> cases hlink
    exact ⟨rfl, rfl⟩
  rw [hends.1, hends.2, h.mem_nodes, h.mem_nodes]
  refine ⟨⟨?_, h.timed.sound.hasNode_source (mem_timeline.1 hview)⟩,
    h.target_ne_root view hview, h.timed.hasNode_target hview⟩
  intro hsource
  rw [EdgeView.link?_of_not_isLink (Kind.not_isLink_of_fits (h.fits view hview hsource))] at hlink
  cases hlink

end Formed

theorem roster_new (kind : Kind) : (new kind).roster = [] := by
  rw [(Timed.new kind).roster_eq, timeline_new]
  rfl

theorem linkage_new (kind : Kind) : (new kind).linkage = [] := by
  rw [linkage, timeline_new]
  rfl

theorem Formed.new (kind : Kind) : (new kind).Formed where
  timed := .new kind
  hasNode_root := rfl
  target_ne_root := by simp [timeline_new]
  fits := by simp [timeline_new]
  isLink := by simp [timeline_new]
  listed n hn hnode := by
    rw [Container.new, SlotGraph.hasNode, SlotGraph.sound_empty.node?_addNode,
      if_neg (show n ≠ (SlotGraph.empty.addNode _).1 from hn)] at hnode
    cases hnode
  nodup_nodes := by simp [roster_new]
  nodup_labels := by simp [roster_new]

/-- Rules are no part of the form. -/
theorem Formed.withRules (h : c.Formed) (rules : List Rule) : { c with rules := rules }.Formed where
  timed := ⟨h.timed.sound, h.timed.seq_lt, h.timed.seq_inj⟩
  hasNode_root := h.hasNode_root
  target_ne_root := h.target_ne_root
  fits := h.fits
  isLink := h.isLink
  listed := h.listed
  nodup_nodes := h.nodup_nodes
  nodup_labels := h.nodup_labels

/-- Freezing is no part of the form. -/
theorem Formed.freeze (h : c.Formed) : c.freeze.Formed where
  timed := ⟨h.timed.sound, h.timed.seq_lt, h.timed.seq_inj⟩
  hasNode_root := h.hasNode_root
  target_ne_root := h.target_ne_root
  fits := h.fits
  isLink := h.isLink
  listed := h.listed
  nodup_nodes := h.nodup_nodes
  nodup_labels := h.nodup_labels

/-! ### A new member -/

section Attach

variable (label : Label) (value : Value)

theorem value?_attach (h : c.graph.Sound) (n : Nat) :
    (c.attach label value).2.value? n =
      if n = (c.attach label value).1 then some value else c.value? n := by
  unfold value? attach connect
  dsimp only
  rw [SlotGraph.node?_addEdge, h.node?_addNode]
  split <;> rfl

/-- A new member takes a node that was none. -/
theorem hasNode_fst_attach (h : c.graph.Sound) :
    c.graph.hasNode (c.attach label value).1 = false := by
  rw [SlotGraph.hasNode, show (c.attach label value).1 = (c.graph.addNode ⟨value, none⟩).1 from rfl,
    h.node?_new]
  rfl

theorem Timed.attach (h : c.Timed) (hroot : c.graph.hasNode root = true) :
    (c.attach label value).2.Timed ∧ (c.attach label value).2.timeline = c.timeline ++
      [⟨({ c with graph := (c.graph.addNode ⟨value, none⟩).2 }.connect root
        (c.attach label value).1 label none).1, root, (c.attach label value).1, label, none,
        c.nextSeq⟩] := by
  have hsound := h.sound.addNode ⟨value, none⟩
  have hedges := SlotGraph.edge?_addNode (g := c.graph) ⟨value, none⟩
  have hnode (n : Nat) : (c.graph.addNode ⟨value, none⟩).2.hasNode n =
      (n == (c.graph.addNode ⟨value, none⟩).1 || c.graph.hasNode n) := by
    rw [SlotGraph.hasNode, h.sound.node?_addNode]
    split <;> simp_all [SlotGraph.hasNode]
  have hroot' : (c.graph.addNode ⟨value, none⟩).2.hasNode root = true := by
    rw [hnode, hroot, Bool.or_true]
  have hnew : (c.graph.addNode ⟨value, none⟩).2.hasNode (c.graph.addNode ⟨value, none⟩).1 = true := by
    rw [hnode, beq_self_eq_true, Bool.true_or]
  have htimed := h.of_edges hsound hedges
  refine ⟨htimed.connect hroot' hnew label none, ?_⟩
  rw [← h.timeline_of_edges hsound hedges]
  exact htimed.timeline_connect hroot' hnew label none

/-- A new member comes last. -/
theorem Formed.roster_attach (h : c.Formed) : (c.attach label value).2.roster =
    c.roster ++ [⟨label, (c.attach label value).1, value⟩] := by
  obtain ⟨htimed, htimeline⟩ := h.timed.attach label value h.hasNode_root
  rw [htimed.roster_eq, htimeline, h.timed.roster_eq, List.filter_append, List.filterMap_append]
  congr 1
  · refine List.filterMap_congr fun view hview => ?_
    have hne : view.target ≠ (c.attach label value).1 := by
      intro heq
      have hnode := h.timed.hasNode_target (List.mem_filter.1 hview).1
      rw [heq, hasNode_fst_attach label value h.timed.sound] at hnode
      cases hnode
    unfold held?
    rw [value?_attach label value h.timed.sound, if_neg hne]
  · rw [List.filter_cons_of_pos (by simp)]
    simp [held?, value?_attach label value h.timed.sound]

theorem Formed.linkage_attach (h : c.Formed) (hlabel : label.isLink = false) :
    (c.attach label value).2.linkage = c.linkage := by
  obtain ⟨-, htimeline⟩ := h.timed.attach label value h.hasNode_root
  rw [linkage, htimeline, List.filterMap_append,
    List.filterMap_cons_none (EdgeView.link?_of_not_isLink hlabel), List.filterMap_nil,
    List.append_nil, linkage]

theorem Formed.attach (h : c.Formed) (hfits : c.kind.fits label = true)
    (hkey : c.kind = .map → label ∉ c.roster.map (·.label)) : (c.attach label value).2.Formed := by
  obtain ⟨htimed, htimeline⟩ := h.timed.attach label value h.hasNode_root
  have hfresh := hasNode_fst_attach label value h.timed.sound
  have hroster := h.roster_attach label value
  have hne : (c.attach label value).1 ≠ root := by
    intro heq
    rw [heq, h.hasNode_root] at hfresh
    cases hfresh
  have hmem {p : EdgeView → Prop} (hold : ∀ view ∈ c.timeline, p view)
      (hnew : ∀ id tie, tie.label = label → p ⟨id, root, (c.attach label value).1, tie⟩) :
      ∀ view ∈ (c.attach label value).2.timeline, p view := by
    intro view hview
    rw [htimeline] at hview
    obtain hview | hview := List.mem_append.1 hview
    · exact hold view hview
    · rw [List.mem_singleton.1 hview]
      exact hnew _ _ rfl
  have hhas (n : Nat) : (c.attach label value).2.graph.hasNode n = true ↔
      n = (c.attach label value).1 ∨ c.graph.hasNode n = true := by
    rw [← value?_eq_some_iff, value?_attach label value h.timed.sound, ← value?_eq_some_iff]
    split <;> simp_all
  exact {
    timed := htimed
    hasNode_root := (hhas root).2 (Or.inr h.hasNode_root)
    target_ne_root := hmem h.target_ne_root fun _ _ _ => hne
    fits := hmem h.fits fun _ _ hlabel _ => hlabel ▸ hfits
    isLink := hmem h.isLink fun _ _ _ hsource => absurd rfl hsource
    listed := by
      intro n hn hnode
      rw [hroster, List.map_append, List.mem_append]
      obtain rfl | hnode := (hhas n).1 hnode
      · exact Or.inr (List.mem_singleton_self _)
      · exact Or.inl (h.listed n hn hnode)
    nodup_nodes := by
      rw [hroster, List.map_append, List.nodup_append]
      refine ⟨h.nodup_nodes, List.nodup_singleton _, ?_⟩
      intro n hn m hm heq
      rw [heq, List.mem_singleton.1 hm] at hn
      rw [(h.mem_nodes.1 hn).2] at hfresh
      cases hfresh
    nodup_labels := by
      intro hkind
      rw [hroster, List.map_append, List.nodup_append]
      refine ⟨h.nodup_labels hkind, List.nodup_singleton _, ?_⟩
      intro l hl l' hl' heq
      rw [heq, List.mem_singleton.1 hl'] at hl
      exact hkey hkind hl }

end Attach

/-! ### A new value of a member -/

section PutValue

variable (n : Nat) (value : Value)

theorem value?_putValue (m : Nat) :
    (c.putValue n value).value? m = if m = n then (c.value? m).map fun _ => value else c.value? m := by
  unfold value? putValue
  rw [SlotGraph.node?_modifyNode]
  split
  · cases c.graph.node? m <;> rfl
  · rfl

theorem Timed.putValue (h : c.Timed) : (c.putValue n value).Timed ∧
    (c.putValue n value).timeline = c.timeline := by
  have hsound := h.sound.modifyNode n fun m => { m with value := value }
  have hedges := SlotGraph.edge?_modifyNode (g := c.graph) n fun m => { m with value := value }
  exact ⟨h.of_edges hsound hedges, h.timeline_of_edges hsound hedges⟩

/-- The member with another value, if it is that one. -/
def Held.put (n : Nat) (value : Value) (x : Held) : Held :=
  if x.node = n then { x with value := value } else x

@[simp] theorem Held.put_node (x : Held) : (x.put n value).node = x.node := by
  unfold put
  split <;> rfl

@[simp] theorem Held.put_label (x : Held) : (x.put n value).label = x.label := by
  unfold put
  split <;> rfl

/-- A new value stands in the place of the old one. -/
theorem Formed.roster_putValue (h : c.Formed) :
    (c.putValue n value).roster = c.roster.map (Held.put n value) := by
  obtain ⟨htimed, htimeline⟩ := h.timed.putValue n value
  rw [htimed.roster_eq, htimeline, h.timed.roster_eq, List.map_filterMap]
  refine List.filterMap_congr fun view _ => ?_
  unfold held?
  rw [value?_putValue, Option.map_map]
  by_cases hn : view.target = n
  · rw [if_pos hn, Option.map_map]
    simp only [Function.comp_def, Held.put, if_pos hn]
  · rw [if_neg hn]
    simp only [Function.comp_def, Held.put, if_neg hn]

theorem Formed.linkage_putValue (h : c.Formed) : (c.putValue n value).linkage = c.linkage := by
  rw [linkage, (h.timed.putValue n value).2, linkage]

theorem Formed.putValue (h : c.Formed) : (c.putValue n value).Formed := by
  obtain ⟨htimed, htimeline⟩ := h.timed.putValue n value
  have hhas (m : Nat) : (c.putValue n value).graph.hasNode m = c.graph.hasNode m := by
    rw [Bool.eq_iff_iff, ← value?_eq_some_iff, value?_putValue, ← value?_eq_some_iff]
    split <;> simp
  have hnodes : (c.putValue n value).roster.map (·.node) = c.roster.map (·.node) := by
    rw [h.roster_putValue, List.map_map]
    exact List.map_congr_left fun x _ => Held.put_node n value x
  have hlabels : (c.putValue n value).roster.map (·.label) = c.roster.map (·.label) := by
    rw [h.roster_putValue, List.map_map]
    exact List.map_congr_left fun x _ => Held.put_label n value x
  exact {
    timed := htimed
    hasNode_root := by rw [hhas, h.hasNode_root]
    target_ne_root := by rw [htimeline]; exact h.target_ne_root
    fits := by rw [htimeline]; exact h.fits
    isLink := by rw [htimeline]; exact h.isLink
    listed := by
      intro m hm hnode
      rw [hhas] at hnode
      rw [hnodes]
      exact h.listed m hm hnode
    nodup_nodes := hnodes ▸ h.nodup_nodes
    nodup_labels := fun hkind => hlabels ▸ h.nodup_labels hkind }

end PutValue

/-! ### A member less -/

section RemoveNode

variable {n : Nat}

theorem value?_removeNode (m : Nat) :
    { c with graph := c.graph.removeNode n }.value? m = if m = n then none else c.value? m := by
  unfold value?
  rw [SlotGraph.node?_removeNode]
  split <;> rfl

/-- A member is taken out, and the others stay in order. -/
theorem Formed.roster_removeNode (h : c.Formed) (hn : n ≠ root) :
    { c with graph := c.graph.removeNode n }.roster = c.roster.filter (·.node != n) := by
  rw [(h.timed.removeNode n).roster_eq, h.timed.timeline_removeNode, h.timed.roster_eq,
    List.filter_filterMap, List.filter_filter, List.filterMap_filter, List.filterMap_filter]
  refine List.filterMap_congr fun view _ => ?_
  unfold held?
  rw [value?_removeNode]
  by_cases hsource : view.source = root
  · by_cases htarget : view.target = n
    · simp [htarget, Option.filter]
      cases c.value? n <;> simp
    · cases c.value? view.target <;> simp [hsource, htarget, hn.symm, Option.filter]
  · simp [hsource]

/-- The links at a member go with it, and the others stay in order. -/
theorem Formed.linkage_removeNode (h : c.Formed) :
    { c with graph := c.graph.removeNode n }.linkage =
      c.linkage.filter fun l => l.source != n && l.target != n := by
  rw [linkage, h.timed.timeline_removeNode, linkage, List.filter_filterMap, List.filterMap_filter]
  refine List.filterMap_congr fun view _ => ?_
  unfold EdgeView.link?
  cases view.tie.label <;> simp [Option.filter]

theorem Formed.removeNode (h : c.Formed) (hn : n ≠ root) :
    { c with graph := c.graph.removeNode n }.Formed := by
  have htimeline := h.timed.timeline_removeNode n
  have hroster := h.roster_removeNode hn
  have hold {view : EdgeView} (hview : view ∈ { c with graph := c.graph.removeNode n }.timeline) :
      view ∈ c.timeline := by
    rw [htimeline] at hview
    exact (List.mem_filter.1 hview).1
  have hhas (m : Nat) : (c.graph.removeNode n).hasNode m = true ↔
      m ≠ n ∧ c.graph.hasNode m = true := by
    rw [SlotGraph.hasNode, SlotGraph.node?_removeNode]
    split <;> simp_all [SlotGraph.hasNode]
  have hsub : ({ c with graph := c.graph.removeNode n }.roster).Sublist c.roster :=
    hroster ▸ List.filter_sublist
  exact {
    timed := h.timed.removeNode n
    hasNode_root := (hhas root).2 ⟨hn.symm, h.hasNode_root⟩
    target_ne_root := fun view hview => h.target_ne_root view (hold hview)
    fits := fun view hview => h.fits view (hold hview)
    isLink := fun view hview => h.isLink view (hold hview)
    listed := by
      intro m hm hnode
      obtain ⟨hne, hnode⟩ := (hhas m).1 hnode
      obtain ⟨x, hx, rfl⟩ := List.mem_map.1 (h.listed m hm hnode)
      rw [hroster]
      exact List.mem_map.2 ⟨x, List.mem_filter.2 ⟨hx, by simpa using hne⟩, rfl⟩
    nodup_nodes := h.nodup_nodes.sublist (hsub.map _)
    nodup_labels := fun hkind => (h.nodup_labels hkind).sublist (hsub.map _) }

end RemoveNode

/-! ### A new link -/

section Connect

variable {source target : Nat} (name : String) (data : Option Value)

theorem value?_connect (label : Label) (n : Nat) :
    (c.connect source target label data).2.value? n = c.value? n := by
  unfold value? connect
  rw [SlotGraph.node?_addEdge]

/-- A link between members leaves the members as they are. -/
theorem Formed.roster_connect (h : c.Formed) (hsource : source ∈ c.roster.map (·.node))
    (htarget : target ∈ c.roster.map (·.node)) :
    (c.connect source target (.link name) data).2.roster = c.roster := by
  obtain ⟨hne, hsource⟩ := h.mem_nodes.1 hsource
  have htarget := (h.mem_nodes.1 htarget).2
  rw [(h.timed.connect hsource htarget _ data).roster_eq, h.timed.timeline_connect hsource htarget,
    h.timed.roster_eq, List.filter_append, List.filter_cons_of_neg (by simpa using hne),
    List.filter_nil, List.append_nil]
  exact List.filterMap_congr fun view _ => by rw [held?, value?_connect, held?]

/-- A new link comes last. -/
theorem Formed.linkage_connect (h : c.Formed) (hsource : source ∈ c.roster.map (·.node))
    (htarget : target ∈ c.roster.map (·.node)) :
    (c.connect source target (.link name) data).2.linkage =
      c.linkage ++ [⟨source, target, name, data⟩] := by
  rw [linkage, h.timed.timeline_connect (h.mem_nodes.1 hsource).2 (h.mem_nodes.1 htarget).2,
    List.filterMap_append]
  rfl

theorem Formed.connect (h : c.Formed) (hsource : source ∈ c.roster.map (·.node))
    (htarget : target ∈ c.roster.map (·.node)) :
    (c.connect source target (.link name) data).2.Formed := by
  have hroster := h.roster_connect name data hsource htarget
  obtain ⟨hne, hsource⟩ := h.mem_nodes.1 hsource
  obtain ⟨hne', htarget⟩ := h.mem_nodes.1 htarget
  have hmem {p : EdgeView → Prop} (hold : ∀ view ∈ c.timeline, p view)
      (hnew : ∀ id tie, tie.label = .link name → p ⟨id, source, target, tie⟩) :
      ∀ view ∈ (c.connect source target (.link name) data).2.timeline, p view := by
    intro view hview
    rw [h.timed.timeline_connect hsource htarget] at hview
    obtain hview | hview := List.mem_append.1 hview
    · exact hold view hview
    · rw [List.mem_singleton.1 hview]
      exact hnew _ _ rfl
  have hhas (n : Nat) : (c.connect source target (.link name) data).2.graph.hasNode n =
      c.graph.hasNode n := by
    rw [Bool.eq_iff_iff, ← value?_eq_some_iff, value?_connect, ← value?_eq_some_iff]
  exact {
    timed := h.timed.connect hsource htarget _ data
    hasNode_root := by rw [hhas, h.hasNode_root]
    target_ne_root := hmem h.target_ne_root fun _ _ _ => hne'
    fits := hmem h.fits fun _ _ _ heq => absurd heq hne
    isLink := hmem h.isLink fun _ _ hlabel _ => by rw [hlabel]; rfl
    listed := by
      intro n hn hnode
      rw [hhas] at hnode
      rw [hroster]
      exact h.listed n hn hnode
    nodup_nodes := hroster ▸ h.nodup_nodes
    nodup_labels := fun hkind => hroster ▸ h.nodup_labels hkind }

end Connect

end Container

end GraphLang
