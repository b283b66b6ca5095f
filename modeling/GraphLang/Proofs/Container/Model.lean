import GraphLang.Proofs.Container.Roster
import GraphLang.Rule.Mutation

/-!
# What containers stand for

A list stands for a sequence of values, a map for a sequence of entries with distinct keys, and a
user graph for a sequence of members with handles and a sequence of links between them. Numbers of
edges and slots are no part of that. Changes are described on these models, with nothing said about
how the container makes them.
-/

namespace GraphLang

open Container (Link Held Applied)

/-- What a container stands for. -/
inductive Model where
  /-- A sequence of values. -/
  | list (values : List Value)
  /-- A sequence of entries. -/
  | map (entries : List (Key × Value))
  /-- Members with their handles, and the links between them. -/
  | user (name : String) (members : List (Nat × Value)) (links : List Link)

namespace Model

variable {ε : Type}

/-- The kind of container. -/
def kind : Model → Kind
  | .list _ => .list
  | .map _ => .map
  | .user name .. => .user name

/-- The values of the members. -/
def values : Model → List Value
  | .list values => values
  | .map entries => entries.map (·.2)
  | .user _ members _ => members.map (·.2)

/-- Keys and handles are distinct, and links join members. -/
def Proper : Model → Prop
  | .list _ => True
  | .map entries => (entries.map (·.1)).Nodup
  | .user _ members links => (members.map (·.1)).Nodup ∧
    ∀ l ∈ links, l.source ∈ members.map (·.1) ∧ l.target ∈ members.map (·.1)

/-- The entries with a value under a key: in place of the old value, or at the end. -/
def put (entries : List (Key × Value)) (key : Key) (value : Value) : List (Key × Value) :=
  if key ∈ entries.map (·.1) then
    entries.map fun entry => if entry.1 = key then (key, value) else entry
  else entries ++ [(key, value)]

/-- One change, with what it gives. -/
inductive Step : Model → Mutation → Applied → Model → Prop where
  /-- A value is appended to a list. -/
  | insert (values : List Value) (value : Value) (node : Nat) :
    Step (.list values) (.insert value) (.node node) (.list (values ++ [value]))
  /-- A value of a list is replaced; the old one is given back. -/
  | set (values : List Value) (index : Nat) (value : Value) (h : index < values.length) :
    Step (.list values) (.set index value) (.value values[index]) (.list (values.set index value))
  /-- A value of a list is removed and given back. -/
  | removeIndex (values : List Value) (index : Nat) (h : index < values.length) :
    Step (.list values) (.remove (.index index)) (.value values[index])
      (.list (values.eraseIdx index))
  /-- A value is put under a key. -/
  | put (entries : List (Key × Value)) (key : Key) (value : Value) (node : Nat) :
    Step (.map entries) (.put key value) (.node node) (.map (Model.put entries key value))
  /-- An entry is removed, and its value is given back. -/
  | removeKey (entries : List (Key × Value)) (key : Key) (old : Value) (h : (key, old) ∈ entries) :
    Step (.map entries) (.remove (.key key)) (.value old) (.map (entries.filter (·.1 ≠ key)))
  /-- A member is appended, with a handle that no member has. -/
  | addMember (name : String) (members : List (Nat × Value)) (links : List Link) (value : Value)
    (handle : Nat) (h : handle ∉ members.map (·.1)) :
    Step (.user name members links) (.addMember value none) (.node handle)
      (.user name (members ++ [(handle, value)]) links)
  /-- A member is appended, and a link to it. -/
  | addLinked (name : String) (members : List (Nat × Value)) (links : List Link) (value : Value)
    (handle parent : Nat) (tag : String) (h : handle ∉ members.map (·.1))
    (hparent : parent ∈ members.map (·.1)) :
    Step (.user name members links) (.addMember value (some (parent, tag))) (.node handle)
      (.user name (members ++ [(handle, value)]) (links ++ [⟨parent, handle, tag, none⟩]))
  /-- A link is appended. -/
  | link (name : String) (members : List (Nat × Value)) (links : List Link) (source target : Nat)
    (tag : String) (data : Option Value) (edge : Nat) (hsource : source ∈ members.map (·.1))
    (htarget : target ∈ members.map (·.1)) :
    Step (.user name members links) (.link source target tag data) (.edge edge)
      (.user name members (links ++ [⟨source, target, tag, data⟩]))
  /-- A member is removed, with exactly the links at it, and its value is given back. -/
  | removeNode (name : String) (members : List (Nat × Value)) (links : List Link) (handle : Nat)
    (old : Value) (h : (handle, old) ∈ members) :
    Step (.user name members links) (.remove (.node handle)) (.value old)
      (.user name (members.filter (·.1 ≠ handle))
        (links.filter fun l => l.source ≠ handle ∧ l.target ≠ handle))

/-- A change leaves the kind as it is. -/
theorem Step.kind_eq {model model' : Model} {m : Mutation} {a : Applied}
    (h : model.Step m a model') : model'.kind = model.kind := by
  cases h <;> rfl

/-- The kind of container that a change is for, as errors name it. -/
def needs : Mutation → String
  | .insert _ | .set .. | .remove (.index _) => "list"
  | .put .. | .remove (.key _) => "map"
  | .remove (.node _) | .addMember .. | .link .. => "graph"

/-- The first of the handles that no member has. -/
def stranger? (members : List (Nat × Value)) (handles : List Nat) : Option Nat :=
  handles.find? (· ∉ members.map (·.1))

/-- Why a change cannot be made, whatever the rules say. -/
def refusal? : Model → Mutation → Option (MutationError ε)
  | .list _, .insert _ => none
  | .list values, .set index _ | .list values, .remove (.index index) =>
    if index < values.length then none else some (.indexOutOfRange index values.length)
  | .map _, .put .. => none
  | .map entries, .remove (.key key) =>
    if key ∈ entries.map (·.1) then none else some (.keyNotFound key)
  | .user _ members _, .remove (.node handle) => unknown (stranger? members [handle])
  | .user _ members _, .addMember _ parent =>
    unknown (stranger? members (parent.toList.map (·.1)))
  | .user _ members _, .link source target _ _ => unknown (stranger? members [source, target])
  | model, m => some (.wrongKind (needs m) model.kind)
where
  /-- The error about a handle that is none. -/
  unknown (handle : Option Nat) : Option (MutationError ε) :=
    handle.map fun n => .container (.unknownNode n)

end Model

namespace Container

variable {c : Container} {ε : Type}

/-- What a container stands for: what queries show of it, and what is attached to its links. -/
def model (c : Container) : Model :=
  match c.kind with
  | .list => .list c.elements
  | .map => .map c.entries
  | .user name =>
    .user name (c.members.filterMap fun n => (c.value? n).map fun v => (n, v)) c.linkage

theorem kind_model (c : Container) : c.model.kind = c.kind := by
  unfold model
  split <;> rename_i hkind <;> exact hkind.symm

/-! ### Queries -/

/-- The key and the value of a member of a map. -/
def Held.entry? (x : Held) : Option (Key × Value) :=
  match x.label with
  | .entry key => some (key, x.value)
  | _ => none

theorem Held.entry?_eq_some_iff {x : Held} {entry : Key × Value} :
    x.entry? = some entry ↔ x.label = .entry entry.1 ∧ x.value = entry.2 := by
  unfold entry?
  split
  · rename_i key hlabel
    rw [hlabel, Option.some.injEq, Prod.ext_iff, Label.entry.injEq]
  · rename_i hno
    exact iff_of_false (Option.some_ne_none _).symm fun h => hno entry.1 h.1

theorem entries_eq (c : Container) : c.entries = c.roster.filterMap Held.entry? := by
  rw [entries, roster, List.filterMap_filterMap]
  refine List.filterMap_congr fun view _ => ?_
  unfold held? Held.entry?
  cases view.tie.label <;> cases c.value? view.target <;> rfl

theorem model_map (hkind : c.kind = .map) :
    c.model = .map (c.roster.filterMap Held.entry?) := by
  rw [model, hkind, ← c.entries_eq]

namespace Formed

/-- The edges from the root are those to the members. -/
theorem map_edgesFrom (h : c.Formed) {β : Type} (f : Label → Nat → β) :
    (c.edgesFrom root).map (fun view => f view.tie.label view.target) =
      c.roster.map fun x => f x.label x.node := by
  rw [roster, List.map_filterMap, ← List.filterMap_eq_map]
  refine List.filterMap_congr fun view hview => ?_
  rw [h.timed.edgesFrom_eq] at hview
  obtain ⟨value, hvalue⟩ :=
    value?_eq_some_iff.2 (h.timed.hasNode_target (List.mem_filter.1 hview).1)
  unfold held?
  rw [hvalue]
  rfl

/-- What the edges from the root say fits the kind. -/
theorem fits_edgesFrom (h : c.Formed) {view : EdgeView} (hview : view ∈ c.edgesFrom root) :
    c.kind.fits view.tie.label = true := by
  rw [h.timed.edgesFrom_eq] at hview
  obtain ⟨hmem, hsource⟩ := List.mem_filter.1 hview
  exact h.fits view hmem (beq_iff_eq.1 hsource)

theorem members_eq (h : c.Formed) : c.members = c.roster.map (·.node) := by
  rw [members, List.filter_eq_self.2, h.map_edgesFrom fun _ n => n]
  intro view hview
  rw [Kind.not_isLink_of_fits (h.fits_edgesFrom hview)]
  rfl

/-- Looking up the values of the members. -/
theorem filterMap_nodes (h : c.Formed) {β : Type} (f : Nat → Value → β) :
    (c.roster.map (·.node)).filterMap (fun n => (c.value? n).map (f n)) =
      c.roster.map fun x => f x.node x.value := by
  rw [List.filterMap_map, ← List.filterMap_eq_map]
  refine List.filterMap_congr fun x hx => ?_
  rw [Function.comp_apply, h.value?_of_mem hx]
  rfl

theorem memberValues_eq (h : c.Formed) : c.memberValues = c.roster.map (·.value) := by
  have hvalues := h.filterMap_nodes fun _ v => v
  simp only [Option.map_id'] at hvalues
  rw [memberValues, h.members_eq, hvalues]

theorem elementNodes_eq (h : c.Formed) (hkind : c.kind = .list) :
    c.elementNodes = c.roster.map (·.node) := by
  rw [elementNodes, List.filter_eq_self.2, h.map_edgesFrom fun _ n => n]
  intro view hview
  have hfits := h.fits_edgesFrom hview
  rw [hkind] at hfits
  cases hlabel : view.tie.label <;> rw [hlabel] at hfits <;> first | rfl | cases hfits

/-- The first member under a key. -/
theorem entryNode?_eq (h : c.Formed) (key : Key) :
    c.entryNode? key = (c.roster.find? (·.label == .entry key)).map (·.node) := by
  have hfind (views : List (Label × Nat)) (members : List Held)
      (heq : views = members.map fun x => (x.label, x.node)) :
      (views.find? (·.1 == .entry key)).map (·.2) =
        (members.find? (·.label == .entry key)).map (·.node) := by
    rw [heq, List.find?_map, Option.map_map]
    rfl
  have hviews := hfind _ _ (h.map_edgesFrom fun label n => (label, n))
  rw [List.find?_map, Option.map_map] at hviews
  exact hviews

theorem model_list (h : c.Formed) (hkind : c.kind = .list) :
    c.model = .list (c.roster.map (·.value)) := by
  rw [model, hkind]
  dsimp only
  rw [elements, h.elementNodes_eq hkind]
  have hvalues := h.filterMap_nodes fun _ v => v
  simp only [Option.map_id'] at hvalues
  rw [hvalues]

theorem model_user (h : c.Formed) {name : String} (hkind : c.kind = .user name) :
    c.model = .user name (c.roster.map fun x => (x.node, x.value)) c.linkage := by
  rw [model, hkind]
  dsimp only
  rw [h.members_eq, h.filterMap_nodes fun n v => (n, v)]

/-- The members of a map stand under keys. -/
theorem label_eq_entry (h : c.Formed) (hkind : c.kind = .map) {x : Held} (hx : x ∈ c.roster) :
    ∃ key, x.label = .entry key := by
  have hfits := h.fits_of_mem hx
  rw [hkind] at hfits
  cases hlabel : x.label with
  | entry key => exact ⟨key, rfl⟩
  | _ =>
    rw [hlabel] at hfits
    cases hfits

/-- The members of a map are its entries. -/
theorem keys_eq (h : c.Formed) (hkind : c.kind = .map) :
    (c.roster.filterMap Held.entry?).map (fun entry => Label.entry entry.1) =
      c.roster.map (·.label) := by
  rw [List.map_filterMap, ← List.filterMap_eq_map]
  refine List.filterMap_congr fun x hx => ?_
  obtain ⟨key, hlabel⟩ := h.label_eq_entry hkind hx
  simp [Held.entry?, hlabel]

theorem mem_keys (h : c.Formed) (hkind : c.kind = .map) {key : Key} :
    key ∈ (c.roster.filterMap Held.entry?).map (·.1) ↔ .entry key ∈ c.roster.map (·.label) := by
  rw [← h.keys_eq hkind]
  simp only [List.mem_map]
  constructor
  · rintro ⟨entry, hmem, rfl⟩
    exact ⟨entry, hmem, rfl⟩
  · rintro ⟨entry, hmem, hkey⟩
    cases hkey
    exact ⟨entry, hmem, rfl⟩

theorem values_model (h : c.Formed) : c.model.values = c.memberValues := by
  rw [h.memberValues_eq]
  cases hkind : c.kind with
  | list => rw [h.model_list hkind, Model.values]
  | map =>
    rw [model_map hkind, Model.values, List.map_filterMap, ← List.filterMap_eq_map]
    refine List.filterMap_congr fun x hx => ?_
    obtain ⟨key, hlabel⟩ := h.label_eq_entry hkind hx
    simp [Held.entry?, hlabel]
  | user name =>
    rw [h.model_user hkind, Model.values, List.map_map]
    rfl

/-- The model of a container is a proper one. -/
theorem proper_model (h : c.Formed) : c.model.Proper := by
  cases hkind : c.kind with
  | list =>
    rw [h.model_list hkind]
    trivial
  | map =>
    rw [model_map hkind]
    have hnodup := h.nodup_labels hkind
    rw [← h.keys_eq hkind] at hnodup
    refine List.Nodup.of_map Label.entry ?_
    rwa [List.map_map]
  | user name =>
    rw [h.model_user hkind]
    have hnodes : (c.roster.map fun x => (x.node, x.value)).map (·.1) = c.roster.map (·.node) := by
      rw [List.map_map]
      rfl
    refine ⟨hnodes ▸ h.nodup_nodes, fun l hl => ?_⟩
    rw [hnodes]
    exact h.ends_of_mem_linkage hl

/-- The list of links is that of the model, without what is attached. -/
theorem links_eq (h : c.Formed) :
    c.links = c.linkage.map fun l => (l.source, l.target, l.name) := by
  let row (view : EdgeView) : Option (Nat × Nat × Nat × String) :=
    view.link?.map fun l => (view.tie.seq, l.source, l.target, l.name)
  have hseq {view : EdgeView} {a} (ha : row view = some a) : a.1 = view.tie.seq := by
    obtain ⟨l, -, rfl⟩ := Option.map_eq_some_iff.1 ha
    rfl
  have hsorted : (c.timeline.filterMap row).Pairwise fun a b => a.1 ≤ b.1 := by
    refine h.timed.pairwise_timeline.filterMap _ fun view view' hbefore a ha b hb => ?_
    rw [hseq ha, hseq hb]
    exact Nat.le_of_lt hbefore
  -- sorting before or after the links are picked is the same, as no two edges have one number
  have hpick (f : Nat × Edge Tie → Option (Nat × Nat × Nat × String))
      (hf : ∀ p, f p = row ⟨p.1, p.2.source, p.2.target, p.2.weight⟩) :
      (c.graph.edgeList.filterMap f).mergeSort (fun a b => a.1 ≤ b.1) =
        c.timeline.filterMap row := by
    have hrows : c.graph.edgeList.filterMap f =
        (c.graph.edgeList.map fun p => ⟨p.1, p.2.source, p.2.target, p.2.weight⟩).filterMap row := by
      rw [List.filterMap_map]
      exact List.filterMap_congr fun p _ => hf p
    have hperm : (c.timeline.filterMap row).Perm (c.graph.edgeList.filterMap f) := by
      rw [hrows]
      exact (List.mergeSort_perm _ _).filterMap row
    refine List.Perm.eq_of_pairwise ?_ (pairwise_mergeSort_key _ _) hsorted
      ((List.mergeSort_perm _ _).trans hperm.symm)
    intro a b ha hb hab hba
    obtain ⟨view, hview, hrow⟩ :=
      List.mem_filterMap.1 (hperm.mem_iff.2 (List.mem_mergeSort.1 ha))
    obtain ⟨view', hview', hrow'⟩ := List.mem_filterMap.1 hb
    have hsame : view = view' := h.timed.view_eq (mem_timeline.1 hview) (mem_timeline.1 hview')
      (by rw [← hseq hrow, ← hseq hrow']; exact Nat.le_antisymm hab hba)
    rw [hsame, hrow', Option.some.injEq] at hrow
    exact hrow.symm
  unfold links
  dsimp only
  rw [hpick _ fun p => ?_, linkage, List.map_filterMap, List.map_filterMap]
  · refine List.filterMap_congr fun view _ => ?_
    rw [Option.map_map]
    rfl
  · simp only [row, EdgeView.link?]
    cases p.2.weight.label <;> rfl

end Formed

end Container

end GraphLang
