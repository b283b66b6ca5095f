import GraphLang.Proofs.Bridge.SlotGraph
import GraphLang.Proofs.Bridge.Values
import GraphLang.Proofs.Container.LinkPaths
import GraphLang.Proofs.Container.Steps
import GraphLang.Proofs.Store.DeepCopy
import GraphLang.Rule.Builtin

/-!
# Containers across a bridge

Containers correspond across a bridge if they have the same members and links in the same slots,
with corresponding values, and corresponding rules. Queries then show the same numbers, keys and
sizes and corresponding values, and corresponding changes keep the correspondence.
-/

namespace GraphLang

variable {B C : Bridge}

/-- Members with corresponding values and the same notes. -/
structure Member.Across (B : Bridge) (m m' : Member) : Prop where
  value : m.value.Across B m'.value
  notes : m'.notes = m.notes

/-- Edges with the same label and number. Links carry corresponding values. -/
structure Tie.Across (B : Bridge) (t t' : Tie) : Prop where
  label : t'.label = t.label
  seq : t'.seq = t.seq
  data : t.label.isLink = true → Span.maybe Value.Across B t.data t'.data

/-- Containers of one shape with corresponding values and rules. -/
structure Container.Across (B : Bridge) (c c' : Container) : Prop where
  kind : c'.kind = c.kind
  graph : SlotGraph.SameShape (Member.Across B) (Tie.Across B) c.graph c'.graph
  rules : Span.each Rule.Across B c.rules c'.rules
  frozen : c'.frozen = c.frozen
  nextSeq : c'.nextSeq = c.nextSeq

theorem Member.grows_across : Span.Grows Member.Across :=
  fun h _ _ hm => ⟨hm.value.mono h, hm.notes⟩

theorem Tie.grows_across : Span.Grows Tie.Across :=
  fun h _ _ ht => ⟨ht.label, ht.seq, fun hlink => Value.grows_across.maybe h (ht.data hlink)⟩

namespace Container

theorem grows_across : Span.Grows Container.Across := fun h _ _ hc =>
  ⟨hc.kind, hc.graph.mono (Member.grows_across h) (Tie.grows_across h),
    Rule.grows_across.each h hc.rules, hc.frozen, hc.nextSeq⟩

/-- The edges have the same numbers and ends and correspond. -/
structure EdgeView.Across (B : Bridge) (v v' : EdgeView) : Prop where
  id : v'.id = v.id
  source : v'.source = v.source
  target : v'.target = v.target
  tie : v.tie.Across B v'.tie

/-- The same key with corresponding values. -/
def EntryAcross (B : Bridge) (e e' : Key × Value) : Prop := e'.1 = e.1 ∧ e.2.Across B e'.2

/-- The same node with corresponding values. -/
def NodeAcross (B : Bridge) (e e' : Nat × Value) : Prop := e'.1 = e.1 ∧ e.2.Across B e'.2

namespace Across

variable {c c' : Container}

/-! ### Queries -/

theorem hasNode (h : c.Across B c') (n : Nat) : c'.graph.hasNode n = c.graph.hasNode n :=
  h.graph.hasNode n

theorem value? (h : c.Across B c') (n : Nat) :
    Option.Rel (Value.Across B) (c.value? n) (c'.value? n) :=
  (h.graph.node? n).map Member.Across.value

theorem viewed {edges edges' : List (Nat × Edge Tie)}
    (h : List.Forall₂ (SlotGraph.NumberedAlike (Tie.Across B)) edges edges') :
    List.Forall₂ (EdgeView.Across B) (Container.viewed edges) (Container.viewed edges') := by
  refine (h.map fun {p p'} hp => ?_).mergeSort fun hv hv' => ?_
  · exact ⟨hp.1, hp.2.source, hp.2.target, hp.2.weight⟩
  · rw [hv.tie.seq, hv'.tie.seq]

theorem edgesFrom (h : c.Across B c') (n : Nat) :
    List.Forall₂ (EdgeView.Across B) (c.edgesFrom n) (c'.edgesFrom n) := by
  unfold Container.edgesFrom
  rw [h.hasNode]
  split
  · exact viewed (h.graph.outgoing n)
  · exact .nil

theorem edgesTo (h : c.Across B c') (n : Nat) :
    List.Forall₂ (EdgeView.Across B) (c.edgesTo n) (c'.edgesTo n) := by
  unfold Container.edgesTo
  rw [h.hasNode]
  split
  · exact viewed (h.graph.incoming n)
  · exact .nil

theorem members (h : c.Across B c') : c'.members = c.members :=
  ((h.edgesFrom root).filter fun hv => by rw [hv.tie.label]).map_eq EdgeView.Across.target

theorem size (h : c.Across B c') : c'.size = c.size := congrArg List.length h.members

theorem elementNodes (h : c.Across B c') : c'.elementNodes = c.elementNodes :=
  ((h.edgesFrom root).filter fun hv => by rw [hv.tie.label]).map_eq EdgeView.Across.target

theorem elementNode? (h : c.Across B c') (i : Nat) : c'.elementNode? i = c.elementNode? i := by
  rw [Container.elementNode?, h.elementNodes, Container.elementNode?]

theorem entryNode? (h : c.Across B c') (key : Key) : c'.entryNode? key = c.entryNode? key := by
  unfold Container.entryNode?
  have hfound := (h.edgesFrom root).find? (p := fun v => v.tie.label == .entry key)
    (q := fun v => v.tie.label == .entry key) fun hv => by rw [hv.tie.label]
  obtain ⟨hv, hv'⟩ | ⟨v, v', hv, hv', hacross⟩ := hfound.none_or_some <;> rw [hv, hv']
  exact congrArg some hacross.target

/-- The values of the same nodes correspond. -/
theorem valuesOf (h : c.Across B c') (ns : List Nat) :
    Span.each Value.Across B (ns.filterMap c.value?) (ns.filterMap c'.value?) := by
  refine (List.forall₂_same.2 fun _ _ => rfl : List.Forall₂ Eq ns ns).filterMap ?_
  rintro n _ rfl
  exact h.value? n

theorem memberValues (h : c.Across B c') :
    Span.each Value.Across B c.memberValues c'.memberValues := by
  rw [Container.memberValues, Container.memberValues, h.members]
  exact h.valuesOf _

theorem elements (h : c.Across B c') : Span.each Value.Across B c.elements c'.elements := by
  rw [Container.elements, Container.elements, h.elementNodes]
  exact h.valuesOf _

theorem element? (h : c.Across B c') (i : Nat) :
    Option.Rel (Value.Across B) (c.element? i) (c'.element? i) := by
  rw [Container.element?, Container.element?, h.elementNode?]
  cases c.elementNode? i with
  | none => exact .none
  | some n => exact h.value? n

theorem entry? (h : c.Across B c') (key : Key) :
    Option.Rel (Value.Across B) (c.entry? key) (c'.entry? key) := by
  rw [Container.entry?, Container.entry?, h.entryNode?]
  cases c.entryNode? key with
  | none => exact .none
  | some n => exact h.value? n

theorem entries (h : c.Across B c') :
    List.Forall₂ (EntryAcross B) c.entries c'.entries := by
  refine (h.edgesFrom root).filterMap fun {v v'} hv => ?_
  rw [hv.tie.label, hv.target]
  cases v.tie.label with
  | entry key => exact (h.value? v.target).map fun hvalue => ⟨rfl, hvalue⟩
  | _ => exact .none

theorem keys (h : c.Across B c') : c'.keys = c.keys := h.entries.map_eq And.left

/-- The members with their values. -/
theorem numbered (h : c.Across B c') : List.Forall₂ (NodeAcross B)
    (c.members.filterMap fun n => (c.value? n).map fun v => (n, v))
    (c'.members.filterMap fun n => (c'.value? n).map fun v => (n, v)) := by
  rw [h.members]
  refine (List.forall₂_same.2 fun _ _ => rfl : List.Forall₂ Eq _ _).filterMap ?_
  rintro n _ rfl
  exact (h.value? n).map fun hvalue => ⟨rfl, hvalue⟩

theorem payloadGraphs (h : c.Across B c') : Store.payloadGraphs c' = Store.payloadGraphs c := by
  rw [Store.payloadGraphs, Store.payloadGraphs, h.graph.nodeIds]
  refine List.filterMap_congr fun n _ => ?_
  obtain ⟨hv, hv'⟩ | ⟨v, v', hv, hv', hvalue⟩ := (h.value? n).none_or_some <;>
    rw [payload?, payload?, hv, hv']
  cases hvalue <;> rfl

/-! ### Links -/

theorem linkRoots (h : c.Across B c') : c'.linkRoots = c.linkRoots := by
  unfold Container.linkRoots
  rw [h.members]
  refine List.filter_congr fun n _ => ?_
  refine (h.graph.incoming n).all_eq fun hp => ?_
  dsimp only
  rw [hp.2.weight.label]

theorem linkTargets (h : c.Across B c') (n : Nat) : c'.linkTargets n = c.linkTargets n := by
  refine (h.graph.outgoing n).filterMap_eq fun hp => ?_
  dsimp only
  rw [hp.2.weight.label, hp.2.target]

theorem next (h : c.Across B c') : c'.Next = c.Next := by
  funext n m
  rw [Next, h.linkTargets, Next]

theorem linkPath (h : c.Across B c') (source target : Nat) :
    c'.linkPath source target = c.linkPath source target := by
  rw [Bool.eq_iff_iff, linkPath_iff_next, linkPath_iff_next, h.next]

theorem hasLinkCycle (h : c.Across B c') : c'.hasLinkCycle = c.hasLinkCycle := by
  rw [Bool.eq_iff_iff, hasLinkCycle_iff_next, hasLinkCycle_iff_next, h.next, h.members]

theorem orphanCount (h : c.Across B c') (n : Nat) : orphanCount c' n = orphanCount c n := by
  unfold GraphLang.orphanCount
  refine (List.Forall₂.length_eq ((h.edgesFrom n).filter fun {v v'} hv => ?_)).symm
  rw [hv.tie.label, hv.target]
  refine congrArg _ ((h.edgesTo v.target).all_eq fun hw => ?_)
  rw [hw.tie.label, hw.source]

/-! ### Conditions on changes -/

variable {m m' : Mutation} {ε : Type}

theorem grows (h : c.Across B c') (hm : m.Across B m') : m'.grows c' = m.grows c := by
  cases hm with
  | put key => exact congrArg Option.isNone (h.entryNode? key)
  | _ => rfl

theorem replaced? (h : c.Across B c') (hm : m.Across B m') : m'.replaced? c' = m.replaced? c := by
  cases hm with
  | set i => exact h.elementNode? i
  | put key => exact h.entryNode? key
  | _ => rfl

theorem nodeAt (h : c.Across B c') (i : Nat) :
    (c'.nodeAt i : Except (MutationError ε) Nat) = c.nodeAt i := by
  rw [Container.nodeAt, h.elementNode?, h.size, Container.nodeAt]

theorem nodeUnder (h : c.Across B c') (key : Key) :
    (c'.nodeUnder key : Except (MutationError ε) Nat) = c.nodeUnder key := by
  rw [Container.nodeUnder, h.entryNode?, Container.nodeUnder]

theorem expectMember (h : c.Across B c') (n : Nat) :
    (c'.expectMember n : Except (MutationError ε) Unit) = c.expectMember n := by
  rw [Container.expectMember, h.hasNode, Container.expectMember]

theorem preflight (h : c.Across B c') (hm : m.Across B m') :
    (c'.preflight m' : Except (MutationError ε) Unit) = c.preflight m := by
  have hlist : (c'.expectList : Except (MutationError ε) Unit) = c.expectList := by
    rw [Container.expectList, h.kind, Container.expectList]
  have hmap : (c'.expectMap : Except (MutationError ε) Unit) = c.expectMap := by
    rw [Container.expectMap, h.kind, Container.expectMap]
  have huser : (c'.expectUser : Except (MutationError ε) Unit) = c.expectUser := by
    rw [Container.expectUser, h.kind, Container.expectUser]
  cases hm with
  | remove target =>
    cases target <;> simp only [Container.preflight, hlist, hmap, huser, h.nodeAt, h.nodeUnder,
      h.expectMember]
  | _ => simp only [Container.preflight, hlist, hmap, huser, h.nodeAt, h.expectMember]

theorem checkSingleRoot (h : c.Across B c') (hm : m.Across B m') :
    checkSingleRoot c' m' = checkSingleRoot c m := by
  unfold GraphLang.checkSingleRoot
  rw [h.kind, h.linkRoots]
  cases hm with
  | remove target => cases target <;> simp only [h.orphanCount]
  | addMember hv parent => cases parent <;> rfl
  | _ => rfl

/-! ### Changes -/

variable {v v' : Value}

theorem new (kind : Kind) : (Container.new kind).Across B (.new kind) where
  kind := rfl
  graph := (SlotGraph.SameShape.empty.addNode ⟨.nil, rfl⟩).2
  rules := .nil
  frozen := rfl
  nextSeq := rfl

theorem connect (h : c.Across B c') (source target : Nat) (label : Label) {d d' : Option Value}
    (hd : label.isLink = true → Span.maybe Value.Across B d d') :
    (c'.connect source target label d').1 = (c.connect source target label d).1 ∧
      (c.connect source target label d).2.Across B (c'.connect source target label d').2 := by
  have htie : Tie.Across B ⟨label, d, c.nextSeq⟩ ⟨label, d', c'.nextSeq⟩ := ⟨rfl, h.nextSeq, hd⟩
  have hedge := h.graph.addEdge source target htie
  exact ⟨hedge.1, h.kind, hedge.2, h.rules, h.frozen, congrArg (· + 1) h.nextSeq⟩

theorem attach (h : c.Across B c') (label : Label) (hv : v.Across B v') :
    (c'.attach label v').1 = (c.attach label v).1 ∧
      (c.attach label v).2.Across B (c'.attach label v').2 := by
  have hmember : Member.Across B ⟨v, none⟩ ⟨v', none⟩ := ⟨hv, rfl⟩
  have hnode := h.graph.addNode hmember
  have hadded : Container.Across B { c with graph := (c.graph.addNode ⟨v, none⟩).2 }
      { c' with graph := (c'.graph.addNode ⟨v', none⟩).2 } :=
    ⟨h.kind, hnode.2, h.rules, h.frozen, h.nextSeq⟩
  refine ⟨hnode.1, ?_⟩
  unfold Container.attach
  dsimp only
  rw [hnode.1]
  exact (hadded.connect root _ label fun _ => .none).2

theorem putValue (h : c.Across B c') (n : Nat) (hv : v.Across B v') :
    (c.putValue n v).Across B (c'.putValue n v') where
  kind := h.kind
  graph := h.graph.modifyNode n fun hm => ⟨hv, hm.notes⟩
  rules := h.rules
  frozen := h.frozen
  nextSeq := h.nextSeq

theorem removeNode (h : c.Across B c') (n : Nat) :
    Container.Across B { c with graph := c.graph.removeNode n }
      { c' with graph := c'.graph.removeNode n } where
  kind := h.kind
  graph := h.graph.removeNode n
  rules := h.rules
  frozen := h.frozen
  nextSeq := h.nextSeq

theorem withRules (h : c.Across B c') {rules rules' : List Rule}
    (hrules : Span.each Rule.Across B rules rules') :
    Container.Across B { c with rules := rules } { c' with rules := rules' } where
  kind := h.kind
  graph := h.graph
  rules := hrules
  frozen := h.frozen
  nextSeq := h.nextSeq

theorem freeze (h : c.Across B c') : c.freeze.Across B c'.freeze where
  kind := h.kind
  graph := h.graph
  rules := h.rules
  frozen := rfl
  nextSeq := h.nextSeq

theorem putEntry (h : c.Across B c') (key : Key) (hv : v.Across B v') :
    (c.putEntry key v).Across B (c'.putEntry key v') := by
  unfold Container.putEntry
  rw [h.entryNode?]
  split
  · exact h.putValue _ hv
  · exact (h.attach _ hv).2

theorem ofElements {vs vs' : List Value} (h : Span.each Value.Across B vs vs') :
    (Container.ofElements vs).Across B (.ofElements vs') := by
  have hfold {c c' : Container} (hacross : c.Across B c') :
      Container.Across B (vs.foldl (fun c v => (c.attach .element v).2) c)
        (vs'.foldl (fun c v => (c.attach .element v).2) c') := by
    induction h generalizing c c' with
    | nil => exact hacross
    | cons hv _ ih => exact ih (hacross.attach .element hv).2
  exact hfold (new .list)

theorem ofEntries {es es' : List (Key × Value)} (h : List.Forall₂ (EntryAcross B) es es') :
    (Container.ofEntries es).Across B (.ofEntries es') := by
  have hfold {c c' : Container} (hacross : c.Across B c') :
      Container.Across B (es.foldl (fun c e => c.putEntry e.1 e.2) c)
        (es'.foldl (fun c e => c.putEntry e.1 e.2) c') := by
    induction h generalizing c c' with
    | nil => exact hacross
    | cons he _ ih =>
      refine ih ?_
      dsimp only
      rw [he.1]
      exact hacross.putEntry _ he.2
  exact hfold (new .map)

/-- Copies of corresponding containers correspond where both runs know what the nodes of the copies
hold. -/
theorem renamed (h : c.Across B c') (hBC : B ≤ C) {base : Nat} {sources : List GraphId}
    (hshares : ∀ g, B.shares g → C.shares (Store.freshId base sources g)) :
    (Store.renamed base sources c).Across C (Store.renamed base sources c') where
  kind := h.kind
  graph := by
    refine (h.graph.mono id (Tie.grows_across hBC)).mapNodes ?_
    rintro ⟨value, notes⟩ ⟨value', notes'⟩ ⟨hvalue, hnotes⟩
    have hlarger := Value.Across.mono hvalue hBC
    dsimp only at hvalue hnotes hlarger ⊢
    cases hvalue with
    | graph hg => exact ⟨.graph (hshares _ hg), hnotes⟩
    | _ => exact ⟨hlarger, hnotes⟩
  rules := Rule.grows_across.each hBC h.rules
  frozen := rfl
  nextSeq := h.nextSeq

end Across

/-! ### Containers that hold nothing out of sight -/

/-- The edges hold the members and link them, and the root holds nothing. So whatever the container
holds can be seen in its members, its links and its rules. -/
structure Neat (c : Container) : Prop where
  formed : c.Formed
  value?_root : c.value? root = some .nil

/-- Copying with other containers in the place of those that nodes hold changes no edges. -/
theorem Formed.renamed {c : Container} (h : c.Formed) (base : Nat) (sources : List GraphId) :
    (Store.renamed base sources c).Formed := by
  have hsound : (Store.renamed base sources c).graph.Sound := h.timed.sound.mapNodes _
  have hedges (e : Nat) : (Store.renamed base sources c).graph.edge? e = c.graph.edge? e := rfl
  have htimed : (Store.renamed base sources c).Timed :=
    ⟨hsound, fun he => h.timed.seq_lt (hedges _ ▸ he), fun he he' =>
      h.timed.seq_inj (hedges _ ▸ he) (hedges _ ▸ he')⟩
  have htimeline : (Store.renamed base sources c).timeline = c.timeline :=
    h.timed.timeline_of_edges hsound hedges
  have hhas (n : Nat) : (Store.renamed base sources c).graph.hasNode n = c.graph.hasNode n := by
    rw [Bool.eq_iff_iff, ← value?_eq_some_iff, Store.value?_renamed, ← value?_eq_some_iff]
    simp
  have hroster : (Store.renamed base sources c).roster =
      c.roster.map fun x => { x with value := x.value.moved (Store.freshId base sources) } := by
    rw [htimed.roster_eq, htimeline, h.timed.roster_eq, List.map_filterMap]
    refine List.filterMap_congr fun view _ => ?_
    rw [held?, held?, Store.value?_renamed, Option.map_map, Option.map_map]
    rfl
  have hnodes : (Store.renamed base sources c).roster.map (·.node) = c.roster.map (·.node) := by
    rw [hroster, List.map_map]
    rfl
  have hlabels : (Store.renamed base sources c).roster.map (·.label) = c.roster.map (·.label) := by
    rw [hroster, List.map_map]
    rfl
  exact {
    timed := htimed
    hasNode_root := by rw [hhas, h.hasNode_root]
    target_ne_root := htimeline ▸ h.target_ne_root
    fits := htimeline ▸ h.fits
    isLink := htimeline ▸ h.isLink
    listed := fun n hn hnode => hnodes ▸ h.listed n hn (hhas n ▸ hnode)
    nodup_nodes := hnodes ▸ h.nodup_nodes
    nodup_labels := fun hkind => hlabels ▸ h.nodup_labels hkind }

namespace Neat

variable {c : Container} {v : Value}

theorem new (kind : Kind) : (Container.new kind).Neat := ⟨.new kind, rfl⟩

theorem attach (h : c.Neat) {label : Label} (hfits : c.kind.fits label = true)
    (hkey : c.kind = .map → label ∉ c.roster.map (·.label)) : (c.attach label v).2.Neat := by
  refine ⟨h.formed.attach label v hfits hkey, ?_⟩
  have hne : root ≠ (c.attach label v).1 := fun heq => by
    have hfresh := hasNode_fst_attach label v h.formed.timed.sound
    rw [← heq, h.formed.hasNode_root] at hfresh
    cases hfresh
  rw [value?_attach label v h.formed.timed.sound, if_neg hne, h.value?_root]

theorem putValue (h : c.Neat) {n : Nat} (hn : n ≠ root) : (c.putValue n v).Neat := by
  refine ⟨h.formed.putValue n v, ?_⟩
  rw [value?_putValue, if_neg hn.symm, h.value?_root]

theorem removeNode (h : c.Neat) {n : Nat} (hn : n ≠ root) :
    Neat { c with graph := c.graph.removeNode n } := by
  refine ⟨h.formed.removeNode hn, ?_⟩
  rw [value?_removeNode, if_neg hn.symm, h.value?_root]

theorem connect (h : c.Neat) {source target : Nat} (name : String) (data : Option Value)
    (hsource : source ∈ c.roster.map (·.node)) (htarget : target ∈ c.roster.map (·.node)) :
    (c.connect source target (.link name) data).2.Neat := by
  refine ⟨h.formed.connect name data hsource htarget, ?_⟩
  rw [value?_connect, h.value?_root]

theorem withRules (h : c.Neat) (rules : List Rule) : Neat { c with rules := rules } :=
  ⟨h.formed.withRules rules, h.value?_root⟩

theorem freeze (h : c.Neat) : c.freeze.Neat := ⟨h.formed.freeze, h.value?_root⟩

/-- The nodes that queries give are members. -/
theorem ne_root_of_entryNode? (h : c.Neat) {key : Key} {n : Nat}
    (hn : c.entryNode? key = some n) : n ≠ root := by
  obtain ⟨x, hx, -, hnode⟩ | ⟨-, hnode⟩ := h.formed.nodeUnder_cases key
  · cases hnode.symm.trans hn
    exact (h.formed.mem_nodes.1 (List.mem_map_of_mem hx)).1
  · cases hnode.symm.trans hn

theorem ne_root_of_elementNode? (h : c.Neat) {i n : Nat} (hn : c.elementNode? i = some n) :
    n ≠ root := by
  obtain ⟨view, hview, rfl⟩ := List.mem_map.1 (List.mem_of_getElem? hn)
  have hmem := (List.mem_filter.1 hview).1
  rw [h.formed.timed.edgesFrom_eq] at hmem
  exact h.formed.target_ne_root view (List.mem_filter.1 hmem).1

theorem ne_root_of_mem_members (h : c.Neat) {n : Nat} (hn : n ∈ c.members) : n ≠ root := by
  rw [h.formed.members_eq] at hn
  exact (h.formed.mem_nodes.1 hn).1

theorem putEntry (h : c.Neat) (hkind : c.kind = .map) (key : Key) : (c.putEntry key v).Neat := by
  unfold Container.putEntry
  obtain ⟨x, hx, hlabel, hnode⟩ | ⟨hkey, hnode⟩ := h.formed.nodeUnder_cases key <;> rw [hnode]
  · exact h.putValue (h.ne_root_of_entryNode? hnode)
  · exact h.attach (by rw [hkind]; rfl) fun _ => hkey

theorem ofElements (vs : List Value) : (Container.ofElements vs).Neat := by
  have hfold {c : Container} (h : c.Neat) (hkind : c.kind = .list) :
      Neat (vs.foldl (fun c v => (c.attach .element v).2) c) := by
    induction vs generalizing c with
    | nil => exact h
    | cons v vs ih =>
      refine ih (h.attach (by rw [hkind]; rfl) fun hmap => ?_) hkind
      rw [hkind] at hmap
      cases hmap
  exact hfold (new .list) rfl

theorem ofEntries (es : List (Key × Value)) : (Container.ofEntries es).Neat := by
  have hfold {c : Container} (h : c.Neat) (hkind : c.kind = .map) :
      Neat (es.foldl (fun c e => c.putEntry e.1 e.2) c) := by
    induction es generalizing c with
    | nil => exact h
    | cons e es ih =>
      refine ih (h.putEntry hkind e.1) ?_
      dsimp only [Container.putEntry]
      split
      · exact hkind
      · exact hkind
  exact hfold (new .map) rfl

theorem renamed (h : c.Neat) (base : Nat) (sources : List GraphId) :
    (Store.renamed base sources c).Neat := by
  refine ⟨h.formed.renamed base sources, ?_⟩
  rw [Store.value?_renamed, h.value?_root]
  rfl

/-! ### What such a container holds -/

theorem value_mem (h : c.Neat) {n : Nat} {m : Member} (hm : c.graph.node? n = some m) :
    m.value = .nil ∨ m.value ∈ c.heldValues := by
  have hvalue : c.value? n = some m.value := by rw [value?, hm]; rfl
  by_cases hn : n = root
  · subst hn
    exact Or.inl (Option.some.inj (hvalue.symm.trans h.value?_root))
  · have hnode : n ∈ c.roster.map (·.node) :=
      h.formed.mem_nodes.2 ⟨hn, value?_eq_some_iff.1 ⟨_, hvalue⟩⟩
    have hmember : m.value ∈ c.memberValues :=
      List.mem_filterMap.2 ⟨n, h.formed.members_eq ▸ hnode, hvalue⟩
    exact Or.inr (List.mem_append_left _ (List.mem_append_left _ hmember))

theorem data_mem (h : c.Neat) {e : Nat} {edge : Edge Tie} (he : c.graph.edge? e = some edge)
    (hlink : edge.weight.label.isLink = true) (hdata : edge.weight.data = some v) :
    v ∈ c.heldValues := by
  obtain ⟨source, target, tie⟩ := edge
  have hview : ⟨e, source, target, tie⟩ ∈ c.timeline := mem_timeline.2 he
  have hsource : source ≠ root := fun hroot => by
    have hmember := Kind.not_isLink_of_fits (h.formed.fits _ hview hroot)
    cases hlink.symm.trans hmember
  have hnode := h.formed.mem_nodes.2 ⟨hsource, h.formed.timed.sound.hasNode_source he⟩
  have hfrom : ⟨e, source, target, tie⟩ ∈ c.edgesFrom source := by
    rw [h.formed.timed.edgesFrom_eq]
    exact List.mem_filter.2 ⟨hview, beq_self_eq_true source⟩
  refine List.mem_append_left _ (List.mem_append_right _ ?_)
  exact List.mem_flatMap.2 ⟨source, h.formed.members_eq ▸ hnode,
    List.mem_filterMap.2 ⟨_, hfrom, hdata⟩⟩

/-- A container corresponds to itself across a bridge if the values that it holds do. -/
theorem across_self (h : c.Neat) (hself : c.Across B c)
    (hvalues : ∀ v ∈ c.heldValues, v.Across B v → v.Across C v) : c.Across C c where
  kind := rfl
  graph := by
    refine .of_self (fun n m hm => ⟨?_, rfl⟩) fun e edge he => ⟨rfl, rfl, fun hlink => ?_⟩
    · have hacross := hself.graph.node? n
      rw [hm] at hacross
      cases hacross with
      | some hacross =>
        obtain hnil | hmem := h.value_mem hm
        · rw [hnil]
          exact .nil
        · exact hvalues _ hmem hacross.value
    · have hacross := hself.graph.edge? e
      rw [he] at hacross
      cases hacross with
      | some hacross =>
        have hmaybe := hacross.weight.data hlink
        cases hdata : edge.weight.data with
        | none => exact .none
        | some v =>
          rw [hdata] at hmaybe
          cases hmaybe with
          | some hv => exact .some (hvalues v (h.data_mem he hlink hdata) hv)
  rules := by
    refine List.forall₂_same.2 fun rule hrule => ?_
    refine (List.forall₂_same.1 hself.rules rule hrule).self fun v hv => hvalues v ?_
    exact List.mem_append_right _ (List.mem_flatMap.2 ⟨rule, hrule, hv⟩)
  frozen := rfl
  nextSeq := rfl

end Neat

end Container

end GraphLang
