import GraphLang.Proofs.Rule.Forming
import GraphLang.Proofs.Rule.RootedGraph
import Mathlib.Data.List.Nodup

/-!
# How exact the rule about roots is

The rule about roots tells from a user graph as it is how many members without incoming links a
change will leave. For a new member and for a new link it is right. For the removal of a member it
counts links where it should count members: a member to which several links lead from the removed
one, and from nowhere else, counts several times, and so does the removed one if only links from
itself lead to it. And it lets a removal pass that leaves members and no root among them.
-/

namespace GraphLang

open Container (Link Held Applied)
open Relation (ReflTransGen TransGen)

variable {σ ε : Type}

namespace Container

variable {c c' : Container} {n m : Nat} {name : String} {s : Store} {mutation : Mutation}
  {a : Applied}

/-- There are no members, or exactly one of them has no incoming links. -/
def Rooted (c : Container) : Prop := c.members = [] ∨ c.linkRoots.length = 1

/-- How many links lead from one member to another. -/
def linkCount (c : Container) (n m : Nat) : Nat :=
  c.linkage.countP fun l => l.source == n && l.target == m

/-- Whether links to a member come from nowhere else. -/
def onlyFrom (c : Container) (n m : Nat) : Bool :=
  c.linkage.all fun l => l.target != m || l.source == n

/-- The members that lose their last link with a removed one, as often as links lead to them. -/
def orphans (c : Container) (n : Nat) : List Nat :=
  (c.linkage.filter fun l => l.source == n && c.onlyFrom n l.target).map (·.target)

/-- Links from one member alone lead to another, and there are several of them, or they lead back to
that one. -/
def Miscounts (c : Container) (n : Nat) : Prop :=
  ∃ m, c.Links n m ∧ (∀ x, c.Links x m → x = n) ∧ (m = n ∨ 1 < c.linkCount n m)

/-! ### Counting links -/

theorem onlyFrom_iff : c.onlyFrom n m = true ↔ ∀ x, c.Links x m → x = n := by
  simp only [onlyFrom, List.all_eq_true, Bool.or_eq_true, bne_iff_ne, beq_iff_eq, links_iff]
  constructor
  · rintro hall x ⟨l, hl, rfl, rfl⟩
    exact (hall l hl).resolve_left fun hne => hne rfl
  · intro honly l hl
    by_cases htarget : l.target = m
    · exact Or.inr (honly l.source ⟨l, hl, rfl, htarget⟩)
    · exact Or.inl htarget

theorem mem_orphans_iff : m ∈ c.orphans n ↔ c.Links n m ∧ ∀ x, c.Links x m → x = n := by
  rw [orphans, List.mem_map, ← onlyFrom_iff, links_iff]
  constructor
  · rintro ⟨l, hl, rfl⟩
    obtain ⟨hmem, hl⟩ := List.mem_filter.1 hl
    rw [Bool.and_eq_true, beq_iff_eq] at hl
    exact ⟨⟨l, hmem, hl.1, rfl⟩, hl.2⟩
  · rintro ⟨⟨l, hl, rfl, rfl⟩, honly⟩
    exact ⟨l, List.mem_filter.2 ⟨hl, by rw [honly, beq_self_eq_true]; rfl⟩, rfl⟩

theorem count_orphans (honly : ∀ x, c.Links x m → x = n) :
    (c.orphans n).count m = c.linkCount n m := by
  rw [orphans, List.count_eq_countP, List.countP_map, List.countP_filter, linkCount]
  refine List.countP_congr fun l _ => ?_
  simp only [Function.comp_apply, Bool.and_eq_true, beq_iff_eq]
  constructor
  · rintro ⟨htarget, hsource, -⟩
    exact ⟨hsource, htarget⟩
  · rintro ⟨hsource, htarget⟩
    exact ⟨htarget, hsource, htarget ▸ onlyFrom_iff.2 honly⟩

theorem not_miscounts_iff : ¬c.Miscounts n ↔ (c.orphans n).Nodup ∧ n ∉ c.orphans n := by
  constructor
  · intro hnot
    refine ⟨List.nodup_iff_count_le_one.2 fun m => ?_, fun hmem => ?_⟩
    · by_contra hmany
      have htwice : 1 < (c.orphans n).count m := Nat.lt_of_not_le hmany
      have hmem : m ∈ c.orphans n := List.count_pos_iff.1 (Nat.zero_lt_of_lt htwice)
      obtain ⟨hlinks, honly⟩ := mem_orphans_iff.1 hmem
      rw [count_orphans honly] at htwice
      exact hnot ⟨m, hlinks, honly, Or.inr htwice⟩
    · obtain ⟨hlinks, honly⟩ := mem_orphans_iff.1 hmem
      exact hnot ⟨n, hlinks, honly, Or.inl rfl⟩
  · rintro ⟨hnodup, hself⟩ ⟨m, hlinks, honly, rfl | hmany⟩
    · exact hself (mem_orphans_iff.2 ⟨hlinks, honly⟩)
    · rw [← count_orphans honly] at hmany
      exact Nat.not_lt.2 (List.nodup_iff_count_le_one.1 hnodup m) hmany

/-- Whether links to a member come from nowhere else shows in the edges that end at it. -/
theorem Formed.all_edgesTo (h : c.Formed) (hnode : c.graph.hasNode m = true) :
    ((c.edgesTo m).all fun incoming => !incoming.tie.label.isLink || incoming.source == n) =
      c.onlyFrom n m := by
  rw [Bool.eq_iff_iff, onlyFrom_iff, List.all_eq_true, edgesTo, if_pos hnode]
  simp only [mem_viewed, h.timed.sound.mem_incoming_iff]
  constructor
  · rintro hall x ⟨e, edge, hedge, hlink, hsource, htarget⟩
    have hfrom := hall ⟨e, edge.source, edge.target, edge.weight⟩ ⟨hedge, htarget⟩
    rw [hlink, Bool.not_true, Bool.false_or, beq_iff_eq] at hfrom
    exact hsource.symm.trans hfrom
  · rintro honly view ⟨hedge, htarget⟩
    cases hlink : view.tie.label.isLink with
    | false => rfl
    | true =>
      rw [honly view.source ⟨view.id, view.edge, hedge, hlink, rfl, htarget⟩]
      simp

/-- The rule counts each of these members as often as links lead to it. -/
theorem Formed.orphanCount_eq (h : c.Formed) (n : Nat) :
    orphanCount c n = (c.orphans n).length := by
  rw [orphanCount, orphans, List.length_map, h.timed.edgesFrom_eq, List.filter_filter,
    ← List.countP_eq_length_filter, ← List.countP_eq_length_filter, linkage, List.countP_filterMap]
  refine List.countP_congr fun view hview => ?_
  rw [h.all_edgesTo (h.timed.hasNode_target hview), EdgeView.link?]
  cases view.tie.label <;> simp [Label.isLink, and_comm]

/-! ### A member less -/

/-- What a graph is after a member was removed with the links at it. -/
structure Without (c : Container) (n : Nat) (c' : Container) : Prop where
  /-- The other members stay. -/
  nodes : c'.roster.map (·.node) = (c.roster.map (·.node)).filter (· != n)
  /-- The links at other members stay. -/
  linkage : c'.linkage = c.linkage.filter fun l => l.source != n && l.target != n

theorem Without.links_iff (h : c.Without n c') {x y : Nat} :
    c'.Links x y ↔ c.Links x y ∧ x ≠ n ∧ y ≠ n := by
  simp only [Container.links_iff, h.linkage, List.mem_filter, Bool.and_eq_true, bne_iff_ne]
  constructor
  · rintro ⟨l, ⟨hl, hsource, htarget⟩, rfl, rfl⟩
    exact ⟨⟨l, hl, rfl, rfl⟩, hsource, htarget⟩
  · rintro ⟨⟨l, hl, rfl, rfl⟩, hsource, htarget⟩
    exact ⟨l, ⟨hl, hsource, htarget⟩, rfl, rfl⟩

/-- The roots are then the other roots and the members that only links from the removed one led
to. -/
theorem Without.mem_linkRoots_iff (hwithout : c.Without n c') (h : c.Formed) (h' : c'.Formed)
    {r : Nat} : r ∈ c'.linkRoots ↔ r ≠ n ∧ (r ∈ c.linkRoots ∨ r ∈ c.orphans n) := by
  rw [mem_linkRoots h'.timed.sound, mem_linkRoots h.timed.sound, mem_orphans_iff, h'.members_eq,
    hwithout.nodes, List.mem_filter, bne_iff_ne, ← h.members_eq]
  simp only [hwithout.links_iff]
  constructor
  · rintro ⟨⟨hmem, hne⟩, hno⟩
    have honly (x : Nat) (hlinks : c.Links x r) : x = n := by
      by_contra hother
      exact hno x ⟨hlinks, hother, hne⟩
    refine ⟨hne, ?_⟩
    by_cases hlinks : c.Links n r
    · exact Or.inr ⟨hlinks, honly⟩
    · exact Or.inl ⟨hmem, fun x hx => hlinks (honly x hx ▸ hx)⟩
  · rintro ⟨hne, ⟨hmem, hroot⟩ | ⟨hlinks, honly⟩⟩
    · exact ⟨⟨hmem, hne⟩, fun x hx => hroot x hx.1⟩
    · exact ⟨⟨(h.links_mem hlinks).2, hne⟩, fun x hx => hx.2.1 (honly x hx.1)⟩

theorem Formed.nodup_linkRoots (h : c.Formed) : c.linkRoots.Nodup := by
  rw [h.linkRoots_eq]
  exact h.nodup_nodes.filter _

/-- Where no link is counted twice, the rule counts the roots that there will be. -/
theorem Without.length_linkRoots (hwithout : c.Without n c') (h : c.Formed) (h' : c'.Formed)
    (hcounts : ¬c.Miscounts n) :
    c'.linkRoots.length = (c.linkRoots.filter (· != n)).length + orphanCount c n := by
  obtain ⟨hnodup, hself⟩ := not_miscounts_iff.1 hcounts
  rw [h.orphanCount_eq, ← List.length_append]
  refine List.Perm.length_eq ((List.perm_ext_iff_of_nodup h'.nodup_linkRoots ?_).2 fun r => ?_)
  · refine List.nodup_append.2 ⟨h.nodup_linkRoots.filter _, hnodup, ?_⟩
    intro r hr r' hr' heq
    subst heq
    have hroot := ((mem_linkRoots h.timed.sound).1 (List.mem_filter.1 hr).1).2
    exact hroot n (mem_orphans_iff.1 hr').1
  · rw [hwithout.mem_linkRoots_iff h h', List.mem_append, List.mem_filter, bne_iff_ne]
    constructor
    · rintro ⟨hne, hroot | horphan⟩
      · exact Or.inl ⟨hroot, hne⟩
      · exact Or.inr horphan
    · rintro (⟨hroot, hne⟩ | horphan)
      · exact ⟨hne, Or.inl hroot⟩
      · exact ⟨fun heq => hself (heq ▸ horphan), Or.inr horphan⟩

/-- Where a link is counted twice, the rule counts two roots at least. -/
theorem Formed.many_of_miscounts (h : c.Formed) (hrooted : c.Rooted) (hcounts : c.Miscounts n) :
    1 < (c.linkRoots.filter (· != n)).length + orphanCount c n := by
  rw [h.orphanCount_eq]
  obtain ⟨m, hlinks, honly, rfl | hmany⟩ := hcounts
  · -- The member itself is counted, and the root is another one.
    have hone : 0 < (c.orphans m).length :=
      List.length_pos_of_mem (mem_orphans_iff.2 ⟨hlinks, honly⟩)
    have hroots : c.linkRoots.filter (· != m) = c.linkRoots := by
      refine List.filter_eq_self.2 fun r hr => ?_
      have hroot := ((mem_linkRoots h.timed.sound).1 hr).2
      exact bne_iff_ne.2 fun heq => hroot m (heq ▸ hlinks)
    have hsome : c.linkRoots.length = 1 :=
      hrooted.resolve_left (List.ne_nil_of_mem (h.links_mem hlinks).1)
    rw [hroots]
    omega
  · rw [← count_orphans honly] at hmany
    have hlength := List.count_le_length (a := m) (l := c.orphans n)
    omega

theorem checkSingleRoot_remove (hkind : c.kind = .user name) :
    checkSingleRoot c (.remove (.node n)) = .ok () ↔
      (c.linkRoots.filter (· != n)).length + orphanCount c n ≤ 1 := by
  unfold checkSingleRoot
  rw [hkind]
  dsimp only
  split <;> simp <;> omega

/-- The rule lets a removal pass where one root at most will be left, and no link is counted
twice. -/
theorem Without.check_iff (hwithout : c.Without n c') (h : c.Formed) (h' : c'.Formed)
    (hkind : c.kind = .user name) (hrooted : c.Rooted) :
    checkSingleRoot c (.remove (.node n)) = .ok () ↔
      c'.linkRoots.length ≤ 1 ∧ ¬c.Miscounts n := by
  rw [checkSingleRoot_remove hkind]
  by_cases hcounts : c.Miscounts n
  · have hmany := h.many_of_miscounts hrooted hcounts
    exact iff_of_false (Nat.not_le.2 hmany) fun hok => hok.2 hcounts
  · rw [hwithout.length_linkRoots h h' hcounts]
    exact ⟨fun hfew => ⟨hfew, hcounts⟩, fun hok => hok.1⟩

/-- Without cycles, some member is a root. -/
theorem Formed.rooted_iff (h : c.Formed) (hacyclic : ∀ n, ¬TransGen c.Links n n) :
    c.Rooted ↔ c.linkRoots.length ≤ 1 := by
  unfold Rooted
  constructor
  · rintro (hnone | hone)
    · rw [List.length_eq_zero_iff.2 (by rw [linkRoots, hnone, List.filter_nil])]
      exact Nat.zero_le 1
    · exact Nat.le_of_eq hone
  · intro hfew
    by_cases hnone : c.members = []
    · exact Or.inl hnone
    · obtain ⟨n, hn⟩ := List.exists_mem_of_ne_nil _ hnone
      obtain ⟨r, hr, -⟩ := h.exists_root hacyclic hn
      exact Or.inr (Nat.le_antisymm hfew (List.length_pos_of_mem hr))

/-! ### Other changes -/

/-- A removal leaves the other members and the links at them. -/
theorem Formed.without_step (h : c.Formed) (h' : c'.Formed)
    (hstep : c.model.Step (.remove (.node n)) a c'.model) : c.Without n c' := by
  generalize hmodel : c.model = model at hstep
  generalize hmodel' : c'.model = model' at hstep
  cases hstep with
  | removeNode name members links handle old hmem =>
    obtain ⟨hnodes, hlinkage⟩ := h.of_model_user hmodel
    obtain ⟨hnodes', hlinkage'⟩ := h'.of_model_user hmodel'
    constructor
    · rw [hnodes, hnodes', List.filter_map]
      exact congrArg _ (List.filter_congr fun x _ => by rw [Bool.eq_iff_iff]; simp)
    · rw [hlinkage, hlinkage']
      exact List.filter_congr fun l _ => by rw [Bool.eq_iff_iff]; simp

/-- The roots that are left when a link is made. -/
theorem filter_all_append (nodes : List Nat) (links : List Link) (l : Link) :
    (nodes.filter fun n => (links ++ [l]).all (·.target != n)) =
      (nodes.filter fun n => links.all (·.target != n)).filter (· != l.target) := by
  rw [List.filter_filter]
  refine List.filter_congr fun n _ => ?_
  rw [List.all_append, Bool.and_comm]
  simp [bne_comm]

/-- Of a change that removes nobody, the rule tells whether it leaves exactly one root. -/
theorem Formed.check_iff (h : c.Formed) (h' : c'.Formed) (hkind : c.kind = .user name)
    (hrooted : c.Rooted) (hstep : c.model.Step mutation a c'.model)
    (hother : ∀ n, mutation ≠ .remove (.node n)) :
    checkSingleRoot c mutation = .ok () ↔ c'.Rooted := by
  unfold checkSingleRoot
  rw [hkind]
  have hroots := h.linkRoots_eq
  have hroots' := h'.linkRoots_eq
  have hmembers := h.members_eq
  have hmembers' := h'.members_eq
  generalize hmodel : c.model = model at hstep
  generalize hmodel' : c'.model = model' at hstep
  cases hstep with
  | addMember name members links value handle hfresh =>
    obtain ⟨hnodes, hlinkage⟩ := h.of_model_user hmodel
    obtain ⟨hnodes', hlinkage'⟩ := h'.of_model_user hmodel'
    have hunlinked : links.all (·.target != handle) = true := by
      refine List.all_eq_true.2 fun l hl => bne_iff_ne.2 fun heq => hfresh ?_
      rw [← hnodes, ← heq]
      exact (h.ends_of_mem_linkage (hlinkage ▸ hl)).2
    have hmore : c'.linkRoots = c.linkRoots ++ [handle] := by
      rw [hroots, hroots', hnodes, hnodes', hlinkage, hlinkage', List.map_append,
        List.filter_append, List.map_singleton, List.filter_singleton, hunlinked]
      rfl
    rw [Rooted, hmembers', hnodes', hmore]
    cases c.linkRoots <;> simp
  | addLinked name members links value handle parent tag hfresh hparent =>
    obtain ⟨hnodes, hlinkage⟩ := h.of_model_user hmodel
    obtain ⟨hnodes', hlinkage'⟩ := h'.of_model_user hmodel'
    have hsome : c.linkRoots.length = 1 := by
      refine hrooted.resolve_left (List.ne_nil_of_mem (a := parent) ?_)
      rwa [hmembers, hnodes]
    have hkept (p : Nat → Bool) :
        ((members.map (·.1)).filter p).filter (· != handle) = (members.map (·.1)).filter p :=
      List.filter_eq_self.2 fun n hn =>
        bne_iff_ne.2 fun heq => hfresh (heq ▸ (List.mem_filter.1 hn).1)
    have hgone (p : Nat → Bool) :
        (([(handle, value)].map (·.1)).filter p).filter (· != handle) = [] :=
      List.filter_eq_nil_iff.2 fun n hn => by simpa using (List.mem_filter.1 hn).1
    have hsame : c'.linkRoots = c.linkRoots := by
      rw [hroots', hnodes', hlinkage', filter_all_append, List.map_append, List.filter_append,
        List.filter_append, hkept, hgone, List.append_nil, hroots, hnodes, hlinkage]
    exact iff_of_true rfl (Or.inr (hsame ▸ hsome))
  | link name members links source target tag data edge hsource htarget =>
    obtain ⟨hnodes, hlinkage⟩ := h.of_model_user hmodel
    obtain ⟨hnodes', hlinkage'⟩ := h'.of_model_user hmodel'
    have hsome : c.linkRoots.length = 1 := by
      refine hrooted.resolve_left (List.ne_nil_of_mem (a := source) ?_)
      rwa [hmembers, hnodes]
    have hfewer : c'.linkRoots = c.linkRoots.filter (· != target) := by
      rw [hroots', hnodes', hlinkage', filter_all_append, hroots, hnodes, hlinkage]
    have hsource' : c'.members ≠ [] :=
      List.ne_nil_of_mem (a := source) (by rwa [hmembers', hnodes'])
    obtain ⟨r, hr⟩ := List.length_eq_one_iff.1 hsome
    rw [Rooted, hfewer, hr]
    by_cases heq : r = target <;> simp [heq, hsource']
  | removeNode name members links handle old hmem => exact absurd rfl (hother handle)
  | _ =>
    have hmap := c.kind_model
    rw [hmodel, hkind] at hmap
    cases hmap

end Container

/-! ### User graphs that operations have made -/

open Engine in
/-- A user graph that operations have made, with callbacks that may change it as well, has no
members or exactly one root. The rule about roots lets a new member or a new link pass exactly where
the graph will then have exactly one root. It lets a removal pass exactly where the graph will have
one root at most, and no link is counted twice. So it is right about a removal that leaves no cycle
of links, if no link is counted twice. -/
theorem single_root_tells {invoke : Invoke σ ε} {g : GraphId} {name : String} {w v : World σ}
    {moments : List Moment} {c : Container} {m : Mutation}
    (hnew : w.store.graphs[g]? = some (.new (.user name))) (hinvoke : invoke.Forms g)
    (hrun : Operations invoke g w moments v) (hc : v.store.graphs[g]? = some c)
    (hmutable : c.frozen = false) (hrooted : c.Rooted)
    (hallowed : c.preflight m = (.ok () : Except (MutationError ε) Unit)) :
    ∃ a c', commit g m v =
        some ((.ok a : Except (MutationError ε) Applied), { v with store := v.store.set g c' }) ∧
      ((∀ n, m ≠ .remove (.node n)) →
        ∀ s, Validation.singleRoot.check s c m = .ok () ↔ c'.Rooted) ∧
      ∀ n, m = .remove (.node n) →
        (∀ s, Validation.singleRoot.check s c m = .ok () ↔
          c'.linkRoots.length ≤ 1 ∧ ¬c.Miscounts n) ∧
        ((∀ x, ¬TransGen c'.Links x x) → ¬c.Miscounts n →
          ∀ s, Validation.singleRoot.check s c m = .ok () ↔ c'.Rooted) := by
  obtain ⟨d, hd, hformed, hkind⟩ := hrun.forms hinvoke hnew (.new _)
  obtain rfl := Option.some.inj (hd.symm.trans hc)
  have hnone : (d.model.refusal? m : Option (MutationError ε)) = none := by
    rw [hformed.preflight_eq] at hallowed
    cases hrefusal : (d.model.refusal? m : Option (MutationError ε)) with
    | none => rfl
    | some e =>
      rw [hrefusal] at hallowed
      cases hallowed
  obtain ⟨a, c', hcommit, hformed', -, -, hstep⟩ := made_commit hc hformed hmutable hnone
  refine ⟨a, c', hcommit, fun hother s =>
    hformed.check_iff hformed' hkind hrooted hstep hother, ?_⟩
  rintro n rfl
  have hremoval := (hformed.without_step hformed' hstep).check_iff hformed hformed' hkind hrooted
  refine ⟨fun s => hremoval, fun hacyclic hcounts s => ?_⟩
  rw [hformed'.rooted_iff hacyclic]
  exact hremoval.trans (and_iff_left hcounts)

/-! ### Three graphs -/

open Engine

/-- Whether the rule about roots lets a removal pass after operations on an empty graph, the roots
before the removal, and the members and roots that it leaves. -/
def removal (ops : List Operation) (n : Nat) : Option (Bool × List Nat × List Nat × List Nat) := do
  let v ← Operation.runAll answerTrue 0 ops emptyGraph
  let c := v.store.get 0
  let (_, u) ← (commit 0 (.remove (.node n)) : Act Unit (MutationError String) Applied) v
  let d := u.store.get 0
  return ((Validation.singleRoot.check v.store c (.remove (.node n))).isOk, c.linkRoots, d.members,
    d.linkRoots)

/-- The rule, a root, and a member with a link from it. -/
def pairOperations : List Operation :=
  [.attach (.validate .singleRoot), .change (.addMember .nil none),
    .change (.addMember .nil (some (1, "a")))]

/-- A third member, with a link from the second one. -/
def chainOperations : List Operation :=
  pairOperations ++ [.change (.addMember .nil (some (2, "b")))]

/-- The rule is wrong about removals: with two links from the root to the other member, it does not
let the root be removed, though the other one would be the only root; it lets the root be removed
where the two other members are linked to each other, and leaves them without a root; and it does
not let a member be removed that only a link from itself leads to, though the root would stay. -/
theorem removal_miscounted :
    removal (pairOperations ++ [.change (.link 1 2 "b" none)]) 1 =
      some (false, [1], [2], [2]) ∧
    removal (chainOperations ++ [.change (.link 3 2 "c" none)]) 1 =
      some (true, [1], [2, 3], []) ∧
    removal (chainOperations ++ [.change (.link 3 3 "c" none), .change (.remove (.node 2))]) 3 =
      some (false, [1], [1], [1]) := by
  refine ⟨?_, ?_, ?_⟩ <;> cbv

/-- The rule lets the root of a pair be removed, which leaves one root and counts no link twice. -/
theorem removal_of_pair : ∃ moments v c a c',
    Operations answerTrue 0 emptyGraph moments v ∧ v.store.graphs[0]? = some c ∧ c.Rooted ∧
    commit 0 (.remove (.node 1)) v = some ((.ok a : Except (MutationError String) Applied),
      { v with store := v.store.set 0 c' }) ∧
    Validation.singleRoot.check v.store c (.remove (.node 1)) = .ok () ∧
    c'.linkRoots.length ≤ 1 ∧ ¬c.Miscounts 1 := by
  have hends : (Operation.runAll answerTrue 0 pairOperations emptyGraph).map (fun v =>
      ((v.store.get 0).frozen, (v.store.get 0).linkRoots.length,
        ((v.store.get 0).preflight (.remove (.node 1)) :
          Except (MutationError String) Unit).isOk,
        (Validation.singleRoot.check v.store (v.store.get 0) (.remove (.node 1))).isOk)) =
      some (false, 1, true, true) := by
    cbv
  have hok {ε : Type} {x : Except ε Unit} (h : x.isOk = true) : x = .ok () := by
    cases x <;> first | rfl | cases h
  obtain ⟨v, hrun, hfacts⟩ := Option.map_eq_some_iff.1 hends
  obtain ⟨_, hmoments, -⟩ := Operations.start.runAll hrun
  obtain ⟨c, hc, -, -⟩ := hmoments.forms (answerTrue_spares 0).forms rfl (.new _)
  rw [Store.get_of_getElem? hc, Prod.mk.injEq, Prod.mk.injEq, Prod.mk.injEq] at hfacts
  obtain ⟨hmutable, hroots, hallowed, hcheck⟩ := hfacts
  obtain ⟨a, c', hcommit, -, hremoval⟩ := single_root_tells rfl (answerTrue_spares 0).forms hmoments
    hc hmutable (Or.inr hroots) (hok hallowed)
  obtain ⟨hfew, hcounts⟩ := ((hremoval 1 rfl).1 v.store).1 (hok hcheck)
  exact ⟨_, v, c, a, c', hmoments, hc, Or.inr hroots, hcommit, hok hcheck, hfew, hcounts⟩

end GraphLang
