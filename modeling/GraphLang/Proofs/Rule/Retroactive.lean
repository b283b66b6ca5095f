import GraphLang.Proofs.Rule.Attaching
import Mathlib.Data.List.Forall2

/-!
# A rule that comes late

A rule does the same to the values of a list whether it is attached to the list that has them or the
values are inserted one by one into an empty list under the rule, though the program goes different
ways. The callbacks must only answer, and no predicate may answer with the list that is filled: the
truth of a list is whether it has elements, which changes while it is filled.
-/

namespace GraphLang

variable {σ ε : Type}

/-! ### Copies of member containers -/

namespace Store

variable {s t u : Store} {g : GraphId} {value copy : Value}

/-- Containers were added, and none of the others was changed but the given one. -/
structure Grown (s : Store) (g : GraphId) (t : Store) : Prop where
  /-- No container is gone. -/
  size_le : s.graphs.size ≤ t.graphs.size
  /-- The others are as they were. -/
  get_eq : ∀ h < s.graphs.size, h ≠ g → t.get h = s.get h

theorem Grown.refl (s : Store) (g : GraphId) : s.Grown g s := ⟨Nat.le_refl _, fun _ _ _ => rfl⟩

theorem Grown.trans (h : s.Grown g t) (h' : t.Grown g u) : s.Grown g u where
  size_le := h.size_le.trans h'.size_le
  get_eq inner hlt hne :=
    (h'.get_eq inner (hlt.trans_le h.size_le) hne).trans (h.get_eq inner hlt hne)

theorem Grown.of_spares (h : s.Spares t) (g : GraphId) : s.Grown g t where
  size_le := by
    obtain ⟨new, hnew⟩ := h
    rw [hnew, Array.size_append]
    exact Nat.le_add_right _ _
  get_eq inner hlt _ := by
    unfold get
    rw [h.getElem? hlt]

theorem Grown.set (s : Store) (g : GraphId) (c : Container) : s.Grown g (s.set g c) where
  size_le := by simp [Store.set]
  get_eq _ _ hne := get_set_of_ne hne c

/-- The second value is the first one, unless that is a container. Then it is an unfrozen deep copy
of the container, which was made at a moment when nothing but the given list had changed since the
first store, and which the second store has as it was made. -/
def IsCopy (s : Store) (g : GraphId) (t : Store) (value copy : Value) : Prop :=
  match value with
  | .graph h => ∃ moment made, s.Grown g moment ∧ moment.deepCopy (moment.get h) = made ∧
      copy = .graph (made.2.alloc made.1).1 ∧ (made.2.alloc made.1).2.Grown g t
  | _ => copy = value

theorem IsCopy.later (h : s.IsCopy g t value copy) (htu : t.Grown g u) :
    s.IsCopy g u value copy := by
  cases value with
  | graph inner =>
    obtain ⟨moment, made, hmoment, hcopy, heq, hkept⟩ := h
    exact ⟨moment, made, hmoment, hcopy, heq, hkept.trans htu⟩
  | _ => exact h

theorem IsCopy.earlier (hst : s.Grown g t) (h : t.IsCopy g u value copy) :
    s.IsCopy g u value copy := by
  cases value with
  | graph inner =>
    obtain ⟨moment, made, hmoment, hcopy, heq, hkept⟩ := h
    exact ⟨moment, made, hst.trans hmoment, hcopy, heq, hkept⟩
  | _ => exact h

end Store

namespace Engine

variable {invoke : Invoke σ ε} {answer : Answers ε} {g : GraphId} {c : Container} {rule : Rule}
  {values done : List Value} {value : Value} {u v w : World σ}

theorem run_unfrozenCopy (g : GraphId) (value : Value) (u : World σ) :
    ∃ copy v, (unfrozenCopy value : Act σ (MutationError ε) Value) u = some (.ok copy, v) ∧
      u.store.Spares v.store ∧ u.store.IsCopy g v.store value copy := by
  cases value with
  | graph inner =>
    have hspares (s : Store) (c : Container) :
        s.Spares ((s.deepCopy c).2.alloc (s.deepCopy c).1).2 := by
      refine ⟨((s.nested c).map fun h =>
        Store.renamed s.graphs.size (s.nested c) (s.get h)).toArray.push (s.deepCopy c).1, ?_⟩
      simp [Store.deepCopy_eq, Store.alloc]
    exact ⟨_, _, rfl, hspares u.store (u.store.get inner), u.store, _, .refl _ _, rfl, rfl,
      .refl _ _⟩
  | _ => exact ⟨_, u, rfl, .refl _, rfl⟩

/-- A rule that copies goes through the members of a list and makes copies of their values. -/
theorem run_updates_copies (invoke : Invoke σ ε) (members : List (Nat × Value)) :
    ∃ news v, updates invoke (.freeze .copyElements) members u = some (.ok news, v) ∧
      u.store.Spares v.store ∧ news.map (·.1) = members.map (·.1) ∧
      List.Forall₂ (u.store.IsCopy g v.store) (members.map (·.2)) (news.map (·.2)) := by
  induction members generalizing u with
  | nil => exact ⟨[], u, rfl, .refl _, rfl, .nil⟩
  | cons x rest ih =>
    obtain ⟨copy, t, hcopy, hspares, hfirst⟩ := run_unfrozenCopy (ε := ε) g x.2 u
    obtain ⟨news, v, hupdates, hspares', hnodes, hrest⟩ := ih (u := t)
    refine ⟨(x.1, copy) :: news, v, ?_, hspares.trans hspares', by simp [hnodes], ?_⟩
    · unfold updates
      refine Act.run_bind_eq_ok.2 ⟨copy, t, hcopy, Act.run_bind_eq_ok.2 ⟨news, v, hupdates, rfl⟩⟩
    · refine .cons (hfirst.later (.of_spares hspares' g)) ?_
      exact hrest.imp fun value copy h => h.earlier (.of_spares hspares g)

/-- A rule that copies leaves copies of the values in the list that it is attached to. -/
theorem run_addRule_copies (invoke : Invoke σ ε)
    (hc : u.store.graphs[g]? = some (.ofElements values)) :
    ∃ copies v c, addRule invoke g (.freeze .copyElements) u = some (.ok (), v) ∧
      v.store.graphs[g]? = some c ∧ c.Built .list (.list copies) ∧
      c.rules = [.freeze .copyElements] ∧
      List.Forall₂ (u.store.IsCopy g v.store) values copies := by
  have hbuilt := Container.built_ofElements values
  obtain ⟨news, t, hupdates, hspares, hnodes, hcopies⟩ := run_updates_copies invoke
    (g := g) (u := u) ((Container.ofElements values).roster.map fun x => (x.node, x.value))
  have hkept : t.store.graphs[g]? = some (.ofElements values) := by
    rw [hspares.getElem? (Array.getElem?_eq_some_iff.1 hc).1, hc]
  obtain ⟨v, hattach, hstore⟩ :=
    run_attachRule (ε := ε) hkept hbuilt.mutable (.freeze .copyElements) news
  have hprepared : prepareRule invoke g (.freeze .copyElements) u = some (.ok news, t) := by
    rw [prepareRule_eq_updates rfl hc hbuilt.formed, hupdates]
  have hvalues : (Container.ofElements values).roster.map (·.value) = values := by
    rw [← hbuilt.formed.memberValues_eq, hbuilt.memberValues_eq]
  rw [List.map_map, show ((Container.ofElements values).roster.map
    (Prod.snd ∘ fun x => (x.node, x.value))) = values from hvalues] at hcopies
  rw [Container.Formed.map_handles] at hnodes
  refine ⟨_, v, _, ?_, by rw [hstore, getElem?_set hkept], hbuilt.rewrite news _, ?_, ?_⟩
  · rw [run_addRule hc hbuilt.mutable, Act.run_bind, hprepared]
    exact hattach
  · rw [(Container.Created.list values).rules_eq]
    rfl
  · rw [hbuilt.formed.values_rewrite hnodes]
    refine hcopies.imp fun value copy h => h.later ?_
    rw [hstore]
    exact .set _ _ _

/-- A list under a rule that copies takes a copy of a value. -/
theorem run_insert_copy (invoke : Invoke σ ε) (hc : u.store.graphs[g]? = some c)
    (hlist : c.Built .list (.list done))
    (hrules : c.rules = [.freeze .copyElements]) (value : Value) :
    ∃ copy a v c', apply invoke g (.insert value) u = some (.ok a, v) ∧
      v.store.graphs[g]? = some c' ∧ c'.Built .list (.list (done ++ [copy])) ∧
      c'.rules = c.rules ∧ u.store.Grown g v.store ∧ u.store.IsCopy g v.store value copy := by
  obtain ⟨copy, t, hcopy, hspares, hmade⟩ := run_unfrozenCopy (ε := ε) g value u
  have hkept : t.store.graphs[g]? = some c := by
    rw [hspares.getElem? (Array.getElem?_eq_some_iff.1 hc).1, hc]
  have hgovern : govern invoke g c.rules (.insert value) u =
      some (.ok (.insert copy), t) := by
    rw [hrules]
    refine Act.run_bind_eq_ok.2 ⟨⟨⟩, u, rfl, ?_⟩
    dsimp only [Mutation.incoming?, Mutation.incomingMember?]
    rw [Act.run_map]
    have htransform : transformAll invoke ([Rule.freeze .copyElements].filter
        (·.transformsIncoming)) value u = some (.ok copy, t) :=
      Act.run_bind_eq_ok.2 ⟨copy, t, hcopy, rfl⟩
    rw [htransform]
    rfl
  obtain ⟨a, c', v, happly, hstore, hlist', hrules'⟩ := run_insert hc hlist hgovern hkept
  have hset : t.store.Grown g v.store := hstore ▸ .set _ _ _
  exact ⟨copy, a, v, c', happly, by rw [hstore, getElem?_set hkept], hlist', hrules',
    (Store.Grown.of_spares hspares g).trans hset, hmade.later hset⟩

/-- Values that are inserted into a list under a rule that copies stand in it as copies. -/
theorem run_insertAll_copies (invoke : Invoke σ ε) (hc : u.store.graphs[g]? = some c)
    (hlist : c.Built .list (.list done)) (hrules : c.rules = [.freeze .copyElements])
    (values : List Value) :
    ∃ copies v c', insertAll invoke g values u = some (.ok (), v) ∧
      v.store.graphs[g]? = some c' ∧ c'.Built .list (.list (done ++ copies)) ∧
      c'.rules = [.freeze .copyElements] ∧ u.store.Grown g v.store ∧
      List.Forall₂ (u.store.IsCopy g v.store) values copies := by
  induction values generalizing u c done with
  | nil => exact ⟨[], u, c, rfl, hc, by rwa [List.append_nil], hrules, .refl _ _, .nil⟩
  | cons value rest ih =>
    obtain ⟨copy, a, t, d, happly, hd, hlist', hrules', hgrown, hfirst⟩ :=
      run_insert_copy invoke hc hlist hrules value
    obtain ⟨copies, v, c', hrun, hc', hlist'', hrules'', hgrown', hrest⟩ :=
      ih hd hlist' (hrules'.trans hrules)
    refine ⟨copy :: copies, v, c', by rw [run_insertAll_cons happly, hrun], hc', ?_, hrules'',
      hgrown.trans hgrown', .cons (hfirst.later hgrown') ?_⟩
    · rwa [List.append_cons]
    · exact hrest.imp fun value copy h => h.earlier hgrown

end Engine

/-! ### Both ways -/

section

open Engine

/-- Callbacks only answer, and no predicate that a rule asks answers with the list that is filled.
Then the rule can be attached to a list of values if and only if the values can be inserted, one by
one and in order, into an empty list under the rule alone. Both lists then have the rule as their
only one, and the same elements in the same order; where the rule copies, the elements of both are
copies of the same values. -/
theorem attaching_agrees_with_inserting {answer : Answers ε} {rule : Rule} {values : List Value}
    {attached filled : GraphId} {w : World σ}
    (hattached : w.store.graphs[attached]? = some (.ofElements values))
    (hfilled : w.store.graphs[filled]? = some { Container.new .list with rules := [rule] })
    (hanswers : ∀ callee ∈ rule.asked?, ∀ value ∈ values,
      answer callee [value] ≠ .ok (.graph filled)) :
    ((∃ u, addRule (.answering answer) attached rule w = some (.ok (), u)) ↔
      ∃ v, insertAll (.answering answer) filled values w = some (.ok (), v)) ∧
    ∀ u v, addRule (.answering answer) attached rule w = some (.ok (), u) →
      insertAll (.answering answer) filled values w = some (.ok (), v) →
      ∃ c d, u.store.graphs[attached]? = some c ∧ v.store.graphs[filled]? = some d ∧
        c.rules = [rule] ∧ d.rules = [rule] ∧
        (rule ≠ .freeze .copyElements → c.elements = d.elements) ∧
        (rule = .freeze .copyElements →
          List.Forall₂ (w.store.IsCopy attached u.store) values c.elements ∧
          List.Forall₂ (w.store.IsCopy filled v.store) values d.elements) := by
  have hempty : { Container.new .list with rules := [rule] }.Built .list (.list []) :=
    ⟨(Container.Formed.new .list).withRules _, rfl, rfl, (Container.built_ofElements []).model_eq⟩
  -- Copies are new containers, so the elements of the lists are only compared with their sources.
  by_cases hcopy : rule = .freeze .copyElements
  · subst hcopy
    obtain ⟨copies, u, c, hadd, hc, hlist, hrules, hcopies⟩ :=
      run_addRule_copies (.answering answer) hattached
    obtain ⟨copies', v, d, hinsert, hd, hlist', hrules', -, hcopies'⟩ :=
      run_insertAll_copies (.answering answer) hfilled hempty rfl values
    refine ⟨⟨fun _ => ⟨v, hinsert⟩, fun _ => ⟨u, hadd⟩⟩, fun u' v' hadd' hinsert' => ?_⟩
    cases hadd.symm.trans hadd'
    cases hinsert.symm.trans hinsert'
    refine ⟨c, d, hc, hd, hrules, hrules', fun hne => absurd rfl hne, fun _ => ⟨?_, ?_⟩⟩
    · rwa [hlist.elements_eq]
    · rwa [hlist'.elements_eq]
  · have hplace : w.store.Replaces filled { Container.new .list with rules := [rule] } := by
      refine ⟨(Array.getElem?_eq_some_iff.1 hfilled).1, ?_, ?_⟩ <;>
        rw [Store.get_of_getElem? hfilled]
    have hinserts : Fills (insertAll (.answering answer) filled values w) filled rule
        (rule.results? answer w.store [] values) := by
      simpa only [List.nil_append, Option.map_id'] using fills_insertAll answer
        (Store.set_self hfilled).symm hplace hempty rfl hcopy Rule.allows_nil hanswers
    obtain ⟨hiff, hsame⟩ := (fills_addRule answer hcopy hattached).agree hinserts
    refine ⟨hiff, fun u v hadd hinsert => ?_⟩
    obtain ⟨c, d, hc, hd, hrules, hrules', helements⟩ := hsame u v hadd hinsert
    exact ⟨c, d, hc, hd, hrules, hrules', fun _ => helements, fun heq => absurd heq hcopy⟩

/-- Puts zero in the place of `none` where a predicate holds. -/
def zeroWhere : Rule := .conditional .nil .noneToZero none

/-- A list of twice `none`, and an empty list under that rule. -/
def noneTwice : World Unit :=
  .holding #[.ofElements [.nil, .nil], { Container.new .list with rules := [zeroWhere] }]

/-- A predicate that always holds. -/
def holdsAlways : Answers String := fun _ _ => .ok (.bool true)

/-- Such a predicate lets the rule put zeros in both lists. -/
theorem zeros_noneTwice : ∃ u v c d,
    addRule (.answering holdsAlways) 0 zeroWhere noneTwice = some (.ok (), u) ∧
    insertAll (.answering holdsAlways) 1 [.nil, .nil] noneTwice = some (.ok (), v) ∧
    u.store.graphs[0]? = some c ∧ v.store.graphs[1]? = some d ∧ c.elements = d.elements ∧
    c.elements = [.int 0, .int 0] := by
  have hattached : noneTwice.store.graphs[0]? = some (.ofElements [.nil, .nil]) := rfl
  have hanswers : ∀ callee ∈ zeroWhere.asked?, ∀ value ∈ [Value.nil, .nil],
      holdsAlways callee [value] ≠ .ok (.graph 1) := by
    rintro callee hcallee value hvalue ⟨⟩
  have hadds : Fills (addRule (.answering holdsAlways) 0 zeroWhere noneTwice) 0 zeroWhere
      (some [.int 0, .int 0]) :=
    fills_addRule holdsAlways (by rintro ⟨⟩) hattached
  obtain ⟨c, u, hadd, hc, hlist, -⟩ := hadds
  have hboth := attaching_agrees_with_inserting hattached rfl hanswers
  obtain ⟨v, hinsert⟩ := hboth.1.1 ⟨u, hadd⟩
  obtain ⟨c', d, hc', hd, -, -, hsame, -⟩ := hboth.2 u v hadd hinsert
  cases hc.symm.trans hc'
  exact ⟨u, v, c, d, hadd, hinsert, hc, hd, hsame (by rintro ⟨⟩), hlist.elements_eq⟩

/-- A predicate that answers with the list that is filled does not hold of the first value and holds
of the second one. Both ways succeed, and come to different elements. -/
theorem filled_answer_differs :
    noneTwice.store.graphs[0]? = some (.ofElements [.nil, .nil]) ∧
    noneTwice.store.graphs[1]? = some { Container.new .list with rules := [zeroWhere] } ∧
    (addRule (.answering fun _ _ => .ok (.graph 1)) 0 zeroWhere noneTwice :
      Option (Except (MutationError String) Unit × World Unit)).map
        (fun p => (p.1.isOk, (p.2.store.get 0).elements)) = some (true, [.nil, .nil]) ∧
    (insertAll (.answering fun _ _ => .ok (.graph 1)) 1 [.nil, .nil] noneTwice :
      Option (Except (MutationError String) Unit × World Unit)).map
        (fun p => (p.1.isOk, (p.2.store.get 1).elements)) = some (true, [.nil, .int 0]) := by
  refine ⟨rfl, rfl, ?_, ?_⟩
  · cbv
  · cbv

end

end GraphLang
