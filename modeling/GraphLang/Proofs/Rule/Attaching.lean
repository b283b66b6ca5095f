import GraphLang.Proofs.Container.LinkPaths
import GraphLang.Proofs.Rule.Filling

/-!
# Rules attached to a list of values

A rule that is attached to a list goes through the values that the list has: it asks about all of
them, or gives all of them new values. It leaves in the list what it makes of the values, and fails
where it does not let the list have them.
-/

namespace GraphLang

open Container (Held)

variable {σ ε : Type}

/-! ### Lists of given values -/

namespace Container

variable {c : Container}

/-- New lists have no links. -/
theorem linkage_ofElements (values : List Value) : (ofElements values).linkage = [] := by
  have hfold (rest : List Value) (c : Container) (h : c.Formed) (hkind : c.kind = .list) :
      (rest.foldl (fun c value => (c.attach .element value).2) c).linkage = c.linkage := by
    induction rest generalizing c with
    | nil => rfl
    | cons value rest ih =>
      rw [List.foldl_cons, ih _ (h.step_insert hkind value).1 hkind,
        h.linkage_attach .element value rfl]
  rw [ofElements, hfold values _ (.new .list) rfl, linkage_new]

theorem hasLinkCycle_ofElements (values : List Value) :
    (ofElements values).hasLinkCycle = false := by
  have hformed := (built_ofElements values).formed
  have hlinks (n m : Nat) : ¬(ofElements values).Links n m := by
    rw [links_iff, linkage_ofElements]
    simp
  rw [Bool.eq_false_iff, ne_eq, hasLinkCycle_iff hformed.timed.sound]
  rintro ⟨-, -, m, -, hcycle⟩
  obtain ⟨n, hlink, -⟩ := Relation.TransGen.head'_iff.1 hcycle
  exact hlinks m n hlink

/-- Where every member is given a value, the members have these values. -/
theorem Formed.values_rewrite (h : c.Formed) {news : List (Nat × Value)}
    (hnodes : news.map (·.1) = c.roster.map (·.node)) :
    (c.rewrite news).roster.map (·.value) = news.map (·.2) := by
  have hkept : (c.rewrite news).roster.map (·.node) = news.map (·.1) := by
    have hshape := congrArg (List.map Prod.snd) (h.shape_rewrite news).1
    rw [List.map_map, List.map_map] at hshape
    exact hshape.trans hnodes.symm
  have hmem (x : Held) (hx : x ∈ (c.rewrite news).roster) : (x.node, x.value) ∈ news := by
    obtain ⟨-, hnew⟩ | hnew := h.mem_roster_rewrite news hx
    · exact absurd (hkept ▸ List.mem_map_of_mem hx) hnew
    · exact hnew
  have hlength : (c.rewrite news).roster.length = news.length := by
    simpa only [List.length_map] using congrArg List.length hkept
  have hpairs : (c.rewrite news).roster.map (fun x => (x.node, x.value)) = news := by
    refine List.ext_getElem (by rw [List.length_map, hlength]) fun i hi hi' => ?_
    rw [List.getElem_map]
    rw [List.length_map] at hi
    refine List.inj_on_of_nodup_map (hnodes ▸ h.nodup_nodes)
      (hmem _ (List.getElem_mem hi)) (List.getElem_mem hi') ?_
    have hnode := congrArg (·[i]?) hkept
    simpa [hi, hi'] using hnode
  rw [← congrArg (List.map Prod.snd) hpairs, List.map_map]
  rfl

/-- A list with new values of members, under other rules. -/
theorem Built.rewrite {values : List Value} (h : c.Built .list (.list values))
    (news : List (Nat × Value)) (rules : List Rule) :
    { c.rewrite news with rules := rules }.Built .list
      (.list ((c.rewrite news).roster.map Held.value)) := by
  have hformed := (h.formed.rewrite news).withRules rules
  have hrest := Container.rewrite_eq (c := c) news
  have hkind : (c.rewrite news).kind = .list := by
    rw [hrest]
    exact h.kind_eq
  have hmutable : (c.rewrite news).frozen = false := by
    rw [hrest]
    exact h.mutable
  exact ⟨hformed, hkind, hmutable, hformed.model_list hkind⟩

/-- A validation holds of a list as it is if it lets the list have its values. -/
theorem checkNow_ofElements (values : List Value) {x : Validation} {s : Store}
    (hx : ∀ name callee, x ≠ .predicate name callee) :
    (x.checkNow s (ofElements values)).isOk = (Rule.validate x).allows s values := by
  have hbuilt := built_ofElements values
  cases x with
  | predicate name callee => exact absurd rfl (hx name callee)
  | acyclic =>
    rw [Validation.checkNow, hasLinkCycle_ofElements]
    rfl
  | singleRoot =>
    rw [Validation.checkNow, hbuilt.kind_eq]
    rfl
  | maxSize limit =>
    rw [Validation.checkNow, hbuilt.size_eq]
    by_cases hlimit : limit < values.length
    · rw [if_pos hlimit, Rule.allows, decide_eq_false (by omega)]
      rfl
    · rw [if_neg hlimit, Rule.allows, decide_eq_true (by omega)]
      rfl
  | homogeneous =>
    unfold Validation.checkNow
    dsimp only
    rw [hbuilt.memberValues_eq]
    cases values with
    | nil => rfl
    | cons first rest =>
      rw [List.map_cons]
      dsimp only
      rw [Rule.allows]
      cases hfind : (rest.map s.typeOf).find? (· != s.typeOf first) with
      | none =>
        have hsame := List.find?_eq_none.1 hfind
        symm
        simpa [Except.isOk, Except.toBool] using hsame
      | some other =>
        have hother := List.find?_some hfind
        obtain ⟨value, hvalue, rfl⟩ := List.mem_map.1 (List.mem_of_find?_eq_some hfind)
        symm
        simpa [Except.isOk, Except.toBool] using ⟨value, hvalue, by simpa using hother⟩

end Container

namespace Engine

variable {answer : Answers ε} {u : World σ} {g : GraphId} {rule : Rule}

/-! ### Attaching a rule -/

/-- The members that a rule goes through keep their nodes, and their values are what the rule makes
of the values. -/
theorem map_mapM (f : Value → Option Value) (members : List (Nat × Value)) :
    (members.mapM fun x => (f x.2).map fun result => (x.1, result)).map (List.map (·.2)) =
      (members.map (·.2)).mapM f := by
  induction members with
  | nil => rfl
  | cons x rest ih =>
    rw [List.map_cons, List.mapM_cons, List.mapM_cons, ← ih]
    cases f x.2 with
    | none => rfl
    | some result =>
      cases rest.mapM fun x => (f x.2).map fun result => (x.1, result) <;> rfl

theorem nodes_of_mapM (f : Value → Option Value) {members news : List (Nat × Value)}
    (h : (members.mapM fun x => (f x.2).map fun result => (x.1, result)) = some news) :
    news.map (·.1) = members.map (·.1) := by
  induction members generalizing news with
  | nil =>
    cases h
    rfl
  | cons x rest ih =>
    rw [List.mapM_cons] at h
    obtain ⟨new, hnew, h⟩ := Option.bind_eq_some_iff.1 h
    obtain ⟨others, hothers, h⟩ := Option.bind_eq_some_iff.1 h
    obtain ⟨result, -, rfl⟩ := Option.map_eq_some_iff.1 hnew
    cases h
    rw [List.map_cons, List.map_cons, ih hothers]

theorem settles_updates (answer : Answers ε) (hrule : rule.transformsIncoming = true)
    (hcopy : rule ≠ .freeze .copyElements) (members : List (Nat × Value)) :
    (updates (.answering answer) rule members).Settles u
      (members.mapM fun x => (rule.result? answer u.store x.2).map fun result =>
        (x.1, result)) := by
  induction members with
  | nil => exact .pure []
  | cons x rest ih =>
    have hrun := (settles_transform answer (w := u) hrule hcopy x.2).bind
      (f := fun value => do
        let others ← updates (.answering answer) rule rest
        return (x.1, value) :: others)
      fun value _ => ih.bind fun others _ => .pure ((x.1, value) :: others)
    rw [List.mapM_cons]
    cases hresult : rule.result? answer u.store x.2 <;> rw [hresult] at hrun <;> exact hrun

theorem settles_askMembers (answer : Answers ε) (name : String) (callee : Value)
    (values : List Value) :
    (askMembers (.answering answer) (.predicate name callee) callee values).Settles u
      ((values.mapM ((Rule.validate (.predicate name callee)).result? answer u.store)).map
        fun _ => ()) := by
  generalize hrule : Rule.validate (.predicate name callee) = rule
  induction values with
  | nil => exact .pure ()
  | cons value rest ih =>
    have hresult : ((value :: rest).mapM (rule.result? answer u.store)).map (fun _ => ()) =
        (Verdict.ofAnswer u.store (answer callee [value])).passed?.bind fun _ =>
          (rest.mapM (rule.result? answer u.store)).map fun _ => () := by
      rw [List.mapM_cons, passed?_ofAnswer]
      have hfirst : rule.result? answer u.store value =
          if answer.holds? u.store callee value = some true then some value else none := by
        rw [← hrule, Rule.result?]
      rw [hfirst]
      split
      · cases rest.mapM (rule.result? answer u.store) <;> rfl
      · rfl
    rw [hresult]
    unfold askMembers
    refine (settles_ask callee).bind (k := fun verdict => verdict.passed?.bind fun _ =>
      (rest.mapM (rule.result? answer u.store)).map fun _ => ()) fun verdict _ => ?_
    cases verdict with
    | holds => exact ih
    | refused reason =>
      cases reason with
      | none => exact ⟨_, _, rfl⟩
      | some reason => exact .throw _
    | aborted cause => exact .throw _

theorem settles_forM {f : Value → Act σ (MutationError ε) Unit} {k : Value → Option Value}
    (hf : ∀ value, (f value).Settles u ((k value).map fun _ => ())) (values : List Value) :
    (values.forM f).Settles u ((values.mapM k).map fun _ => ()) := by
  induction values with
  | nil => exact .pure ()
  | cons value rest ih =>
    have hrun := (hf value).bind (f := fun _ => rest.forM f) fun _ _ => ih
    rw [List.mapM_cons]
    cases hfirst : k value with
    | none =>
      rw [hfirst] at hrun
      exact hrun
    | some result =>
      rw [hfirst] at hrun
      cases hrest : rest.mapM k <;> rw [hrest] at hrun <;> exact hrun

section

variable {values : List Value} (hc : u.store.graphs[g]? = some (.ofElements values))

include hc

theorem memberValues_get : (u.store.get g).memberValues = values := by
  rw [Store.get_of_getElem? hc, (Container.built_ofElements values).memberValues_eq]

/-- A validation without a callback looks at the values of a list together. -/
theorem settles_prepareRule_validate {x : Validation}
    (hx : ∀ name callee, x ≠ .predicate name callee) :
    (prepareRule (.answering answer) g (.validate x)).Settles u
      (((Rule.validate x).results? answer u.store [] values).map fun _ => []) := by
  have hsame : values.mapM ((Rule.validate x).result? answer u.store) = some values := by
    rw [Rule.result?_validate hx]
    exact List.mapM_pure.trans (by rw [List.map_id']; rfl)
  have hnow := Container.checkNow_ofElements values (s := u.store) hx
  have hrun := run_prepareRule_validate (.answering answer) (g := g) (u := u) hx
  rw [Store.get_of_getElem? hc] at hrun
  rw [Rule.results?, hsame, Option.filter_some, List.nil_append, ← hnow]
  cases hcheck : x.checkNow u.store (.ofElements values) with
  | ok _ =>
    rw [hcheck] at hrun
    exact hrun
  | error reason =>
    rw [hcheck] at hrun
    exact ⟨_, _, hrun⟩

/-- A predicate is asked about the values of a list one after the other. -/
theorem settles_prepareRule_predicate (name : String) (callee : Value) :
    (prepareRule (.answering answer) g (.validate (.predicate name callee))).Settles u
      (((Rule.validate (.predicate name callee)).results? answer u.store [] values).map
        fun _ => []) := by
  have hasked := settles_askMembers answer name callee (u := u) (u.store.get g).memberValues
  have hrest := hasked.then_pure ([] : List (Nat × Value))
  rw [Option.map_map] at hrest
  rw [Rule.results?, Rule.filter_allows fun _ => rfl, ← memberValues_get hc]
  refine .of_run_eq ?_ hrest
  rw [prepareRule, Act.run_store_bind]

/-- A rule against mixed freezing looks at the values of a list one after the other. -/
theorem settles_prepareRule_rejectMixed :
    (prepareRule (.answering answer) g (.freeze .rejectMixed)).Settles u
      (((Rule.freeze .rejectMixed).results? answer u.store [] values).map fun _ => []) := by
  have hmutable : (u.store.get g).frozen = false := by
    rw [Store.get_of_getElem? hc, (Container.built_ofElements values).mutable]
  have hasked := settles_forM (settles_rejectMixed_unfrozen answer hmutable (.freeze .rejectMixed))
    (u.store.get g).memberValues
  have hrest := hasked.then_pure ([] : List (Nat × Value))
  rw [Option.map_map] at hrest
  rw [Rule.results?, Rule.filter_allows fun _ => rfl, ← memberValues_get hc]
  refine .of_run_eq ?_ hrest
  rw [prepareRule, Act.run_store_bind]

/-- A rule that rewrites nothing asks about the members of a list, and gives them no new values. -/
theorem settles_prepareRule (hrule : rule.transformsIncoming = false) :
    (prepareRule (.answering answer) g rule).Settles u
      ((rule.results? answer u.store [] values).map fun _ => []) := by
  cases rule with
  | validate x =>
    cases x with
    | predicate name callee => exact settles_prepareRule_predicate hc name callee
    | _ => exact settles_prepareRule_validate hc (by rintro name callee ⟨⟩)
  | freeze f =>
    cases f with
    | rejectMixed => exact settles_prepareRule_rejectMixed hc
    | copyElements => cases hrule
  | _ => cases hrule

end

/-- A rule that rewrites goes through the members of a container. -/
theorem prepareRule_eq_updates {invoke : Invoke σ ε} {c : Container}
    (hrule : rule.transformsIncoming = true) (hc : u.store.graphs[g]? = some c)
    (hformed : c.Formed) :
    prepareRule invoke g rule u =
      updates invoke rule (c.roster.map fun x => (x.node, x.value)) u := by
  rw [prepareRule, Act.run_store_bind, Store.get_of_getElem? hc, hformed.members_eq,
    hformed.filterMap_nodes fun n v => (n, v)]
  cases rule with
  | validate x => cases hrule
  | freeze f =>
    cases f with
    | rejectMixed => cases hrule
    | copyElements => rfl
  | _ => rfl

/-- The values of a list after the members were given what a rule makes of them. -/
theorem settles_news (answer : Answers ε) {values : List Value}
    (hcopy : rule ≠ .freeze .copyElements)
    (hc : u.store.graphs[g]? = some (.ofElements values)) :
    ∃ news, (prepareRule (.answering answer) g rule).Settles u news ∧
      news.map (fun news => ((Container.ofElements values).rewrite news).roster.map (·.value)) =
        rule.results? answer u.store [] values := by
  have hbuilt := Container.built_ofElements values
  have hvalues : (Container.ofElements values).roster.map (·.value) = values := by
    rw [← hbuilt.formed.memberValues_eq, hbuilt.memberValues_eq]
  cases hrule : rule.transformsIncoming with
  | false =>
    refine ⟨_, settles_prepareRule hc hrule, ?_⟩
    rw [Option.map_map]
    cases hresults : rule.results? answer u.store [] values with
    | none => rfl
    | some results =>
      rw [Rule.results?_eq_some hrule hresults]
      exact congrArg some hvalues
  | true =>
    have hresults : rule.results? answer u.store [] values =
        values.mapM (rule.result? answer u.store) :=
      Rule.filter_allows (fun _ => Rule.allows_of_transformsIncoming hrule) _ _
    have hupdates := settles_updates answer (u := u) hrule hcopy
      ((Container.ofElements values).roster.map fun x => (x.node, x.value))
    refine ⟨_, .of_run_eq ?_ hupdates, ?_⟩
    · exact prepareRule_eq_updates hrule hc hbuilt.formed
    · have hmapped := map_mapM (rule.result? answer u.store)
        ((Container.ofElements values).roster.map fun x => (x.node, x.value))
      rw [List.map_map, show ((Container.ofElements values).roster.map
        (Prod.snd ∘ fun x : Held => (x.node, x.value))) = values from hvalues] at hmapped
      rw [hresults, ← hmapped]
      refine Option.map_congr fun news hnews => hbuilt.formed.values_rewrite ?_
      rw [nodes_of_mapM _ hnews, Container.Formed.map_handles]

/-- A rule that is attached to a list leaves in it what it makes of the values, if it lets the list
have all of them. -/
theorem fills_addRule (answer : Answers ε) {values : List Value}
    (hcopy : rule ≠ .freeze .copyElements)
    (hc : u.store.graphs[g]? = some (.ofElements values)) :
    Fills (addRule (.answering answer) g rule u) g rule
      (rule.results? answer u.store [] values) := by
  have hbuilt := Container.built_ofElements values
  obtain ⟨news, hprepared, hresults⟩ := settles_news answer hcopy hc
  rw [run_addRule hc hbuilt.mutable, Act.run_bind, ← hresults]
  cases news with
  | none =>
    obtain ⟨e, v, hfail⟩ := hprepared
    rw [hfail]
    exact ⟨e, v, rfl⟩
  | some news =>
    obtain ⟨v, hattach, hstore⟩ := run_attachRule (ε := ε) hc hbuilt.mutable rule news
    rw [show prepareRule (.answering answer) g rule u = some (.ok news, u) from hprepared]
    refine ⟨_, v, hattach, by rw [hstore, getElem?_set hc], hbuilt.rewrite news _, ?_⟩
    rw [(Container.Created.list values).rules_eq]
    rfl

end Engine

end GraphLang
