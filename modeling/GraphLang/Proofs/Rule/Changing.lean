import GraphLang.Proofs.Container.Seats
import GraphLang.Proofs.Rule.Attaching

/-!
# Rules attached while callbacks change the list

A rule that is attached computes the new values of all members before it writes any of them, and its
callbacks may insert elements and remove members meanwhile. The new values are kept by node. So a
member that stays gets what the rule made of its value, and one that is inserted keeps its own
value, unless it sits at the node of a member that was removed.
-/

namespace GraphLang

open Container (Passes MemberEvent Held)

variable {σ ε ε' α β : Type}

/-! ### New values by node -/

namespace Container

variable {c : Container} {news : List (Nat × Value)} {seq n : Nat} {x y : Value}

/-- New values leave the edges alone. -/
theorem Formed.timeline_rewrite (h : c.Formed) (news : List (Nat × Value)) :
    (c.rewrite news).timeline = c.timeline :=
  (rewrite_induction (P := fun c' => c'.Formed ∧ c'.timeline = c.timeline) news ⟨h, rfl⟩
    fun _ n value h' => ⟨h'.1.putValue n value, (h'.1.timed.putValue n value).2.trans h'.2⟩).2

/-- Who sits in a list still does, with a new value if one is given for the node. -/
theorem Formed.sits_of_rewrite (h : c.Formed) (hsits : (c.rewrite news).Sits seq n y) :
    ∃ x, c.Sits seq n x ∧ (n ∉ news.map (·.1) ∧ y = x ∨ (n, y) ∈ news) := by
  obtain ⟨z, hz, rfl, rfl⟩ := hsits.mem_roster (h.rewrite news).timed
  obtain ⟨view, hview, hsource, hseq, htarget, -⟩ := hsits
  rw [h.timeline_rewrite] at hview
  obtain ⟨x, hx⟩ := value?_eq_some_iff.2 (h.timed.hasNode_target hview)
  rw [htarget] at hx
  refine ⟨x, ⟨view, hview, hsource, hseq, htarget, hx⟩, ?_⟩
  obtain ⟨hold, hnew⟩ | hnew := h.mem_roster_rewrite news hz
  · exact Or.inl ⟨hnew, Option.some.inj ((h.value?_of_mem hold).symm.trans hx)⟩
  · exact Or.inr hnew

/-- New values remove nobody. -/
theorem Formed.sits_rewrite (h : c.Formed) (news : List (Nat × Value)) (hsits : c.Sits seq n x) :
    ∃ y, (c.rewrite news).Sits seq n y := by
  obtain ⟨view, hview, hsource, hseq, htarget, -⟩ := hsits
  rw [← h.timeline_rewrite news] at hview
  obtain ⟨y, hy⟩ := value?_eq_some_iff.2 ((h.rewrite news).timed.hasNode_target hview)
  exact ⟨y, view, hview, hsource, hseq, htarget, by rwa [htarget] at hy⟩

end Container

/-! ### Actions that insert and remove -/

/-- The action leaves a list alone but for insertions of elements and removals of members. -/
def Act.Stirs (a : Act σ ε α) (g : GraphId) : Prop :=
  ∀ u r v, a u = some (r, v) → ∀ c, u.store.graphs[g]? = some c → c.Formed → c.kind = .list →
    ∃ events d, v.store.graphs[g]? = some d ∧ c.Passes events d

/-- Callbacks leave a list alone but for insertions of elements and removals of members. -/
def Invoke.Stirs (invoke : Invoke σ ε) (g : GraphId) : Prop :=
  ∀ callee args, (invoke callee args).Stirs g

namespace Act.Stirs

variable {a : Act σ ε α} {g : GraphId}

theorem bind {f : α → Act σ ε β} (ha : a.Stirs g)
    (hf : ∀ u x v, a u = some (.ok x, v) → (f x).Stirs g) : (a >>= f).Stirs g := by
  intro u r v hrun c hc hformed hkind
  rw [Act.run_bind] at hrun
  cases hfirst : a u with
  | none =>
    rw [hfirst] at hrun
    cases hrun
  | some p =>
    obtain ⟨r', t⟩ := p
    obtain ⟨events, d, hd, hpasses⟩ := ha u r' t hfirst c hc hformed hkind
    rw [hfirst] at hrun
    cases r' with
    | error e =>
      cases hrun
      exact ⟨events, d, hd, hpasses⟩
    | ok x =>
      obtain ⟨hformed', hkind'⟩ := hpasses.formed hformed hkind
      obtain ⟨events', d', hd', hpasses'⟩ := hf u x t hfirst t r v hrun d hd hformed' hkind'
      exact ⟨events' ++ events, d', hd', hpasses.trans hpasses'⟩

theorem attempt (ha : a.Stirs g) : (a.attempt : Act σ ε' (Except ε α)).Stirs g := by
  intro u r v hrun
  rw [Act.run_attempt] at hrun
  obtain ⟨⟨r', v'⟩, hfirst, heq⟩ := Option.map_eq_some_iff.1 hrun
  cases heq
  exact ha u r' v' hfirst

end Act.Stirs

/-- Where containers are changed by such callbacks only, a list is changed by insertions and
removals only. -/
theorem Store.Led.passes {invoke : Invoke σ ε} {s t : Store} {g : GraphId} {c : Container}
    (h : s.Led invoke t) (hinvoke : invoke.Stirs g) (hc : s.graphs[g]? = some c)
    (hformed : c.Formed) (hkind : c.kind = .list) :
    ∃ events d, t.graphs[g]? = some d ∧ c.Passes events d := by
  have hspared {a b : Store} {d : Container} (hab : a.Spares b) (ha : a.graphs[g]? = some d) :
      b.graphs[g]? = some d := by
    rw [hab.getElem? (Array.getElem?_eq_some_iff.1 ha).1, ha]
  obtain ⟨made, huntouched, hby⟩ := h
  induction made generalizing t with
  | nil => exact ⟨[], c, hspared huntouched hc, .start⟩
  | cons call earlier ih =>
    obtain ⟨events, d, hd, hpasses⟩ :=
      ih huntouched.2 fun call' hcall' => hby call' (List.mem_cons_of_mem _ hcall')
    obtain ⟨natives, callee, args, u, r, u', hrun, rfl, -⟩ := hby call List.mem_cons_self
    obtain ⟨hformed', hkind'⟩ := hpasses.formed hformed hkind
    obtain ⟨events', d', hd', hpasses'⟩ := hinvoke callee args u r u' hrun d hd hformed' hkind'
    exact ⟨events' ++ events, d', hspared huntouched.1 hd', hpasses.trans hpasses'⟩

/-- An action that changes containers in such callbacks only. -/
theorem Act.Stirs.of_traces {invoke : Invoke σ ε} {g : GraphId} {a : Act σ ε' α}
    {a' : Act (σ × List Callback) ε' α} (h : Traces invoke a a') (hinvoke : invoke.Stirs g) :
    a.Stirs g :=
  fun _ _ _ hrun _ => (Store.Led.of_traces h hrun).passes hinvoke

namespace Engine

variable {invoke : Invoke σ ε} {g : GraphId} {c : Container} {rule : Rule} {w v t : World σ}
  {members news : List (Nat × Value)} {n : Nat} {x y : Value}

/-! ### Governed insertions and removals -/

/-- A member that is listed sits in the list. -/
theorem sits_of_mem_roster {x : Held} (hc : c.Formed) (hx : x ∈ c.roster) :
    ∃ seq, c.Sits seq x.node x.value := by
  obtain ⟨view, hview, hsource, -, htarget, hvalue⟩ := hc.timed.mem_roster.1 hx
  exact ⟨view.tie.seq, view, hview, hsource, rfl, htarget, hvalue⟩

/-- The only change that gives a member of a list another value is the one that says so. -/
theorem stirs_commit {m : Mutation} (hm : ∀ i value, m ≠ .set i value) :
    (commit g m : Act σ (MutationError ε) _).Stirs g := by
  intro u r v hrun c hc hformed hkind
  cases hfrozen : c.frozen with
  | true =>
    cases (run_commit_frozen hc hfrozen m).symm.trans hrun
    exact ⟨[], c, hc, .start⟩
  | false =>
    unfold commit at hrun
    rw [Act.run_bind, Act.run_container] at hrun
    dsimp only at hrun
    rw [Store.get_of_getElem? hc, hfrozen, if_neg Bool.false_ne_true, Act.run_bind] at hrun
    cases hpreflight : (c.preflight m : Except (MutationError ε) Unit) with
    | error e =>
      rw [hpreflight] at hrun
      cases hrun
      exact ⟨[], c, hc, .start⟩
    | ok _ =>
      rw [hpreflight, run_ofCheck_ok] at hrun
      cases m with
      | insert value =>
        dsimp only at hrun
        rw [run_map_write _ hc (Container.addMember_of_mutable hfrozen _ _)] at hrun
        cases hrun
        exact ⟨_, _, getElem?_set hc _, Passes.start.insert value⟩
      | set i value => exact absurd rfl (hm i value)
      | remove target =>
        cases target with
        | index i =>
          dsimp only at hrun
          rw [Act.run_bind, hformed.nodeAt_eq hkind] at hrun
          by_cases hi : i < c.roster.length
          · have hx := List.get_mem c.roster ⟨i, hi⟩
            obtain ⟨-, hremove⟩ := removeNode_of_mem hformed hfrozen hx
            obtain ⟨seq, hsits⟩ := sits_of_mem_roster hformed hx
            rw [dif_pos hi, run_ofCheck_ok] at hrun
            dsimp only at hrun
            rw [run_map_write _ hc hremove] at hrun
            cases hrun
            exact ⟨_, _, getElem?_set hc _, Passes.start.remove hsits⟩
          · rw [dif_neg hi] at hrun
            cases hrun
            exact ⟨[], c, hc, .start⟩
        | _ =>
          simp only [Container.preflight, Container.expectMap, Container.expectUser, hkind]
            at hpreflight
          cases hpreflight
      -- The remaining changes are for maps and user graphs, and a list refuses them.
      | _ =>
        simp only [Container.preflight, Container.expectMap, Container.expectUser, hkind]
          at hpreflight
        cases hpreflight

/-- A governed change other than a replacement leaves a list alone but for insertions and removals,
if its callbacks do. -/
theorem stirs_apply (hinvoke : invoke.Stirs g) {m : Mutation} (hm : ∀ i value, m ≠ .set i value) :
    (apply invoke g m).Stirs g := by
  have hcheck (x : Except (MutationError ε) Unit) :
      (ofCheck x : Act σ (MutationError ε) Unit).Stirs g :=
    .of_traces (traces_ofCheck invoke x) hinvoke
  have hreport (level : Level) (message : String) (fields : Store → List (String × String)) :
      (Act.report level target message fields : Act σ (MutationError ε) Unit).Stirs g :=
    .of_traces (.report level target message fields) hinvoke
  have hgoverned (rules : List Rule) (u v : World σ) (m' : Mutation)
      (h : govern invoke g rules m u = some (.ok m', v)) : ∀ i value, m' ≠ .set i value := by
    obtain ⟨-, -, ⟨-, rfl, -⟩ | ⟨-, value', -, rfl, -⟩⟩ := rewritten_of_govern h
    · exact hm
    · cases m with
      | set i value => exact absurd rfl (hm i value)
      | link source target name data => cases data <;> rintro i value ⟨⟩
      | _ => rintro i value ⟨⟩
  refine .bind (.of_traces (.container g) hinvoke) fun _ c _ _ => ?_
  split
  · exact .bind (hreport _ _ _) fun _ _ _ _ => .of_traces (.throw _) hinvoke
  · refine .bind (hcheck _) fun _ _ _ _ => ?_
    refine .bind (.of_traces (traces_govern invoke g c.rules m) hinvoke) fun u m' v hgovern => ?_
    refine .bind (stirs_commit (hgoverned c.rules u v m' hgovern)) fun _ applied _ _ => ?_
    exact .bind (hreport _ _ _) fun _ _ _ _ => .of_traces (.pure applied) hinvoke

/-! ### Taking turns -/

/-- What a rule that goes through members makes of the value of one of them in its turn. -/
def Gives (invoke : Invoke σ ε) (rule : Rule) (members : List (Nat × Value)) (w : World σ) (n : Nat)
    (x y : Value) : Prop :=
  ∃ before after news u v, members = before ++ (n, x) :: after ∧
    updates invoke rule before w = some (.ok news, u) ∧ transform invoke rule x u = some (.ok y, v)

theorem Gives.mem (h : Gives invoke rule members w n x y) : (n, x) ∈ members := by
  obtain ⟨before, after, -, -, -, rfl, -, -⟩ := h
  simp

/-- Each new value is what the rule made of the value of a member in its turn. -/
theorem gives_of_updates (h : updates invoke rule members w = some (.ok news, t)) :
    news.map (·.1) = members.map (·.1) ∧
      ∀ n y, (n, y) ∈ news → ∃ x, Gives invoke rule members w n x y := by
  induction members generalizing w news with
  | nil =>
    cases h
    exact ⟨rfl, by simp⟩
  | cons member rest ih =>
    obtain ⟨value, u, hfirst, h⟩ := Act.run_bind_eq_ok.1 h
    obtain ⟨others, v, hrest, h⟩ := Act.run_bind_eq_ok.1 h
    cases h
    obtain ⟨hnodes, hgives⟩ := ih hrest
    refine ⟨by rw [List.map_cons, List.map_cons, hnodes], fun n y hmem => ?_⟩
    obtain heq | hmem := List.mem_cons.1 hmem
    · cases heq
      exact ⟨member.2, [], rest, [], w, u, rfl, rfl, hfirst⟩
    · obtain ⟨x, before, after, news, u', v', rfl, hbefore, htransform⟩ := hgives n y hmem
      refine ⟨x, member :: before, after, (member.1, value) :: news, u', v', rfl, ?_, htransform⟩
      exact Act.run_bind_eq_ok.2 ⟨value, u, hfirst,
        Act.run_bind_eq_ok.2 ⟨news, u', hbefore, rfl⟩⟩

/-! ### Writing what was computed -/

/-- No rule is attached to a frozen container. -/
theorem mutable_of_addRule (hc : w.store.graphs[g]? = some c)
    (h : addRule invoke g rule w = some (.ok (), v)) : c.frozen = false := by
  by_contra hfrozen
  rw [Bool.not_eq_false] at hfrozen
  cases (run_addRule_frozen hc hfrozen invoke rule).symm.trans h

/-- When a rule that rewrites is attached to a list, its callbacks insert elements and remove
members, and then the new values of all that were members at the start are written. -/
theorem rewritten_of_addRule (hc : w.store.graphs[g]? = some c) (hformed : c.Formed)
    (hkind : c.kind = .list) (hrule : rule.transformsIncoming = true) (hinvoke : invoke.Stirs g)
    (h : addRule invoke g rule w = some (.ok (), v)) :
    ∃ news t d events, prepareRule invoke g rule w = some (.ok news, t) ∧
      t.store.graphs[g]? = some d ∧ c.Passes events d ∧
      v.store.graphs[g]? = some { d.rewrite news with rules := d.rules ++ [rule] } ∧
      news.map (·.1) = c.members ∧
      ∀ n y, (n, y) ∈ news →
        ∃ x, Gives invoke rule (c.roster.map fun z => (z.node, z.value)) w n x y := by
  have hmutable := mutable_of_addRule hc h
  rw [run_addRule hc hmutable] at h
  obtain ⟨news, t, hprepared, hattach⟩ := Act.run_bind_eq_ok.1 h
  obtain ⟨events, d, hd, hpasses⟩ :=
    (Store.Led.of_traces (traces_prepareRule invoke g rule) hprepared).passes hinvoke hc hformed
      hkind
  obtain ⟨v', hattach', hstore⟩ :=
    run_attachRule (ε := ε) hd (hpasses.rest_eq.1.trans hmutable) rule news
  cases hattach.symm.trans hattach'
  have hupdates := hprepared
  rw [prepareRule_eq_updates hrule hc hformed] at hupdates
  obtain ⟨hnodes, hgives⟩ := gives_of_updates hupdates
  rw [Container.Formed.map_handles, ← hformed.members_eq] at hnodes
  exact ⟨news, t, d, events, hprepared, hd, hpasses, by rw [hstore, getElem?_set hd], hnodes,
    hgives⟩

end Engine

/-! ### Callbacks that change a list of two numbers -/

/-- Ten times a number. -/
def tenfold : List Value → Value
  | [.int i] => .int (10 * i)
  | _ => .nil

/-- Whether the number is one. -/
def isOne : List Value → Bool
  | [.int 1] => true
  | _ => false

/-- A callback that gives ten times a number. When it is asked about one, it changes the list
before. -/
def meddling (changes : List Mutation) : Invoke Unit String := fun _ args => do
  if isOne args then
    changes.forM fun m => discard (Engine.apply answerTrue 0 m).attempt
  return tenfold args

/-- The list of one and two. -/
def oneAndTwo : World Unit := .holding #[.ofElements [.int 1, .int 2]]

/-- The rule that replaces a number by ten times the number. -/
def makeTenfold : Rule := .transform (.custom "tenfold" .nil)

theorem answerTrue_stirs (g : GraphId) : answerTrue.Stirs g := by
  rintro callee args u r v hrun c hc hformed hkind
  cases hrun
  exact ⟨[], c, hc, .start⟩

/-- It changes the list by what it is given. -/
theorem meddling_stirs {changes : List Mutation} (h : ∀ m ∈ changes, ∀ i value, m ≠ .set i value) :
    (meddling changes).Stirs 0 := by
  have hpure {α : Type} (x : α) : (Pure.pure x : Act Unit (InvokeError String) α).Stirs 0 :=
    .of_traces (.pure x) (answerTrue_stirs 0)
  have hchanges : (changes.forM fun m => discard (Engine.apply answerTrue 0 m).attempt :
      Act Unit (InvokeError String) PUnit).Stirs 0 := by
    induction changes with
    | nil => exact hpure _
    | cons m rest ih =>
      have hm := h m List.mem_cons_self
      refine .bind ?_ fun _ _ _ _ => ih fun m' hm' => h m' (List.mem_cons_of_mem _ hm')
      exact .bind (Engine.stirs_apply (answerTrue_stirs 0) hm).attempt fun _ _ _ _ => hpure _
  intro callee args
  unfold meddling
  split
  · exact .bind hchanges fun _ _ _ _ => hpure _
  · exact hpure _

/-! ### Attaching the rule -/

open Engine in
/-- A rule that rewrites is attached to a list, and its callbacks insert elements into the list and
remove members of it meanwhile. Every member that was there from the start and was never removed
then has what the rule made of its value in its turn. Every member that was inserted and not removed
again has the value that it was inserted with, unless it sits at a node of a member that was there
from the start: then it has what the rule made of the value of that member. Nobody who was removed
is there. -/
theorem rewritten_while_changing {invoke : Invoke σ ε} {g : GraphId} {c : Container} {rule : Rule}
    {w v : World σ} (hc : w.store.graphs[g]? = some c) (hformed : c.Formed)
    (hkind : c.kind = .list) (hrule : rule.transformsIncoming = true) (hinvoke : invoke.Stirs g)
    (h : addRule invoke g rule w = some (.ok (), v)) :
    ∃ news t d events c', prepareRule invoke g rule w = some (.ok news, t) ∧
      t.store.graphs[g]? = some d ∧ c.Passes events d ∧ v.store.graphs[g]? = some c' ∧
      (∀ seq n x, c.Sits seq n x → .removed seq ∉ events →
        ∃ y, c'.Sits seq n y ∧
          Gives invoke rule (c.roster.map fun z => (z.node, z.value)) w n x y) ∧
      (∀ seq n x, .inserted seq n x ∈ events → .removed seq ∉ events →
        ∃ y, c'.Sits seq n y ∧ (n ∉ c.members → y = x) ∧ (n ∈ c.members →
          ∃ z, Gives invoke rule (c.roster.map fun z => (z.node, z.value)) w n z y)) ∧
      ∀ seq n y, c'.Sits seq n y → .removed seq ∉ events := by
  obtain ⟨news, t, d, events, hprepared, hd, hpasses, hv, hnodes, hgives⟩ :=
    rewritten_of_addRule hc hformed hkind hrule hinvoke h
  obtain ⟨hformed', -⟩ := hpasses.formed hformed hkind
  refine ⟨news, t, d, events, _, hprepared, hd, hpasses, hv, fun seq n x hsits hremoved => ?_,
    fun seq n x hinserted hremoved => ?_, fun seq n y hsits => ?_⟩
  · have hthere := (hpasses.sits_iff hformed hkind).2 ⟨hremoved, Or.inl hsits⟩
    obtain ⟨y, hy⟩ := hformed'.sits_rewrite news hthere
    refine ⟨y, hy, ?_⟩
    obtain ⟨-, -, ⟨hnot, -⟩ | hnew⟩ := hformed'.sits_of_rewrite hy
    · rw [hnodes] at hnot
      exact absurd (hsits.mem_members hformed) hnot
    · obtain ⟨x', hx'⟩ := hgives n y hnew
      obtain ⟨z, hz, heq⟩ := List.mem_map.1 hx'.mem
      cases heq
      obtain ⟨-, -, -, -, -, hvalue⟩ := hsits
      cases hvalue.symm.trans (hformed.value?_of_mem hz)
      exact hx'
  · have hthere := (hpasses.sits_iff hformed hkind).2 ⟨hremoved, Or.inr hinserted⟩
    obtain ⟨y, hy⟩ := hformed'.sits_rewrite news hthere
    -- New values are written by node: the one of a removed member is written to a new one there.
    obtain ⟨x', hsits', ⟨hnot, rfl⟩ | hnew⟩ := hformed'.sits_of_rewrite hy
    · exact ⟨y, hy, fun _ => hsits'.value_eq hthere, fun hnode => absurd (hnodes ▸ hnode) hnot⟩
    · have hnode : n ∈ c.members := hnodes ▸ List.mem_map_of_mem hnew
      exact ⟨y, hy, fun hnot => absurd hnode hnot, fun _ => hgives n y hnew⟩
  · obtain ⟨x, hsits', -⟩ := hformed'.sits_of_rewrite hsits
    exact ((hpasses.sits_iff hformed hkind).1 hsits').1

/-- A rule is attached to the list of one and two, and its callback appends seven and removes the
one meanwhile. What was the two becomes twenty, and the seven stays. -/
theorem seven_stays : ∃ events d v c',
    Engine.addRule (meddling [.insert (.int 7), .remove (.index 0)]) 0 makeTenfold oneAndTwo =
      some ((.ok () : Except (MutationError String) Unit), v) ∧
    (Container.ofElements [.int 1, .int 2]).Passes events d ∧
    v.store.graphs[0]? = some c' ∧ c'.elements = [.int 20, .int 7] ∧
    ∀ seq n x, .inserted seq n x ∈ events → .removed seq ∉ events →
      ∃ y, c'.Sits seq n y ∧ (n ∉ (Container.ofElements [.int 1, .int 2]).members → y = x) := by
  have hrun : (Engine.addRule (meddling [.insert (.int 7), .remove (.index 0)]) 0 makeTenfold
      oneAndTwo : Option (Except (MutationError String) Unit × World Unit)).map
        (fun p => (p.1.isOk, (p.2.store.get 0).elements)) = some (true, [.int 20, .int 7]) := by
    cbv
  obtain ⟨⟨r, v⟩, hadd, hfacts⟩ := Option.map_eq_some_iff.1 hrun
  obtain ⟨hok, helements⟩ := Prod.mk.inj hfacts
  cases r with
  | error e => cases hok
  | ok _ =>
    obtain ⟨news, t, d, events, c', -, -, hpasses, hc', -, hinserted, -⟩ :=
      rewritten_while_changing rfl (Container.built_ofElements _).formed rfl rfl
        (meddling_stirs (by rintro m hm i value rfl; simp at hm)) hadd
    rw [Store.get_of_getElem? hc'] at helements
    refine ⟨events, d, v, c', hadd, hpasses, hc', helements, fun seq n x hin hnot => ?_⟩
    obtain ⟨y, hy, hvalue, -⟩ := hinserted seq n x hin hnot
    exact ⟨y, hy, hvalue⟩

/-- Its callback removes the two and appends seven: when all new values are computed, the list holds
one and seven. The seven sits where the two was, and becomes the twenty that was made of the two. -/
theorem seven_overwritten :
    (meddling [.remove (.index 1), .insert (.int 7)]).Stirs 0 ∧
    (Engine.prepareRule (meddling [.remove (.index 1), .insert (.int 7)]) 0 makeTenfold oneAndTwo :
      Option (Except (MutationError String) (List (Nat × Value)) × World Unit)).map
        (fun p => (p.1.isOk, (p.2.store.get 0).elements)) = some (true, [.int 1, .int 7]) ∧
    (Engine.addRule (meddling [.remove (.index 1), .insert (.int 7)]) 0 makeTenfold oneAndTwo :
      Option (Except (MutationError String) Unit × World Unit)).map
        (fun p => (p.1.isOk, (p.2.store.get 0).elements)) = some (true, [.int 10, .int 20]) := by
  refine ⟨meddling_stirs (by rintro m hm i value rfl; simp at hm), ?_, ?_⟩
  · cbv
  · cbv

end GraphLang
