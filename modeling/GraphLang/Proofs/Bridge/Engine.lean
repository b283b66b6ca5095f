import GraphLang.Proofs.Bridge.Tracks
import GraphLang.Proofs.Rule.Failures
import GraphLang.Proofs.Rule.Writes

/-!
# Governed changes across a bridge

Where callbacks track each other, so do the changes that they govern: the same rules refuse, with
the same reasons, and what is written on both sides corresponds. Containers go on holding nothing
out of sight, because every write is one of a few that keep it so.
-/

namespace GraphLang

variable {B C : Bridge} {ε α β : Type} {F : Span ε} {A : Span α}

/-! ### Writes -/

namespace Container

/-- Related results, and corresponding containers that hold nothing out of sight. -/
def Written (A : Span α) : Span (α × Container) :=
  fun B p p' => A B p.1 p'.1 ∧ p.2.Across B p'.2 ∧ p.2.Neat

/-- The number of a new node, which is the same on both sides. -/
def Added : Span Nat := fun _ n n' => n = n' ∧ n ≠ root

/-- A new member sits at no node that was there. -/
theorem Neat.fst_attach_ne_root {c : Container} (h : c.Neat) (label : Label) (v : Value) :
    (c.attach label v).1 ≠ root := by
  intro hroot
  have hfresh := hasNode_fst_attach label v h.formed.timed.sound
  rw [hroot, h.formed.hasNode_root] at hfresh
  cases hfresh

namespace Across

variable {c c' : Container} {v v' : Value}

theorem ensureMutable (h : c.Across B c') :
    Outcomes Eq (fun _ _ => True) c.ensureMutable c'.ensureMutable := by
  unfold Container.ensureMutable
  rw [h.frozen]
  split
  · exact .error rfl
  · exact .ok trivial

theorem ensureNode (h : c.Across B c') (n : Nat) :
    Outcomes Eq (fun _ _ => c.graph.hasNode n = true) (c.ensureNode n) (c'.ensureNode n) := by
  unfold Container.ensureNode
  rw [h.hasNode]
  split
  · exact .ok (by assumption)
  · exact .error rfl

theorem addMember (h : c.Across B c') (hneat : c.Neat) {label : Label}
    (hfits : c.kind.fits label = true) (hkey : c.kind = .map → label ∉ c.roster.map (·.label))
    (hv : v.Across B v') :
    Outcomes Eq (Written Added B) (c.addMember label v) (c'.addMember label v') :=
  h.ensureMutable.bind fun _ => .ok ⟨⟨(h.attach label hv).1.symm, hneat.fst_attach_ne_root label v⟩,
    (h.attach label hv).2, hneat.attach hfits hkey⟩

theorem addEdge (h : c.Across B c') (hneat : c.Neat) {source target : Nat} (hsource : source ≠ root)
    (htarget : target ≠ root) (name : String) {d d' : Option Value}
    (hd : Span.maybe Value.Across B d d') :
    Outcomes Eq (Written Span.same B) (c.addEdge source target (.link name) d)
      (c'.addEdge source target (.link name) d') := by
  refine h.ensureMutable.bind fun _ => ?_
  refine (h.ensureNode source).bind fun hhas => (h.ensureNode target).bind fun hhas' => ?_
  have hedge := h.connect source target (.link name) fun _ => hd
  exact .ok ⟨hedge.1.symm, hedge.2, hneat.connect name d (hneat.formed.mem_nodes.2 ⟨hsource, hhas⟩)
    (hneat.formed.mem_nodes.2 ⟨htarget, hhas'⟩)⟩

theorem setValue (h : c.Across B c') (hneat : c.Neat) {n : Nat} (hn : n ≠ root)
    (hv : v.Across B v') :
    Outcomes Eq (Written Value.Across B) (c.setValue n v) (c'.setValue n v') := by
  refine h.ensureMutable.bind fun _ => ?_
  obtain ⟨hm, hm'⟩ | ⟨m, m', hm, hm', hacross⟩ := (h.graph.node? n).none_or_some <;> rw [hm, hm']
  · exact .error rfl
  · exact .ok ⟨hacross.value, h.putValue n hv, hneat.putValue hn⟩

theorem remove (h : c.Across B c') (hneat : c.Neat) (n : Nat) :
    Outcomes Eq (Written Value.Across B) (Container.removeNode c n)
      (Container.removeNode c' n) := by
  refine h.ensureMutable.bind fun _ => ?_
  split
  · exact .error rfl
  · next hn =>
    obtain ⟨hm, hm'⟩ | ⟨m, m', hm, hm', hacross⟩ := (h.graph.node? n).none_or_some <;> rw [hm, hm']
    · exact .error rfl
    · exact .ok ⟨hacross.value, h.removeNode n, hneat.removeNode (by simpa using hn)⟩

theorem pushRule (h : c.Across B c') (hneat : c.Neat) {rule rule' : Rule}
    (hrule : rule.Across B rule') :
    Outcomes Eq (Written Span.same B) ((c.pushRule rule).map fun c => ((), c))
      ((c'.pushRule rule').map fun c => ((), c)) := by
  unfold Container.pushRule
  have hmutable := h.ensureMutable
  generalize c.ensureMutable = r, c'.ensureMutable = r' at hmutable
  cases hmutable with
  | error he => exact .error he
  | ok => exact .ok ⟨rfl, h.withRules (List.rel_append h.rules (.cons hrule .nil)),
      hneat.withRules _⟩

end Across

/-! ### What conditions say -/

variable {c : Container} {v : Value}

theorem kind_of_insert (h : (c.preflight (.insert v) : Except (MutationError ε) Unit) = .ok ()) :
    c.kind = .list := by
  change c.expectList = _ at h
  unfold expectList at h
  split at h
  · assumption
  · cases h

theorem kind_of_put {key : Key}
    (h : (c.preflight (.put key v) : Except (MutationError ε) Unit) = .ok ()) : c.kind = .map := by
  change c.expectMap = _ at h
  unfold expectMap at h
  split at h
  · assumption
  · cases h

theorem kind_of_addMember {parent : Option (Nat × String)}
    (h : (c.preflight (.addMember v parent) : Except (MutationError ε) Unit) = .ok ()) :
    (∃ name, c.kind = .user name) ∧ ∀ p ∈ parent, p.1 ≠ root := by
  obtain ⟨_, hkind, hparent⟩ := Except.bind_eq_ok h
  refine ⟨?_, fun p hp => ?_⟩
  · unfold expectUser at hkind
    split at hkind
    · exact ⟨_, by assumption⟩
    · cases hkind
  · cases hp
    exact (hasNode_of_expectMember hparent).1

theorem ne_root_of_link {source target : Nat} {name : String} {data : Option Value}
    (h : (c.preflight (.link source target name data) : Except (MutationError ε) Unit) = .ok ()) :
    source ≠ root ∧ target ≠ root := by
  obtain ⟨_, -, h⟩ := Except.bind_eq_ok h
  obtain ⟨_, hsource, htarget⟩ := Except.bind_eq_ok h
  exact ⟨(hasNode_of_expectMember hsource).1, (hasNode_of_expectMember htarget).1⟩

theorem Neat.ne_root_of_nodeAt (h : c.Neat) {i n : Nat}
    (hn : (c.nodeAt i : Except (MutationError ε) Nat) = .ok n) : n ≠ root := by
  unfold nodeAt at hn
  split at hn
  · next node hnode =>
    cases hn
    exact h.ne_root_of_elementNode? hnode
  · cases hn

/-- A new member of a container with keys has a key of its own. -/
theorem Neat.fresh_key (h : c.Neat) {key : Key} (hnone : c.entryNode? key = none) :
    Label.entry key ∉ c.roster.map (·.label) := by
  obtain ⟨x, -, -, hnode⟩ | ⟨hkey, -⟩ := h.formed.nodeUnder_cases key
  · cases hnone.symm.trans hnode
  · exact hkey

end Container

theorem MutationError.Plain.across {e : MutationError String} (h : e.Plain) : e.Across B e := by
  refine .plain fun rule raised heq => ?_
  subst heq
  exact h

/-- Callbacks come to corresponding results where they are called alike. -/
structure Invoke.Blind (invoke : Invoke Session String) : Prop where
  tracks : ∀ {B : Bridge} {callee callee' : Value} {args args' : List Value},
    callee.Across B callee' → Span.each Value.Across B args args' →
    Act.Tracks B InvokeError.Across Value.Across (invoke callee args) (invoke callee' args')

open Container (Applied Written)

namespace Engine

theorem follows_write {w w' : Machine} (hw : w.Across B w') (g : GraphId)
    {step step' : Container → Except ContainerError (α × Container)}
    (h : Outcomes Eq (Written A B) (step (w.store.get g)) (step' (w'.store.get g))) :
    Follows B MutationError.Across A (write g step w) (write g step' w') := by
  generalize hstep : step (w.store.get g) = r, hstep' : step' (w'.store.get g) = r' at h
  cases h with
  | error he =>
    rw [run_write_error hstep, run_write_error hstep', he]
    exact .error hw (MutationError.plain_ofContainer _).across
  | @ok p p' hp =>
    obtain ⟨hresult, hacross, hneat⟩ := hp
    rw [run_write_ok hstep, run_write_ok hstep']
    exact .ok (hw.setStore (hw.store.set hacross hneat)) hresult

/-- The same outcome of a check, and the same continuation. -/
theorem follows_ofCheck {w w' : Machine} (hw : w.Across B w')
    {x x' : Except (MutationError String) β} (hx : x' = x) (hplain : Container.Plainly x)
    {f f' : β → Act Session (MutationError String) α}
    (hf : ∀ b, x = .ok b → Follows B MutationError.Across A (f b w) (f' b w')) :
    Follows B MutationError.Across A ((ofCheck x >>= f) w) ((ofCheck x' >>= f') w') := by
  subst hx
  cases hb : x' with
  | error e => exact .error hw (hplain e hb).across
  | ok b => exact hf b hb

theorem tracks_ofCheck {x : Except (MutationError String) β} (hplain : Container.Plainly x) :
    Act.Tracks B MutationError.Across Span.same (ofCheck x) (ofCheck x) := by
  cases hx : x with
  | error e => exact .throw fun _ => (hplain e hx).across
  | ok b => exact .pure fun _ => rfl

/-- A change is made on both sides, or fails for the same reason. -/
theorem tracks_commit {g : GraphId} (hg : B.shares g) {m m' : Mutation} (hm : m.Across B m') :
    Act.Tracks B MutationError.Across Applied.Across (commit g m) (commit g m') := by
  refine ⟨fun {C} hBC {w w'} hw => ?_⟩
  have hc := hw.store.container (B.shares_mono hBC hg)
  have hneat := hw.store.neat (B.shares_mono hBC hg)
  have hm := Mutation.grows_across hBC hm
  unfold commit
  rw [Act.run_bind, Act.run_bind, Act.run_container, Act.run_container]
  dsimp only
  rw [hc.frozen]
  split
  · exact .error hw (MutationError.Across.plain (by simp))
  refine follows_ofCheck hw (hc.preflight hm) (Container.plainly_preflight m) fun _ hpre => ?_
  cases hm with
  | insert hv =>
    have hkind := Container.kind_of_insert hpre
    have hfits : (w.store.get g).kind.fits .element = true := by
      rw [hkind]
      rfl
    have hwrite := hc.addMember hneat hfits (fun hmap => by cases hkind.symm.trans hmap) hv
    exact (follows_write hw g hwrite).map fun _ _ _ hn => hn.1 ▸ .node _
  | set i hv =>
    refine follows_ofCheck hw (hc.nodeAt i) (Container.plainly_nodeAt i) fun n hn => ?_
    exact (follows_write hw g (hc.setValue hneat (hneat.ne_root_of_nodeAt hn) hv)).map
      fun _ _ _ hold => .value hold
  | put key hv =>
    have hkind := Container.kind_of_put hpre
    dsimp only
    rw [hc.entryNode?]
    cases hnode : (w.store.get g).entryNode? key with
    | some n =>
      exact (follows_write hw g (hc.setValue hneat (hneat.ne_root_of_entryNode? hnode) hv)).map
        fun _ _ _ _ => .node n
    | none =>
      have hfits : (w.store.get g).kind.fits (.entry key) = true := by
        rw [hkind]
        rfl
      have hwrite := hc.addMember hneat hfits (fun _ => hneat.fresh_key hnode) hv
      exact (follows_write hw g hwrite).map fun _ _ _ hn => hn.1 ▸ .node _
  | remove target =>
    have hremove (n : Nat) : Follows C MutationError.Across Applied.Across
        ((Applied.value <$> write g (·.removeNode n)) w)
        ((Applied.value <$> write g (·.removeNode n)) w') :=
      (follows_write hw g (hc.remove hneat n)).map fun _ _ _ hold => .value hold
    cases target with
    | index i =>
      exact follows_ofCheck hw (hc.nodeAt i) (Container.plainly_nodeAt i) fun n _ => hremove n
    | key key =>
      exact follows_ofCheck hw (hc.nodeUnder key) (Container.plainly_nodeUnder key)
        fun n _ => hremove n
    | node n => exact hremove n
  | @addMember v v' hv parent =>
    obtain ⟨⟨name, hkind⟩, hparent⟩ := Container.kind_of_addMember hpre
    have hfits : (w.store.get g).kind.fits .contains = true := by
      rw [hkind]
      rfl
    have hwrite := hc.addMember hneat hfits (fun hmap => by cases hkind.symm.trans hmap) hv
    refine (follows_write hw g hwrite).bind fun {E} hCE n n' hn u u' hu => ?_
    obtain ⟨rfl, hne⟩ := hn
    cases parent with
    | none => exact .ok hu (.node n)
    | some link =>
      have hg := B.shares_mono (le_trans hBC hCE) hg
      have hlink := (hu.store.container hg).addEdge (hu.store.neat hg) (hparent link rfl) hne
        link.2 .none
      exact (follows_write hu g hlink).map fun _ _ _ _ => .node n
  | link source target name hdata =>
    obtain ⟨hsource, htarget⟩ := Container.ne_root_of_link hpre
    exact (follows_write hw g (hc.addEdge hneat hsource htarget name hdata)).map
      fun _ _ _ hn => hn ▸ .edge _

/-! ### Rules -/

variable {invoke : Invoke Session String} {v v' : Value}

/-- What is asked about values that correspond comes to the same. -/
theorem tracks_ask (hinvoke : invoke.Blind) {callee callee' : Value}
    (hcallee : callee.Across B callee') (hv : v.Across B v') :
    Act.Tracks B MutationError.Across Span.same (ask invoke callee v) (ask invoke callee' v') := by
  refine .bind (hinvoke.tracks hcallee (.cons hv .nil)).attempt fun {C} _ r r' hr => ?_
  cases hr with
  | ok hresult =>
    refine .bind .store fun hCE s s' hs => .pure fun _ => ?_
    rw [hs.isTruthy (hresult.mono hCE)]
    rfl
  | error he =>
    cases he with
    | raised hraised =>
      refine .bind .store fun hCE s s' hs => .pure fun _ => ?_
      rw [hs.display (hraised.exception.mono hCE)]
      rfl
    | fatal text => exact .pure fun _ => rfl

theorem tracks_refuse {r r' : Validation} (hr : r.Across B r') (reason : Option Rejection) :
    Act.Tracks B MutationError.Across A (refuse r reason) (refuse r' reason) := by
  unfold refuse
  rw [hr.display]
  exact .bind .say fun _ _ _ _ => .throw fun _ => .plain (by simp)

/-- A validation that the container itself decides. -/
theorem tracks_checked {g : GraphId} (hg : B.shares g) {r r' : Validation} (hr : r.Across B r')
    {m m' : Mutation} (hm : m.Across B m') : Act.Tracks B MutationError.Across Span.same
      (Act.store >>= fun s => match r.check s (s.get g) m with
        | .ok _ => Pure.pure ()
        | .error reason => refuse r (some reason))
      (Act.store >>= fun s => match r'.check s (s.get g) m' with
        | .ok _ => Pure.pure ()
        | .error reason => refuse r' (some reason)) := by
  refine .bind .store fun {C} hBC s s' hs => ?_
  have hr := Validation.grows_across hBC hr
  rw [hs.check hr (hs.container (B.shares_mono hBC hg)) (Mutation.grows_across hBC hm)]
  split
  · exact .pure fun _ => rfl
  · exact tracks_refuse hr _

theorem tracks_validate (hinvoke : invoke.Blind) {g : GraphId} (hg : B.shares g)
    {r r' : Validation} (hr : r.Across B r') {m m' : Mutation} (hm : m.Across B m') :
    Act.Tracks B MutationError.Across Span.same (validate invoke g r m)
      (validate invoke g r' m') := by
  cases hr with
  | predicate name hcallee =>
    unfold validate
    obtain ⟨hx, hx'⟩ | ⟨x, x', hx, hx', hincoming⟩ := hm.incoming?.none_or_some <;> rw [hx, hx']
    · exact .pure fun _ => rfl
    · refine .bind (tracks_ask hinvoke hcallee hincoming) fun hBC verdict verdict' hverdict => ?_
      subst hverdict
      cases verdict with
      | holds => exact .pure fun _ => rfl
      | refused reason =>
        exact tracks_refuse (.predicate name (hcallee.mono hBC)) reason
      | aborted cause => exact .throw fun _ => .plain (by simp)
  | maxSize limit => exact tracks_checked hg (.maxSize limit) hm
  | acyclic => exact tracks_checked hg .acyclic hm
  | singleRoot => exact tracks_checked hg .singleRoot hm
  | homogeneous => exact tracks_checked hg .homogeneous hm

theorem tracks_rejectMixed {g : GraphId} (hg : B.shares g) {rule rule' : Rule}
    (hrule : rule.Across B rule') (hv : v.Across B v') :
    Act.Tracks B MutationError.Across Span.same (rejectMixed g rule v)
      (rejectMixed g rule' v') := by
  cases hv with
  | graph hinner =>
    refine .bind .store fun hBC s s' hs => ?_
    rw [(hs.container (B.shares_mono hBC hinner)).frozen,
      (hs.container (B.shares_mono hBC hg)).frozen, hrule.display s s']
    dsimp only
    split
    · exact .pure fun _ => rfl
    · exact .bind .say fun _ _ _ _ => .throw fun _ => .plain (by simp)
  | _ => exact .pure fun _ => rfl

theorem tracks_consult (hinvoke : invoke.Blind) {g : GraphId} (hg : B.shares g)
    {m m' : Mutation} (hm : m.Across B m') {rule rule' : Rule} (hrule : rule.Across B rule') :
    Act.Tracks B MutationError.Across Span.same (consult invoke g m rule)
      (consult invoke g m' rule') := by
  have hkept := hrule
  cases hrule with
  | validate hr => exact tracks_validate hinvoke hg hr hm
  | transform | conditional => exact .pure fun _ => rfl
  | freeze f =>
    cases f with
    | rejectMixed =>
      unfold consult
      obtain ⟨hx, hx'⟩ | ⟨x, x', hx, hx', hincoming⟩ := hm.incoming?.none_or_some <;> rw [hx, hx']
      · exact .pure fun _ => rfl
      · exact tracks_rejectMixed hg hkept hincoming
    | copyElements => exact .pure fun _ => rfl

/-- A transformation that calls nothing. -/
theorem tracks_applied {r r' : Transform} (hr : r.Across B r') (hv : v.Across B v') :
    Act.Tracks B MutationError.Across Value.Across
      (Act.store >>= fun s => match r.apply s v with
        | .ok result => Pure.pure result
        | .error cause => throw (.transformFailed (r.display s none) cause))
      (Act.store >>= fun s => match r'.apply s v' with
        | .ok result => Pure.pure result
        | .error cause => throw (.transformFailed (r'.display s none) cause)) := by
  refine .bind .store fun {C} hBC s s' hs => ?_
  have hr := Transform.grows_across hBC hr
  have happly := hs.apply hr (hv.mono hBC)
  generalize r.apply s v = y, r'.apply s' v' = y' at happly
  cases happly with
  | ok hresult => exact .pure fun hCE => hresult.mono hCE
  | error he =>
    rw [he, hr.display s s']
    exact .throw fun _ => .plain (by simp)

theorem tracks_runTransform (hinvoke : invoke.Blind) {r r' : Transform} (hr : r.Across B r')
    (hv : v.Across B v') :
    Act.Tracks B MutationError.Across Value.Across (runTransform invoke r v)
      (runTransform invoke r' v') := by
  cases hr with
  | custom name hcallee =>
    refine .bind (hinvoke.tracks hcallee (.cons hv .nil)).attempt fun {C} _ y y' hy => ?_
    cases hy with
    | ok hresult => exact .pure fun hCE => hresult.mono hCE
    | error he =>
      cases he with
      | raised hraised =>
        exact .bind .say fun hCE _ _ _ => .throw fun hEF =>
          .raised (Raised.grows_across (le_trans hCE hEF) hraised)
      | fatal text => exact .throw fun _ => .plain (by simp)
  | noneToZero => exact tracks_applied .noneToZero hv
  | coalesce l => exact tracks_applied (.coalesce l) hv
  | clamp min max => exact tracks_applied (.clamp min max) hv
  | round digits => exact tracks_applied (.round digits) hv
  | lowercase => exact tracks_applied .lowercase hv
  | uppercase => exact tracks_applied .uppercase hv
  | trim => exact tracks_applied .trim hv
  | lookup l ht => exact tracks_applied (.lookup l ht) hv

/-- Copies are made of containers that correspond, with the same numbers. -/
theorem tracks_unfrozenCopy (hv : v.Across B v') :
    Act.Tracks B MutationError.Across Value.Across (unfrozenCopy v) (unfrozenCopy v') := by
  cases hv with
  | graph hg =>
    refine ⟨fun {C} hBC {w w'} hw => ?_⟩
    have hg := B.shares_mono hBC hg
    obtain ⟨more, ⟨hcopy, hneat⟩, hstore⟩ :=
      hw.store.deepCopy (hw.store.container hg) (hw.store.neat hg)
    have halloc : Act.Tracks (C.share more) MutationError.Across Value.Across
        (Act.alloc (w.store.deepCopy (w.store.get _)).1)
        (Act.alloc (w'.store.deepCopy (w'.store.get _)).1) := .alloc hcopy hneat
    exact (halloc.follows le_rfl (hw.withStore hstore)).weaken (C.le_share more)
  | nil => exact .pure fun _ => .nil
  | bool b => exact .pure fun _ => .bool b
  | int i => exact .pure fun _ => .int i
  | float x => exact .pure fun _ => .float x
  | str t => exact .pure fun _ => .str t
  | function hc => exact .pure fun hBC => .function (B.joins_mono hBC hc)
  | native hn => exact .pure fun _ => .native hn
  | exception hp => exact .pure fun hBC => .exception (hp.mono hBC)

theorem tracks_transform (hinvoke : invoke.Blind) {rule rule' : Rule}
    (hrule : rule.Across B rule') (hv : v.Across B v') :
    Act.Tracks B MutationError.Across Value.Across (transform invoke rule v)
      (transform invoke rule' v') := by
  have hname := hrule.display
  cases hrule with
  | validate => exact .pure fun hBC => hv.mono hBC
  | transform hr => exact tracks_runTransform hinvoke hr hv
  | conditional hpredicate htrue hfalse =>
    refine .bind (hinvoke.tracks hpredicate (.cons hv .nil)).attempt fun {C} hBC y y' hy => ?_
    cases hy with
    | ok hresult =>
      refine .bind .store fun {E} hCE s s' hs => ?_
      have hBE := le_trans hBC hCE
      rw [hs.isTruthy (hresult.mono hCE)]
      split
      · exact tracks_runTransform hinvoke (Transform.grows_across hBE htrue) (hv.mono hBE)
      · cases hfalse with
        | none => exact .pure fun hEF => hv.mono (le_trans hBE hEF)
        | some hr =>
          exact tracks_runTransform hinvoke (Transform.grows_across hBE hr) (hv.mono hBE)
    | error he =>
      cases he with
      | raised hraised =>
        refine .bind .store fun {E} hCE s s' _ => ?_
        rw [hname s s']
        exact .throw fun hEF => .raised (Raised.grows_across (le_trans hCE hEF) hraised)
      | fatal text => exact .throw fun _ => .plain (by simp)
  | freeze f =>
    cases f with
    | rejectMixed => exact .pure fun hBC => hv.mono hBC
    | copyElements => exact tracks_unfrozenCopy hv

theorem tracks_transformAll (hinvoke : invoke.Blind) {rules rules' : List Rule}
    (hrules : Span.each Rule.Across B rules rules') (hv : v.Across B v') :
    Act.Tracks B MutationError.Across Value.Across (transformAll invoke rules v)
      (transformAll invoke rules' v') := by
  induction rules generalizing B rules' v v' with
  | nil =>
    cases hrules
    exact .pure fun hBC => hv.mono hBC
  | cons rule rules ih =>
    cases hrules with
    | cons hrule hrules =>
      exact .bind (tracks_transform hinvoke hrule hv) fun hBC _ _ hnew =>
        ih (Rule.grows_across.each hBC hrules) hnew

theorem tracks_govern (hinvoke : invoke.Blind) {g : GraphId} (hg : B.shares g)
    {rules rules' : List Rule} (hrules : Span.each Rule.Across B rules rules')
    {m m' : Mutation} (hm : m.Across B m') :
    Act.Tracks B MutationError.Across Mutation.Across (govern invoke g rules m)
      (govern invoke g rules' m') := by
  have hconsult : Act.Tracks B MutationError.Across Span.same (rules.forM (consult invoke g m))
      (rules'.forM (consult invoke g m')) :=
    .forM hrules fun hBC _ _ hrule => tracks_consult hinvoke (B.shares_mono hBC hg)
      (Mutation.grows_across hBC hm) (Rule.grows_across hBC hrule)
  refine .bind hconsult fun {C} hBC _ _ _ => ?_
  have hm := Mutation.grows_across hBC hm
  have hrules := (Rule.grows_across.each hBC hrules).filter fun hrule => hrule.transformsIncoming
  obtain ⟨hx, hx'⟩ | ⟨x, x', hx, hx', hincoming⟩ := hm.incoming?.none_or_some <;> rw [hx, hx']
  · exact .pure fun hCE => Mutation.grows_across hCE hm
  · exact (tracks_transformAll hinvoke hrules hincoming).map fun hCE _ _ hnew =>
      (Mutation.grows_across hCE hm).withIncoming hnew

/-- A governed change comes to the same on both sides. -/
theorem tracks_apply (hinvoke : invoke.Blind) {g : GraphId} (hg : B.shares g) {m m' : Mutation}
    (hm : m.Across B m') :
    Act.Tracks B MutationError.Across Applied.Across (apply invoke g m) (apply invoke g m') := by
  refine .bind (.container hg) fun {C} hBC c c' hc => ?_
  have hg := B.shares_mono hBC hg
  have hm := Mutation.grows_across hBC hm
  rw [hc.frozen, hm.describe]
  split
  · exact .bind .say fun _ _ _ _ => .throw fun _ => .plain (by simp)
  rw [hc.preflight hm, hc.rules.length_eq]
  refine .bind (tracks_ofCheck (Container.plainly_preflight m)) fun hCE _ _ _ => ?_
  refine .bind (tracks_govern hinvoke (Bridge.shares_mono hCE hg)
    (Rule.grows_across.each hCE hc.rules) (Mutation.grows_across hCE hm)) fun hEF _ _ hm => ?_
  refine .bind (tracks_commit (Bridge.shares_mono (le_trans hCE hEF) hg) hm)
    fun _ _ _ happlied => ?_
  exact .bind .say fun hFG _ _ _ => .pure fun hGH =>
    Container.Applied.grows_across (le_trans hFG hGH) happlied

/-! ### Rules that are attached -/

/-- Corresponding new values for the same nodes, which are all members. -/
def News : Span (List (Nat × Value)) :=
  Span.each fun B p p' => p.1 ≠ Container.root ∧ Container.NodeAcross B p p'

theorem grows_news : Span.Grows News := fun hBC _ _ hnews =>
  hnews.imp fun _ _ hnew => ⟨hnew.1, hnew.2.1, hnew.2.2.mono hBC⟩

theorem tracks_updates (hinvoke : invoke.Blind) {rule rule' : Rule} (hrule : rule.Across B rule')
    {olds olds' : List (Nat × Value)} (holds : News B olds olds') :
    Act.Tracks B MutationError.Across News (updates invoke rule olds)
      (updates invoke rule' olds') := by
  induction olds generalizing B olds' with
  | nil =>
    cases holds
    exact .pure fun _ => .nil
  | cons old olds ih =>
    cases holds with
    | @cons _ old' _ _ hold holds =>
      obtain ⟨hne, hnode, hvalue⟩ := hold
      unfold updates
      rw [hnode]
      refine .bind (tracks_transform hinvoke hrule hvalue) fun {C} hBC _ _ hnew => ?_
      refine .bind (ih (Rule.grows_across hBC hrule) (grows_news hBC holds))
        fun hCE _ _ hnews => .pure fun hEF => ?_
      exact .cons ⟨hne, rfl, hnew.mono (le_trans hCE hEF)⟩ (grows_news hEF hnews)

theorem tracks_askMembers (hinvoke : invoke.Blind) {r r' : Validation}
    (hr : r.Across B r') {callee callee' : Value} (hcallee : callee.Across B callee')
    {vs vs' : List Value} (hvs : Span.each Value.Across B vs vs') :
    Act.Tracks B MutationError.Across Span.same (askMembers invoke r callee vs)
      (askMembers invoke r' callee' vs') := by
  induction vs generalizing B vs' with
  | nil =>
    cases hvs
    exact .pure fun _ => rfl
  | cons v vs ih =>
    cases hvs with
    | cons hv hvs =>
      refine .bind (tracks_ask hinvoke hcallee hv) fun {C} hBC verdict verdict' hverdict => ?_
      subst hverdict
      have hr := Validation.grows_across hBC hr
      cases verdict with
      | holds => exact ih hr (hcallee.mono hBC) (Value.grows_across.each hBC hvs)
      | refused reason =>
        cases reason with
        | none =>
          refine .bind .store fun hCE s s' hs => ?_
          rw [hs.diagnostic (hv.mono (le_trans hBC hCE)), hr.display]
          exact .throw fun _ => .plain (by simp)
        | some reason =>
          dsimp only
          rw [hr.display]
          exact .throw fun _ => .plain (by simp)
      | aborted cause => exact .throw fun _ => .plain (by simp)

/-- A rule about the container itself is held against what is there already. -/
theorem tracks_checkedNow {g : GraphId} (hg : B.shares g) {s s' : Store} (hs : s.Across B s')
    {r r' : Validation} (hr : r.Across B r') :
    Act.Tracks B MutationError.Across News
      (match r.checkNow s (s.get g) with
        | .ok _ => pure []
        | .error reason => throw (.validationFailed r.display (some reason)))
      (match r'.checkNow s' (s'.get g) with
        | .ok _ => pure []
        | .error reason => throw (.validationFailed r'.display (some reason))) := by
  rw [hs.checkNow hr (hs.container hg), hr.display]
  split
  · exact .pure fun _ => .nil
  · exact .throw fun _ => .plain (by simp)

theorem tracks_prepareRule (hinvoke : invoke.Blind) {g : GraphId} (hg : B.shares g)
    {rule rule' : Rule} (hrule : rule.Across B rule') :
    Act.Tracks B MutationError.Across News (prepareRule invoke g rule)
      (prepareRule invoke g rule') := by
  refine ⟨fun {C} hBC {w w'} hw => ?_⟩
  have hg := B.shares_mono hBC hg
  have hc := hw.store.container hg
  have hneat := hw.store.neat hg
  have hrule := Rule.grows_across hBC hrule
  unfold prepareRule
  rw [Act.run_bind, Act.run_bind, Act.run_store, Act.run_store]
  have hupdates : Act.Tracks C MutationError.Across News
      (updates invoke rule ((w.store.get g).members.filterMap fun n =>
        ((w.store.get g).value? n).map fun v => (n, v)))
      (updates invoke rule' ((w'.store.get g).members.filterMap fun n =>
        ((w'.store.get g).value? n).map fun v => (n, v))) := by
    refine tracks_updates hinvoke hrule
      ((List.forall₂_and_left _ _).2 ⟨fun p hp => ?_, hc.numbered⟩)
    obtain ⟨n, hn, hvalue⟩ := List.mem_filterMap.1 hp
    obtain ⟨v, -, rfl⟩ := Option.map_eq_some_iff.1 hvalue
    exact hneat.ne_root_of_mem_members hn
  have hkept := hrule
  cases hrule with
  | validate hr =>
    cases hr with
    | predicate name hcallee =>
      have hasked := (tracks_askMembers hinvoke (.predicate name hcallee) hcallee
        hc.memberValues).bind
        fun _ _ _ _ => Act.Tracks.pure (F := MutationError.Across) (A := News) fun _ => .nil
      exact hasked.follows le_rfl hw
    | maxSize limit =>
      exact (tracks_checkedNow hg hw.store (.maxSize limit)).follows le_rfl hw
    | acyclic => exact (tracks_checkedNow hg hw.store .acyclic).follows le_rfl hw
    | singleRoot => exact (tracks_checkedNow hg hw.store .singleRoot).follows le_rfl hw
    | homogeneous => exact (tracks_checkedNow hg hw.store .homogeneous).follows le_rfl hw
  | transform => exact hupdates.follows le_rfl hw
  | conditional => exact hupdates.follows le_rfl hw
  | freeze f =>
    cases f with
    | rejectMixed =>
      have hall : Act.Tracks C MutationError.Across Span.same
          ((w.store.get g).memberValues.forM (rejectMixed g (.freeze .rejectMixed)))
          ((w'.store.get g).memberValues.forM (rejectMixed g (.freeze .rejectMixed))) :=
        .forM hc.memberValues fun hCE _ _ hv =>
          tracks_rejectMixed (C.shares_mono hCE hg) (Rule.grows_across hCE hkept) (hv.mono hCE)
      exact (hall.bind fun _ _ _ _ => .pure fun _ => .nil).follows le_rfl hw
    | copyElements => exact hupdates.follows le_rfl hw

theorem tracks_writeAll {g : GraphId} (hg : B.shares g) {news news' : List (Nat × Value)}
    (hnews : News B news news') :
    Act.Tracks B MutationError.Across Span.same (writeAll g news) (writeAll g news') := by
  induction news generalizing B news' with
  | nil =>
    cases hnews
    exact .pure fun _ => rfl
  | cons new news ih =>
    cases hnews with
    | @cons _ new' _ _ hnew hnews =>
      obtain ⟨hne, hnode, hvalue⟩ := hnew
      unfold writeAll
      rw [hnode]
      refine .bind (.container hg) fun {C} hBC c c' hc => ?_
      rw [hc.hasNode]
      have hrest {E : Bridge} (hCE : C ≤ E) : Act.Tracks E MutationError.Across Span.same
          (writeAll g news) (writeAll g _) :=
        ih (B.shares_mono (le_trans hBC hCE) hg) (grows_news (le_trans hBC hCE) hnews)
      split
      · have hwrite : Act.Tracks C MutationError.Across Value.Across
            (write g (·.setValue new.1 new.2)) (write g (·.setValue new.1 new'.2)) := by
          refine ⟨fun {E} hCE {w w'} hw => ?_⟩
          have hg := B.shares_mono (le_trans hBC hCE) hg
          exact follows_write hw g ((hw.store.container hg).setValue (hw.store.neat hg) hne
            (hvalue.mono (le_trans hBC hCE)))
        exact .bind (hwrite.map fun _ _ _ _ => rfl) fun hCE _ _ _ => hrest hCE
      · exact hrest le_rfl

theorem tracks_attachRule {g : GraphId} (hg : B.shares g) {rule rule' : Rule}
    (hrule : rule.Across B rule') {news news' : List (Nat × Value)} (hnews : News B news news') :
    Act.Tracks B MutationError.Across Span.same (attachRule g rule news)
      (attachRule g rule' news') := by
  refine .bind (.container hg) fun {C} hBC c c' hc => ?_
  rw [hc.frozen]
  split
  · exact .throw fun _ => .plain (by simp)
  refine .bind (tracks_writeAll (B.shares_mono hBC hg) (grows_news hBC hnews))
    fun {E} hCE _ _ _ => ?_
  have hBE := le_trans hBC hCE
  refine .bind (.container (B.shares_mono hBE hg)) fun {E'} hEE' c c' hc => ?_
  rw [hc.rules.length_eq]
  refine .bind (.report fun _ s s' _ => by rw [hrule.display s s']) fun {E''} hE' _ _ _ => ?_
  refine ⟨fun {E₃} hE₃ {w w'} hw => follows_write hw g ?_⟩
  have hBE₃ := le_trans (le_trans hBE hEE') (le_trans hE' hE₃)
  have hg := B.shares_mono hBE₃ hg
  exact (hw.store.container hg).pushRule (hw.store.neat hg) (Rule.grows_across hBE₃ hrule)

theorem tracks_addRule (hinvoke : invoke.Blind) {g : GraphId} (hg : B.shares g)
    {rule rule' : Rule} (hrule : rule.Across B rule') :
    Act.Tracks B MutationError.Across Span.same (addRule invoke g rule)
      (addRule invoke g rule') := by
  refine .bind (.container hg) fun {C} hBC c c' hc => ?_
  rw [hc.frozen]
  split
  · exact .throw fun _ => .plain (by simp)
  have hg := B.shares_mono hBC hg
  have hrule := Rule.grows_across hBC hrule
  exact .bind (tracks_prepareRule hinvoke hg hrule) fun hCE _ _ hnews =>
    tracks_attachRule (Bridge.shares_mono hCE hg) (Rule.grows_across hCE hrule) hnews

theorem tracks_addRules (hinvoke : invoke.Blind) {g : GraphId} (hg : B.shares g)
    {rules rules' : List Rule} (hrules : Span.each Rule.Across B rules rules') :
    Act.Tracks B MutationError.Across Span.same (addRules invoke g rules)
      (addRules invoke g rules') := by
  induction rules generalizing B rules' with
  | nil =>
    cases hrules
    exact .pure fun _ => rfl
  | cons rule rules ih =>
    cases hrules with
    | cons hrule hrules =>
      exact .bind (tracks_addRule hinvoke hg hrule) fun hBC _ _ _ =>
        ih (Bridge.shares_mono hBC hg) (Rule.grows_across.each hBC hrules)

theorem tracks_applyRuleset (hinvoke : invoke.Blind) {g : GraphId} (hg : B.shares g)
    {set set' : Ruleset} (hset : set.Across B set') :
    Act.Tracks B MutationError.Across Span.same (applyRuleset invoke g set)
      (applyRuleset invoke g set') := by
  unfold applyRuleset
  rw [hset.name, hset.rules.length_eq]
  exact .bind .say fun hBC _ _ _ =>
    tracks_addRules hinvoke (Bridge.shares_mono hBC hg) (Rule.grows_across.each hBC hset.rules)

/-- The same containers are frozen, or fail to be for the same reason. -/
theorem tracks_freeze {g : GraphId} (hg : B.shares g) :
    Act.Tracks B MutationError.Across Span.same (freeze g) (freeze g) := by
  refine ⟨fun {C} hBC {w w'} hw => ?_⟩
  have hg := B.shares_mono hBC hg
  have hc := hw.store.container hg
  have hneat := hw.store.neat hg
  have hmixed : Option.Rel (Rule.Across C) (mixedRule? (w.store.get g))
      (mixedRule? (w'.store.get g)) := hc.rules.find? fun hrule => by
    cases hrule with
    | freeze f => cases f <;> rfl
    | _ => rfl
  have hunfrozen : ((w'.store.get g).memberValues.any (isUnfrozenOther w'.store g)) =
      (w.store.get g).memberValues.any (isUnfrozenOther w.store g) := by
    have hsame := hc.memberValues.map_eq (f := isUnfrozenOther w.store g)
      (g := isUnfrozenOther w'.store g) fun hv => by
        cases hv with
        | graph hinner => rw [isUnfrozenOther, (hw.store.container hinner).frozen, isUnfrozenOther]
        | _ => rfl
    simpa using congrArg (List.any · id) hsame
  have hdone : Follows C MutationError.Across Span.same
      ((Act.setContainer g (w.store.get g).freeze >>= fun _ =>
        Act.report .debug target "graph frozen" fun _ => []) w)
      ((Act.setContainer g (w'.store.get g).freeze >>= fun _ =>
        Act.report .debug target "graph frozen" fun _ => []) w') := by
    have hset : Follows C MutationError.Across Span.same
        (Act.setContainer g (w.store.get g).freeze w)
        (Act.setContainer g (w'.store.get g).freeze w') :=
      .ok (hw.setStore (hw.store.set hc.freeze hneat.freeze)) rfl
    exact hset.bind fun _ _ _ _ _ _ hu => Act.Tracks.say.follows le_rfl hu
  unfold freeze
  rw [Act.run_bind, Act.run_bind, Act.run_store, Act.run_store]
  dsimp only
  rw [hc.frozen]
  split
  · exact .ok hw rfl
  obtain ⟨hr, hr'⟩ | ⟨r, r', hr, hr', hrule⟩ := hmixed.none_or_some <;> rw [hr, hr']
  · exact hdone
  · dsimp only
    rw [hunfrozen, hrule.display w.store w'.store]
    split
    · exact .error hw (.plain (by simp))
    · exact hdone

end Engine

end GraphLang
