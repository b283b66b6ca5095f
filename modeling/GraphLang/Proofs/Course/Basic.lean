import GraphLang.Proofs.Program.Checks
import GraphLang.Proofs.Simulation.Moments

/-!
# The courses of actions

What an action does depends on the evaluator only through the questions it asks: what evaluating a
node or a body or calling a function comes to in some world. Between two questions it takes steps of
its own. So whatever holds from before to after each such step, and of each question, holds of the
whole evaluation. A regime says what that is, and what the single steps have to do with it.
-/

namespace GraphLang

/-! ### What no step undoes -/

/-- The containers that are frozen in the first store are the same in the second one. -/
def Store.Retains (s t : Store) : Prop :=
  ∀ (g : GraphId) (c : Container), s.graphs[g]? = some c → c.frozen = true → t.graphs[g]? = some c

namespace Store

variable {s t u : Store}

theorem Retains.refl (s : Store) : s.Retains s := fun _ _ hc _ => hc

theorem Retains.trans (h : s.Retains t) (h' : t.Retains u) : s.Retains u :=
  fun g c hc hfrozen => h' g c (h g c hc hfrozen) hfrozen

theorem Retains.of_graphs (h : t.graphs = s.graphs) : s.Retains t := by
  intro g c hc _
  rw [h, hc]

/-- New containers come after the others. -/
theorem Retains.append {new : Array Container} (h : t.graphs = s.graphs ++ new) : s.Retains t := by
  intro g c hc _
  rw [h, Array.getElem?_append_left (Array.getElem?_eq_some_iff.1 hc).1, hc]

/-- A container that is not frozen may be replaced. -/
theorem Retains.set {g : GraphId} (h : (s.get g).frozen = false) (c : Container) :
    s.Retains (s.set g c) := by
  intro g' c' hc' hfrozen
  by_cases hg : g = g'
  · subst hg
    rw [get, hc', Option.getD_some, hfrozen] at h
    cases h
  · rw [Store.set, Array.getElem?_setIfInBounds_ne hg, hc']

end Store

/-- The procedures of the host leave frozen containers as they are. -/
def Honest (natives : String → HostNative) : Prop :=
  ∀ name args (s : Store), s.Retains (natives name args s).2

/-! ### Steps of the store -/

namespace Container

/-- New lists are not frozen. -/
theorem frozen_ofElements (values : List Value) : (ofElements values).frozen = false := by
  unfold ofElements
  refine List.foldlRecOn values _ (motive := fun (c : Container) => c.frozen = false) rfl
    fun c hc v _ => ?_
  exact hc

theorem frozen_putEntry {c : Container} (h : c.frozen = false) (key : Key) (value : Value) :
    (c.putEntry key value).frozen = false := by
  unfold putEntry
  split <;> exact h

/-- New maps are not frozen. -/
theorem frozen_ofEntries (entries : List (Key × Value)) : (ofEntries entries).frozen = false := by
  unfold ofEntries
  refine List.foldlRecOn entries _ (motive := fun (c : Container) => c.frozen = false) rfl
    fun c hc e _ => ?_
  exact frozen_putEntry hc e.1 e.2

end Container

/-- One step that changes containers. -/
inductive Store.Advances (natives : String → HostNative) (s : Store) : Store → Prop
  /-- New containers come after the others. None of them is frozen. -/
  | append {t : Store} (new : Array Container) : t.graphs = s.graphs ++ new →
    (∀ c ∈ new, c.frozen = false) → Advances natives s t
  /-- A container that is not frozen is replaced by another one. -/
  | set {g : GraphId} {c : Container} : (s.get g).frozen = false → c.frozen = false →
    Advances natives s (s.set g c)
  /-- A container is frozen. If it has a rule against mixed freezing, all others in it are
  frozen. -/
  | freeze {g : GraphId} : (s.get g).frozen = false →
    (∀ rule, Engine.mixedRule? (s.get g) = some rule →
      (s.get g).memberValues.any (Engine.isUnfrozenOther s g) = false) →
    Advances natives s (s.set g (s.get g).freeze)
  /-- A procedure of the host is called. -/
  | native (name : String) (args : List Value) : Advances natives s (natives name args s).2

namespace Store.Advances

variable {natives : String → HostNative} {s t : Store}

theorem of_graphs (h : t.graphs = s.graphs) : s.Advances natives t :=
  .append #[] (by rw [h, Array.append_empty]) nofun

theorem alloc {c : Container} (h : c.frozen = false) : s.Advances natives (s.alloc c).2 :=
  .append _ Array.push_eq_append fun d hd => by rwa [Array.mem_singleton.1 hd]

theorem retains (h : s.Advances natives t) (hhonest : Honest natives) : s.Retains t := by
  cases h with
  | append _ hgraphs => exact .append hgraphs
  | set hmutable => exact .set hmutable _
  | freeze hmutable => exact .set hmutable _
  | native name args => exact hhonest name args s

end Store.Advances

/-! ### Nodes that define nothing -/

/-- Whether a child with that role is evaluated in the scope of its parent. -/
def Op.Shares : Op → Role → Prop
  | .block, _ => False
  | .call, r => r = .callee ∨ r.sameFamily (.argument 0) = true
  | .each _, r => r = .target
  | .guarded _, r => r ≠ .handler
  | _, _ => True

/-- Evaluating the node defines nothing in the scope it is evaluated in: it belongs to nodes that
are no definitions, and so do the children of such nodes that are evaluated in the same scope. -/
def Program.Quiet (p : Program) (n : Nat) : Prop :=
  ∃ quiet : Nat → Prop, quiet n ∧ ∀ m, quiet m →
    (∀ name mutable, p.op? m ≠ some (.define name mutable)) ∧
      ∀ o r c, p.op? m = some o → o.Shares r → (r, c) ∈ p.graph.ties m → quiet c

/-! ### Regimes -/

/-- What the steps of an evaluator keep to. -/
structure Regime where
  /-- What holds of every world. -/
  inv : Machine → Prop
  /-- What holds from before to after every step. -/
  rel : Machine → Machine → Prop
  /-- The scopes in which variables may be defined. -/
  own : ScopeId → Prop
  /-- Nothing happens. -/
  refl : ∀ {w}, inv w → rel w w
  /-- One step follows another. -/
  trans : ∀ {u v w}, rel u v → rel v w → rel u w
  /-- What holds of every world holds after a step. -/
  holds : ∀ {w v}, rel w v → inv v
  /-- Neither containers nor scopes nor call frames change. -/
  aside : ∀ {w v : Machine}, inv w → v.natives = w.natives → v.store.graphs = w.store.graphs →
    v.control.scopes = w.control.scopes → v.control.frames = w.control.frames →
    v.control.nextFrame = w.control.nextFrame → rel w v
  /-- Containers change by one step. -/
  withStore : ∀ {w : Machine} {s : Store}, inv w → w.store.Advances w.natives s →
    rel w (w.withStore s)
  /-- A frame is opened with the next number. -/
  framed : ∀ {w : Machine} {site : CallSite}, inv w → site.frame = w.control.nextFrame →
    rel w (w.framed site)
  /-- A frame is left. -/
  unframed : ∀ {w}, inv w → rel w w.unframed
  /-- A scope is opened, in which variables may be defined. -/
  push : ∀ {w : Machine} (parent : ScopeId) (kind : ScopeKind), inv w →
    rel w (w.withScopes (w.control.scopes.push parent kind).2) ∧
      ∀ scope, (w.control.scopes.push parent kind).1 = .ok scope → own scope
  /-- A scope is left. -/
  pop : ∀ {w : Machine} (scope : ScopeId), inv w → rel w (w.left scope)
  /-- A variable is defined. -/
  define : ∀ {w : Machine} {scope : ScopeId} (name : String) (value : Value) (mutable : Bool),
    inv w → own scope → rel w (w.withScopes (w.control.scopes.define scope name value mutable).2)
  /-- A variable is written. -/
  assign : ∀ {w : Machine} (scope : ScopeId) (name : String) (value : Value), inv w →
    rel w (w.withScopes (w.control.scopes.assign scope name value).2)
  /-- A closure is made. -/
  createClosure : ∀ {w : Machine} (scope : ScopeId) (name : String) (names : List String), inv w →
    rel w (w.withScopes (w.control.scopes.createClosure scope name names).2)

namespace Regime

variable {R : Regime} {w : Machine}

theorem noted (hw : R.inv w) (level : Level) (target message : String)
    (fields : Store → List (String × String)) : R.rel w (w.noted level target message fields) := by
  obtain ⟨events, hquiet⟩ := w.noted_eq_quiet level target message fields
  rw [hquiet]
  exact R.aside hw rfl rfl rfl rfl rfl

/-- The places that may be asked about: nodes that define nothing may be evaluated in every
scope. -/
def Allows (R : Regime) : Eval.Place → Prop
  | .node code n scope => R.own scope ∨ code.program.Quiet n
  | .body _ _ scope => R.own scope
  | .call _ _ _ => True

/-- What may be asked about a node may be asked about its children in the same scope. -/
theorem Allows.child {code : Code} {n c : Nat} {scope : ScopeId} {o : Op} {r : Role}
    (h : R.Allows (.node code n scope)) (ho : code.program.op? n = some o) (hshares : o.Shares r)
    (hc : (r, c) ∈ code.program.graph.ties n) : R.Allows (.node code c scope) := by
  refine h.imp_right fun hquiet => ?_
  obtain ⟨quiet, hn, hclosed⟩ := hquiet
  exact ⟨quiet, (hclosed n hn).2 o r c ho hshares hc, hclosed⟩

theorem Allows.own_of_define {code : Code} {n : Nat} {scope : ScopeId} {name : String}
    {mutable : Bool} (h : R.Allows (.node code n scope))
    (ho : code.program.op? n = some (.define name mutable)) : R.own scope := by
  refine h.resolve_right fun hquiet => ?_
  obtain ⟨quiet, hn, hclosed⟩ := hquiet
  exact (hclosed n hn).1 name mutable ho

/-- In a free regime everything may be asked in every world. -/
structure Free (R : Regime) : Prop where
  /-- All worlds are alike. -/
  inv : ∀ w, R.inv w
  /-- All scopes are alike. -/
  own : ∀ scope, R.own scope

theorem Free.allows (h : R.Free) (p : Eval.Place) : R.Allows p := by
  cases p with
  | node code n scope => exact Or.inl (h.own scope)
  | body code root scope => exact h.own scope
  | call f args callNode => trivial

end Regime

/-! ### The regime of every evaluation -/

/-- The open call frames are numbered in the order of their opening. -/
structure Numbered (st : Session) : Prop where
  /-- Inner frames have larger numbers. -/
  decreasing : st.frames.Pairwise fun inner outer => outer.frame < inner.frame
  /-- The next frame has a larger number than all of them. -/
  below : ∀ site ∈ st.frames, site.frame < st.nextFrame

/-- What holds from any moment of an evaluation to any later one. -/
structure Onward (w v : Machine) : Prop where
  /-- The procedures of the host are the same. -/
  natives : v.natives = w.natives
  /-- Frozen containers are the same. -/
  retains : Honest w.natives → w.store.Retains v.store
  /-- Call frames stay numbered. -/
  numbered : Numbered w.control → Numbered v.control

namespace Onward

variable {u v w : Machine}

theorem refl (w : Machine) : Onward w w := ⟨rfl, fun _ => .refl _, id⟩

theorem trans (h : Onward u v) (h' : Onward v w) : Onward u w where
  natives := h'.natives.trans h.natives
  retains hhonest := (h.retains hhonest).trans (h'.retains (h.natives ▸ hhonest))
  numbered := h'.numbered ∘ h.numbered

/-- A change of anything but containers and call frames. -/
theorem of_eq (hnatives : v.natives = w.natives) (hgraphs : v.store.graphs = w.store.graphs)
    (hframes : v.control.frames = w.control.frames)
    (hnext : v.control.nextFrame = w.control.nextFrame) : Onward w v where
  natives := hnatives
  retains _ := .of_graphs hgraphs
  numbered h := by
    refine ⟨?_, ?_⟩
    · rw [hframes]
      exact h.decreasing
    · rw [hframes, hnext]
      exact h.below

/-- A change of containers only. -/
theorem withStore {s : Store} (h : Honest w.natives → w.store.Retains s) :
    Onward w (w.withStore s) :=
  ⟨rfl, h, fun hn => ⟨hn.decreasing, hn.below⟩⟩

/-- A frame is opened with the next number. -/
theorem framed {site : CallSite} (hsite : site.frame = w.control.nextFrame) :
    Onward w (w.framed site) := by
  refine ⟨rfl, fun _ => .refl _, fun h => ⟨?_, ?_⟩⟩
  · refine List.pairwise_cons.2 ⟨fun outer houter => ?_, h.decreasing⟩
    rw [hsite]
    exact h.below outer houter
  · intro inner hinner
    show inner.frame < w.control.nextFrame + 1
    rcases List.mem_cons.1 hinner with rfl | hinner
    · omega
    · exact Nat.lt_succ_of_lt (h.below inner hinner)

theorem unframed (w : Machine) : Onward w w.unframed :=
  ⟨rfl, fun _ => .refl _, fun h => ⟨h.decreasing.sublist (List.tail_sublist _),
    fun site hsite => h.below site (List.mem_of_mem_tail hsite)⟩⟩

end Onward

/-- The regime of every evaluation. -/
def Regime.onward : Regime where
  inv _ := True
  rel := Onward
  own _ := True
  refl _ := .refl _
  trans := .trans
  holds _ := trivial
  aside _ hnatives hgraphs _ hframes hnext := .of_eq hnatives hgraphs hframes hnext
  withStore _ h := .withStore h.retains
  framed _ := .framed
  unframed _ := .unframed _
  push _ _ _ := ⟨.of_eq rfl rfl rfl rfl, fun _ _ => trivial⟩
  pop _ _ := .of_eq rfl rfl rfl rfl
  define _ _ _ _ _ := .of_eq rfl rfl rfl rfl
  assign _ _ _ _ := .of_eq rfl rfl rfl rfl
  createClosure _ _ _ _ := .of_eq rfl rfl rfl rfl

theorem Regime.free_onward : Regime.onward.Free := ⟨fun _ => trivial, fun _ => trivial⟩

/-! ### Courses -/

/-- What the evaluator comes to at a place. -/
def Evaluator.at (ev : Evaluator) : Eval.Place → Eval Signal
  | .node code n scope => ev.node code n scope
  | .body code root scope => ev.body code root scope
  | .call f args callNode => ev.call f args callNode

/-- An action that starts in the world `w` ends, runs out of fuel, or asks the evaluator about a
place and goes on with the answer, all within the regime. -/
inductive Course (R : Regime) {ρ : Type} :
    Machine → (Evaluator → Option (ρ × Machine)) → Prop where
  /-- It ends. -/
  | done {w v : Machine} {r : ρ} : R.rel w v → Course R w fun _ => some (r, v)
  /-- It runs out of fuel. -/
  | stuck {w : Machine} : Course R w fun _ => none
  /-- It asks about a place. -/
  | ask {w v : Machine} {p : Eval.Place}
    {k : Except EvalError Signal → Machine → Evaluator → Option (ρ × Machine)} :
    R.rel w v → R.Allows p → (∀ r u, R.inv u → Course R u (k r u)) →
    Course R w fun ev => (ev.at p v).bind fun x => k x.1 x.2 ev

variable {R : Regime}

namespace Course

variable {ρ ρ' : Type} {w v : Machine}

/-- A course with a step before it. -/
theorem after {action : Evaluator → Option (ρ × Machine)} (h : Course R v action)
    (hstep : R.rel w v) : Course R w action := by
  cases h with
  | done h => exact .done (R.trans hstep h)
  | stuck => exact .stuck
  | ask h hp hk => exact .ask (R.trans hstep h) hp hk

/-- One course after another. -/
theorem andThen {action : Evaluator → Option (ρ × Machine)}
    {k : ρ → Machine → Evaluator → Option (ρ' × Machine)} (h : Course R w action)
    (hk : ∀ r v, R.inv v → Course R v (k r v)) :
    Course R w fun ev => (action ev).bind fun x => k x.1 x.2 ev := by
  induction h with
  | done hstep => exact (hk _ _ (R.holds hstep)).after hstep
  | stuck => exact .stuck
  | ask hstep hp _ ih =>
    simp only [Option.bind_assoc]
    exact .ask hstep hp ih

theorem of_eq {action action' : Evaluator → Option (ρ × Machine)} (h : Course R w action')
    (heq : ∀ ev, action ev = action' ev) : Course R w action := by
  rw [funext heq]
  exact h

end Course

/-- An action that has a course from every world of the regime. -/
def Steps (R : Regime) {ε α : Type} (action : Evaluator → Act Session ε α) : Prop :=
  ∀ w, R.inv w → Course R w fun ev => action ev w

/-- A course that goes on with what it came to. -/
theorem Course.bind {ε α β : Type} {a : Evaluator → Act Session ε α}
    {f : Evaluator → α → Act Session ε β} {w : Machine} (ha : Course R w fun ev => a ev w)
    (hf : ∀ x, Steps R fun ev => f ev x) : Course R w fun ev => (a ev >>= f ev) w := by
  let k (r : Except ε α) (v : Machine) (ev : Evaluator) : Option (Except ε β × Machine) :=
    r.casesOn (fun e => some (.error e, v)) fun x => f ev x v
  have hk : ∀ r v, R.inv v → Course R v (k r v) := by
    intro r v hv
    cases r with
    | error e => exact .done (R.refl hv)
    | ok x => exact hf x v hv
  refine .of_eq (ha.andThen hk) fun ev => ?_
  rw [Act.run_bind]
  cases a ev w with
  | none => rfl
  | some p =>
    obtain ⟨r, v⟩ := p
    cases r <;> rfl

namespace Steps

variable {ε ε' α β : Type}

/-- A step of its own. -/
theorem of_step {a : Act Session ε α}
    (h : ∀ w, R.inv w → ∃ r v, a w = some (r, v) ∧ R.rel w v) : Steps R fun _ => a := by
  intro w hw
  obtain ⟨r, v, hrun, hstep⟩ := h w hw
  exact .of_eq (.done hstep) fun _ => hrun

theorem pure (x : α) : Steps R fun _ => (Pure.pure x : Act Session ε α) :=
  .of_step fun w hw => ⟨.ok x, w, rfl, R.refl hw⟩

theorem throw (e : ε) : Steps R fun _ => (MonadExcept.throw e : Act Session ε α) :=
  .of_step fun w hw => ⟨.error e, w, rfl, R.refl hw⟩

theorem outOfFuel : Steps R fun _ => (Act.outOfFuel : Act Session ε α) := fun _ _ => .stuck

theorem breakDown : Steps R fun _ => (Act.breakDown : Act Session ε α) := fun _ _ => .stuck

theorem store : Steps R fun _ => (Act.store : Act Session ε Store) :=
  .of_step fun w hw => ⟨.ok w.store, w, rfl, R.refl hw⟩

theorem container (g : GraphId) : Steps R fun _ => (Act.container g : Act Session ε Container) :=
  .of_step fun w hw => ⟨.ok (w.store.get g), w, rfl, R.refl hw⟩

theorem report (level : Level) (target message : String)
    (fields : Store → List (String × String)) :
    Steps R fun _ => (Act.report level target message fields : Act Session ε Unit) :=
  .of_step fun _ hw => ⟨_, _, rfl, R.noted hw level target message fields⟩

theorem alloc {c : Container} (h : c.frozen = false) :
    Steps R fun _ => (Act.alloc c : Act Session ε Value) :=
  .of_step fun _ hw => ⟨_, _, rfl, R.withStore hw (.alloc h)⟩

theorem newException (kind message : String) (payload : Value) (path : List CallSite) :
    Steps R fun _ => (Act.newException kind message payload path : Act Session ε Value) :=
  .of_step fun _ hw => ⟨_, _, rfl, R.aside hw rfl rfl rfl rfl rfl⟩

theorem bind {a : Evaluator → Act Session ε α} {f : Evaluator → α → Act Session ε β}
    (ha : Steps R a) (hf : ∀ x, Steps R fun ev => f ev x) : Steps R fun ev => a ev >>= f ev :=
  fun w hw => (ha w hw).bind hf

theorem map (f : α → β) {a : Evaluator → Act Session ε α} (ha : Steps R a) :
    Steps R fun ev => f <$> a ev := by
  simp only [map_eq_pure_bind]
  exact ha.bind fun x => .pure (f x)

theorem attempt {a : Evaluator → Act Session ε α} (ha : Steps R a) :
    Steps R fun ev => (Act.attempt (a ev) : Act Session ε' (Except ε α)) := by
  intro w hw
  refine .of_eq ((ha w hw).andThen fun r v hv => .done (v := v) (r := Except.ok r) (R.refl hv))
    fun ev => ?_
  dsimp only
  rw [Act.run_attempt]
  cases a ev w <;> rfl

theorem forM {f : Evaluator → α → Act Session ε PUnit} (xs : List α)
    (h : ∀ x, Steps R fun ev => f ev x) : Steps R fun ev => xs.forM (f ev) := by
  induction xs with
  | nil => exact .pure _
  | cons x xs ih => exact (h x).bind fun _ => ih

/-- A question. -/
theorem ask (p : Eval.Place) (hp : R.Allows p) : Steps R fun ev => ev.at p := by
  intro w hw
  refine .of_eq (.ask (v := w) (p := p) (k := fun r u _ => some (r, u)) (R.refl hw) hp
    fun _ u hu => .done (R.refl hu)) fun ev => ?_
  dsimp only
  cases ev.at p w <;> rfl

end Steps

end GraphLang
