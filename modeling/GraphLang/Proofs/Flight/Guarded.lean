import GraphLang.Proofs.CallDepth
import GraphLang.Proofs.Flight.Node
import GraphLang.Proofs.Scopes.Full

/-!
# Exceptions in guarded bodies

A guarded node evaluates its body, on an exception its handler, and then its finalizer. The handler
sees the exception with the frames that it has left, down to the frame of the node. Without a
handler, and from the handler itself, an exception leaves the node, unless the finalizer does not
come to its normal end.
-/

namespace GraphLang

open Eval

variable {ε α β : Type} {scope : ScopeId} {u v w : Machine} {ev : Evaluator} {p : Place}

/-! ### The variable of a new scope -/

/-- A name that is defined in a scope for the first time has its value there. -/
theorem Scopes.get_define_new {s : Scopes} (h : s.Tidy) {scope : ScopeId}
    (hscope : s.isScope scope = true) {name : String}
    (hnew : s.declared[(scope, name)]? = none) (value : Value) (mutable : Bool) :
    (s.define scope name value mutable).2.get scope name = .ok value := by
  have hdefine : (s.define scope name value mutable).2 =
      (s.declare scope name value mutable).2 := by
    unfold define
    rw [if_neg (by simp [hscope]), hnew]
  have hkeeps := Keeps.declare h hscope name value mutable
  have hadd : Keeps s ⟨withVariable s.graph scope name mutable, s.declared⟩ :=
    .withVariable h hscope name mutable
  have hvar := node?_withVariable h.sound scope name mutable
    (s.graph.addNode (.variable name mutable)).1
  rw [if_pos rfl] at hvar
  have hlookup (fuel : Nat) : (s.declare scope name value mutable).2.lookup? name (fuel + 1) scope =
      some (s.graph.addNode (.variable name mutable)).1 := by
    rw [declare_eq]
    unfold lookup? localVar?
    dsimp only
    rw [Std.HashMap.getElem?_insert_self]
  have hvalue : (s.declare scope name value mutable).2.valueOf?
      (s.graph.addNode (.variable name mutable)).1 = some value := by
    rw [declare_eq, valueOf?_eq, tied?]
    dsimp only
    rw [ties_bind hadd.tidy.sound (SlotGraph.hasNode_iff.2 ⟨_, hvar⟩), if_pos rfl]
    simp only [List.find?_cons_of_pos, beq_self_eq_true, Option.map_some, Option.bind_some]
    rw [node?_bind hadd.tidy.sound, if_pos rfl]
  rw [hdefine]
  unfold Scopes.get
  rw [find_of_isScope (hkeeps.isScope hscope), hlookup]
  dsimp only [Bind.bind, Except.bind]
  rw [hvalue]
  rfl

/-- The variable of a scope that is opened with one has its value there. -/
theorem get_of_enterScope {parent inner : ScopeId} {kind : ScopeKind} {name : String}
    {value : Value} (h : LiveAt parent w)
    (henter : enterScope parent kind [(name, value)] w = some (.ok inner, v)) :
    v.control.scopes.get inner name = .ok value := by
  have hopens := Scopes.Opens.withScope h.tidy h.isScope kind
  have hnew := hopens.declared_eq_none h.tidy
  obtain ⟨var, s, hdefine, -⟩ := Scopes.define_of_open hopens.tidy hopens.opened
    (fun name' var hvar => by rw [hnew name'] at hvar; cases hvar) name value
  let opened := w.withScopes
    ⟨Scopes.withScope w.control.scopes.graph parent kind, w.control.scopes.declared⟩
  have hlocals : defineLocals (w.control.scopes.graph.addNode (.scope kind true)).1
      [(name, value)] opened = some (.ok (), w.withScopes s) := by
    have hlocal : opened.control.scopes.define _ name value true = _ := hdefine
    unfold defineLocals
    rw [Act.run_bind, run_defineLocal, hlocal]
    rfl
  have hrun : enterScope parent kind [(name, value)] w =
      some (.ok (w.control.scopes.graph.addNode (.scope kind true)).1, w.withScopes s) := by
    unfold enterScope
    rw [Act.run_bind, run_pushScope, Scopes.push_of_isScope h.isScope]
    change (defineLocals _ _ >>= _) opened = _
    rw [Act.run_bind, hlocals]
    rfl
  rw [hrun] at henter
  cases henter
  have hget := Scopes.get_define_new hopens.tidy hopens.opened (hnew name) value true
  rwa [hdefine] at hget

/-! ### Answers that are waited for -/

/-- The action waits for the answer at the moment: without one it gets stuck, and an error there
ends it with an error. -/
structure Waits (action : Evaluator → Act Session ε α) (ev : Evaluator) (w : Machine) (p : Place)
    (v : Machine) : Prop where
  /-- Without an answer it gets stuck. -/
  stuck : action (ev.answering p v none) w = none
  /-- An error ends it. -/
  fails : ∀ e u, ∃ e' u', action (ev.answering p v (some (.error e, u))) w = some (.error e', u')

namespace Waits

variable {a : Evaluator → Act Session ε α} {f : Evaluator → α → Act Session ε β} {x : α}

theorem congr {b : Evaluator → Act Session ε α} (h : Waits b ev u p v)
    (hrun : ∀ ev, a ev w = b ev u) : Waits a ev w p v := by
  refine ⟨?_, fun e y => ?_⟩
  · rw [hrun]
    exact h.stuck
  · rw [hrun]
    exact h.fails e y

theorem asks (h : Waits a ev w p v) : Asks a ev w p v := by
  obtain ⟨e, u, hfails⟩ := h.fails (.unknownUnit 0) v
  exact ⟨⟨_, by rw [hfails]; exact Option.some_ne_none _⟩, h.stuck⟩

theorem self (ev : Evaluator) (p : Place) (v : Machine) : Waits (fun ev => ev.at p) ev v p v :=
  ⟨ev.answering_self p v none, fun e u => ⟨e, u, ev.answering_self p v _⟩⟩

theorem bind (h : Waits a ev w p v) : Waits (fun ev => a ev >>= f ev) ev w p v := by
  refine ⟨?_, fun e u => ?_⟩
  · rw [Act.run_bind, h.stuck]
  · obtain ⟨e', u', hfails⟩ := h.fails e u
    refine ⟨e', u', ?_⟩
    rw [Act.run_bind, hfails]

/-- A sequence waits after an action that ends whatever the answer is. -/
theorem after (ha : ∀ b, a (ev.answering p v b) w = some (.ok x, u))
    (h : Waits (fun ev => f ev x) ev u p v) : Waits (fun ev => a ev >>= f ev) ev w p v := by
  refine ⟨?_, fun e u => ?_⟩
  · rw [Act.run_bind, ha]
    exact h.stuck
  · obtain ⟨e', u', hfails⟩ := h.fails e u
    refine ⟨e', u', ?_⟩
    rw [Act.run_bind, ha]
    exact hfails

theorem const_bind {a : Act Session ε α} (ha : a w = some (.ok x, u))
    (h : Waits (fun ev => f ev x) ev u p v) : Waits (fun ev => a >>= f ev) ev w p v :=
  after (fun _ => ha) h

theorem inScope {parent inner : ScopeId} {kind : ScopeKind} {locals : List (String × Value)}
    {body : Evaluator → ScopeId → Eval α}
    (henter : enterScope parent kind locals w = some (.ok inner, u))
    (h : Waits (fun ev => body ev inner) ev u p v) :
    Waits (fun ev => Eval.inScope parent kind locals (body ev)) ev w p v := by
  refine const_bind henter ⟨?_, fun e y => ?_⟩
  · rw [Act.run_bind, Act.run_attempt, h.stuck]
    rfl
  · obtain ⟨e', u', hfails⟩ := h.fails e y
    rw [Act.run_bind, Act.run_attempt, hfails]
    dsimp only [Option.map]
    rw [Act.run_bind, run_popScope]
    cases (u'.control.scopes.pop inner).1 with
    | error cause => exact ⟨_, _, rfl⟩
    | ok _ => exact ⟨_, _, rfl⟩

theorem inFrame {site : CallSite} {body : Evaluator → Eval α}
    (h : Waits body ev (w.framed site) p v) :
    Waits (fun ev => Eval.inFrame site (body ev)) ev w p v := by
  refine ⟨?_, fun e u => ?_⟩
  · rw [run_inFrame, h.stuck]
    rfl
  · obtain ⟨e', u', hfails⟩ := h.fails e u
    refine ⟨e', u'.unframed, ?_⟩
    rw [run_inFrame, hfails]
    rfl

/-! ### Steps -/

theorem lift {a : Evaluator → Eval α} (h : Waits a ev w p v) :
    Waits (fun ev => (Step.lift (a ev) : Eval (Except Signal α))) ev w p v := by
  refine ⟨?_, fun e u => ?_⟩
  · rw [Step.run_lift, h.stuck]
  · obtain ⟨e', u', hfails⟩ := h.fails e u
    refine ⟨e', u', ?_⟩
    rw [Step.run_lift, hfails]

theorem step_bind {a : Evaluator → Step α} {f : Evaluator → α → Step β}
    (h : Waits (fun ev => (a ev : Eval (Except Signal α))) ev w p v) :
    Waits (fun ev => ((a ev >>= f ev : Step β) : Eval (Except Signal β))) ev w p v := h.bind

theorem step_after {a : Evaluator → Step α} {f : Evaluator → α → Step β}
    (ha : ∀ b, a (ev.answering p v b) w = some (.ok (.ok x), u))
    (h : Waits (fun ev => (f ev x : Eval (Except Signal β))) ev u p v) :
    Waits (fun ev => ((a ev >>= f ev : Step β) : Eval (Except Signal β))) ev w p v := after ha h

end Waits

namespace Asks

theorem of_lift {a : Evaluator → Eval α}
    (h : Asks (fun ev => (Step.lift (a ev) : Eval (Except Signal α))) ev w p v) :
    Asks a ev w p v := by
  refine h.of_none_iff fun ev => ?_
  rw [Step.run_lift]
  cases a ev w with
  | none => simp
  | some y =>
    obtain ⟨r, u⟩ := y
    cases r <;> simp

/-- A sequence of steps asks in its first step, or after that came to a value. -/
theorem of_step_bind {a : Evaluator → Step α} {f : Evaluator → α → Step β} (ha : Moves Regime.onward a)
    (h : Asks (fun ev => ((a ev >>= f ev : Step β) : Eval (Except Signal β))) ev w p v) :
    Asks (fun ev => (a ev : Eval (Except Signal α))) ev w p v ∨
      ∃ x u, a ev w = some (.ok (.ok x), u) ∧
        Asks (fun ev => (f ev x : Eval (Except Signal β))) ev u p v := by
  let next (ev : Evaluator) (r : Except Signal α) : Eval (Except Signal β) :=
    ExceptT.bindCont (f ev) r
  rcases of_bind (a := fun ev => (a ev : Eval (Except Signal α))) (f := next) ha h with
    hfirst | ⟨r, u, hrun, hnext⟩
  · exact Or.inl hfirst
  · cases r with
    | error s => exact absurd hnext not_const
    | ok x => exact Or.inr ⟨x, u, hrun, hnext⟩

end Asks

/-! ### The parts of a guarded node -/

theorem Flight.By.node {q : Flight} {code : Code} {n : Nat} (h : q.By ev)
    (hplace : q.place = .node code n scope) :
    ev.node code n scope q.start = some (.ok (.raised q.raised), q.landed) := by
  unfold Flight.By at h
  rwa [hplace] at h

namespace Step

theorem run_of_lift {a : Eval α} {x : α} (h : lift a w = some (.ok (.ok x), v)) :
    a w = some (.ok x, v) := by
  rw [run_lift] at h
  split at h
  · next ha =>
    cases h
    exact ha
  · cases h
  · cases h

/-- What the body of a guarded node comes to after the handler. -/
def handled (ev : Evaluator) (code : Code) (n : Nat) (catchName : Option String) (scope : ScopeId)
    (first : Signal) : Step Signal :=
  match first, code.program.child? n .handler with
  | .raised raised, some handler => lift (handle ev code n handler catchName scope raised)
  | signal, _ => pure signal

/-- What a guarded node comes to after the finalizer. -/
def finalized (ev : Evaluator) (code : Code) (n : Nat) (scope : ScopeId) (signal : Signal) :
    Step Value :=
  match code.program.child? n .finalizer with
  | none => ofSignal signal
  | some finalizer => do
    let after ← lift (ev.node code finalizer scope)
    if after.isNormal then ofSignal signal else throw after

theorem guarded_eq (ev : Evaluator) (code : Code) (n : Nat) (catchName : Option String)
    (scope : ScopeId) :
    guarded ev code n catchName scope = (do
      let body ← child code n .body
      let first ← lift (ev.node code body scope)
      let signal ← handled ev code n catchName scope first
      finalized ev code n scope signal) := by
  unfold guarded
  congr 1
  funext body
  congr 1
  funext first
  unfold handled finalized
  cases first with
  | raised r => cases code.program.child? n .handler <;> rfl
  | _ => rfl

theorem guarded_of_body {code : Code} {n b : Nat} (hb : code.program.child? n .body = some b)
    (ev : Evaluator) (catchName : Option String) (scope : ScopeId) :
    guarded ev code n catchName scope =
      lift (ev.node code b scope) >>= fun first =>
        handled ev code n catchName scope first >>= finalized ev code n scope := by
  have hchild : child code n .body = pure b := by
    unfold child
    rw [hb]
  rw [guarded_eq, hchild, pure_bind]

end Step

section

variable {code : Code} {n : Nat} {name : Option String}

theorem settles_handle (handler : Nat) (raised : Raised) :
    Settles scope fun ev => Step.handle ev code n handler name scope raised := by
  refine .bind .session fun st => .bind ?_ fun x => .bind (.evalReport _ _ _) fun _ => ?_
  · unfold Step.withPath
    split
    · exact .newException _ _ _ _
    · exact .pure _
  · exact .inScope fun inner => (Conveys.node code handler).toSettles

theorem settles_handled (first : Signal) :
    Settles scope fun ev =>
      (Step.handled ev code n name scope first : Eval (Except Signal Signal)) := by
  unfold Step.handled
  split
  · exact .step_lift (settles_handle _ _)
  · exact .pure _

theorem settles_finalized (signal : Signal) :
    Settles scope fun ev =>
      (Step.finalized ev code n scope signal : Eval (Except Signal Value)) := by
  unfold Step.finalized
  split
  · exact (Passes.ofSignal signal).toSettles
  · refine .step_bind (.step_lift (Conveys.node code _).toSettles) fun after => ?_
    split
    · exact (Passes.ofSignal signal).toSettles
    · exact .pure _

theorem settles_guarded :
    Settles scope fun ev =>
      (Step.guarded ev code n name scope : Eval (Except Signal Value)) := by
  simp only [Step.guarded_eq]
  refine .step_bind (Passes.child code n .body).toSettles fun body => ?_
  refine .step_bind (.step_lift (Conveys.node code body).toSettles) fun first => ?_
  exact .step_bind (settles_handled first) settles_finalized

/-- Every operation goes on in its scope. -/
theorem settles_op (fuel : Nat) (o : Op) :
    Settles scope fun ev =>
      (Step.op ev fuel code n scope o : Eval (Except Signal Value)) := by
  by_cases ho : ∃ name, o = .guarded name
  · obtain ⟨name, rfl⟩ := ho
    exact settles_guarded
  · exact (Passes.op fuel code n fun name hname => ho ⟨name, hname⟩).toSettles

/-! ### The finalizer -/

/-- The node has a finalizer, which does not come to its normal end in the world `w`. -/
def Diverts (ev : Evaluator) (code : Code) (n : Nat) (scope : ScopeId) (w : Machine) : Prop :=
  ∃ f, code.program.child? n .finalizer = some f ∧
    ∀ x u, ev.node code f scope w ≠ some (.ok (.normal x), u)

/-- A finalizer that comes to its normal end lets the exception go on. -/
theorem run_finalized (h : ¬Diverts ev code n scope w) (r : Raised) :
    ∃ u, Step.finalized ev code n scope (.raised r) w = some (.ok (.error (.raised r)), u) := by
  unfold Step.finalized
  cases hf : code.program.child? n .finalizer with
  | none => exact ⟨w, rfl⟩
  | some f =>
    by_cases hnormal : ∃ x u, ev.node code f scope w = some (.ok (.normal x), u)
    · obtain ⟨x, u, hrun⟩ := hnormal
      refine ⟨u, ?_⟩
      dsimp only
      rw [Step.run_bind, Step.run_lift, hrun]
      rfl
    · exact absurd ⟨f, hf, fun x u hrun => hnormal ⟨x, u, hrun⟩⟩ h

/-- What the finalizer raises takes the place of everything else. -/
theorem finalized_shows {signal : Signal} {q : Flight}
    (hasks : Asks (fun ev => (Step.finalized ev code n scope signal : Eval (Except Signal Value)))
      ev w q.place q.start) (hq : q.By ev) :
    ∃ u, Step.finalized ev code n scope signal w = some (.ok (.error (.raised q.raised)), u) := by
  unfold Step.finalized at hasks ⊢
  cases hf : code.program.child? n .finalizer with
  | none =>
    rw [hf] at hasks
    exact absurd hasks Asks.not_const
  | some f =>
    rw [hf] at hasks
    dsimp only at hasks ⊢
    rcases Asks.of_step_bind (.lift (.ask _ (Regime.free_onward.allows (.node code f scope))))
      hasks with hfirst | ⟨s, u, -, hrest⟩
    · obtain ⟨hplace, rfl⟩ :=
        Asks.at_iff.1 (Asks.of_lift (a := fun ev => ev.at (.node code f scope)) hfirst)
      refine ⟨q.landed, ?_⟩
      rw [Step.run_bind, Step.run_lift, hq.node hplace.symm]
      rfl
    · split at hrest <;> exact absurd hrest Asks.not_const

/-! ### The handler -/

/-- What is in flight where it is caught: the frame of the handler is added to its path. -/
def caught (w : Machine) (raised : Raised) : Raised :=
  match w.control.frames with
  | site :: _ => raised.leave site
  | [] => raised

theorem Raised.exception_leave (r : Raised) (site : CallSite) :
    (r.leave site).exception = r.exception := by
  unfold Raised.leave
  split <;> rfl

theorem exists_withPath (exception : Value) (path : List CallSite) (w : Machine) :
    ∃ x s, Step.withPath exception path w = some (.ok x, w.withStore s) ∧
      ∀ {serial kind message payload path'},
        exception = .exception serial kind message payload path' →
        ∃ serial', x = .exception serial' kind message payload path := by
  cases exception with
  | exception serial kind message payload path' =>
    refine ⟨_, _, rfl, ?_⟩
    rintro _ _ _ _ _ ⟨⟩
    exact ⟨_, rfl⟩
  | _ => exact ⟨_, w.store, rfl, by rintro _ _ _ _ _ ⟨⟩⟩

/-- A handler is asked about in the world `v` and the scope `inner`, for what came to the guarded
node in the world `w`. -/
structure Caught (code : Code) (n handler : Nat) (name : Option String) (scope : ScopeId)
    (w : Machine) (raised : Raised) (inner : ScopeId) (v : Machine) : Prop where
  /-- The frames and scopes are those of the guarded node. -/
  stays : Stays w v
  /-- The handler can be evaluated. -/
  live : LiveAt inner v
  /-- The scope is one of its own. -/
  fresh : inner ≠ scope
  /-- The variable of the handler is the exception with its path. -/
  bound : ∀ {x}, name = some x → ∀ {serial kind message payload path},
    raised.exception = .exception serial kind message payload path →
    ∃ serial', v.control.scopes.get inner x =
      .ok (.exception serial' kind message payload (caught w raised).path)
  /-- The handler is evaluated in that scope, which is left again. -/
  opens : ∃ locals u, enterScope scope .catch locals u = some (.ok inner, v) ∧
    ∀ ev, Step.handle ev code n handler name scope raised w =
      inScope scope .catch locals (ev.node code handler) u

/-- An exception that comes to a handler is caught. -/
theorem exists_caught (code : Code) (n handler : Nat) (name : Option String)
    (hw : LiveAt scope w) (raised : Raised) :
    ∃ inner v, Caught code n handler name scope w raised inner v := by
  have hexception : (caught w raised).exception = raised.exception := by
    unfold caught
    split
    · exact raised.exception_leave _
    · rfl
  obtain ⟨x, s, hpath, hx⟩ := exists_withPath (caught w raised).exception (caught w raised).path w
  let noted := (w.withStore s).noted .debug Eval.target "exception caught" fun s =>
    [("exception", s.display x), ("node", toString n)]
  have hnoted : Stays w noted :=
    .of_eq hw.tidy (by rw [World.noted_control]; rfl) (by rw [World.noted_control]; rfl)
  have hlive := hw.stays hnoted
  obtain ⟨inner, s', henter, hs', hinner, hfresh⟩ := exists_enterScope_live hlive .catch
    (name.toList.map fun name => (name, x))
  refine ⟨inner, _, hnoted.trans hs', hinner, ?_, ?_, _, _, henter, fun ev => ?_⟩
  · rintro rfl
    rw [hlive.isScope] at hfresh
    cases hfresh
  · rintro y rfl serial kind message payload path hraised
    obtain ⟨serial', rfl⟩ := hx (hexception.trans hraised)
    exact ⟨serial', get_of_enterScope hlive henter⟩
  · unfold Step.handle
    rw [Act.run_bind, run_session]
    change (Step.withPath (caught w raised).exception (caught w raised).path >>= _) w = _
    rw [Act.run_bind, hpath]
    rfl

namespace Caught

variable {handler : Nat} {raised : Raised} {inner : ScopeId}

/-- The handler is what is asked about. -/
theorem of_asks (h : Caught code n handler name scope w raised inner v) {x : Machine}
    (hasks : Asks (fun ev => Step.handle ev code n handler name scope raised) ev w p x) :
    p = .node code handler inner ∧ x = v := by
  obtain ⟨locals, u, henter, hrun⟩ := h.opens
  have hask (inner : ScopeId) : Steps Regime.onward fun ev => ev.at (.node code handler inner) :=
    .ask _ (Regime.free_onward.allows (.node code handler inner))
  have hinner := Asks.of_inScope hask henter (hasks.congr hrun)
  obtain ⟨hplace, hstart⟩ := Asks.at_iff.1 hinner
  exact ⟨hplace.symm, hstart.symm⟩

/-- The handler is waited for. -/
theorem waits (h : Caught code n handler name scope w raised inner v) (ev : Evaluator) :
    Waits (fun ev => Step.handle ev code n handler name scope raised) ev w
      (.node code handler inner) v := by
  obtain ⟨locals, u, henter, hrun⟩ := h.opens
  exact (Waits.inScope henter (.self ev (.node code handler inner) v)).congr hrun

/-- What the handler comes to is what was caught comes to. -/
theorem run (h : Caught code n handler name scope w raised inner v) (hev : ev.Calm)
    {r : Except EvalError Signal} (hrun : ev.node code handler inner v = some (r, u)) :
    Step.handle ev code n handler name scope raised w = some (r, u.left inner) := by
  obtain ⟨locals, x, henter, hhandle⟩ := h.opens
  have hu : Stays v u := hev (p := .node code handler inner) h.live hrun
  rw [hhandle]
  exact run_inScope henter hrun (h.live.stays hu).isScope

end Caught

/-! ### The whole node -/

theorem run_guarded {b : Nat} {s signal : Signal} (hb : code.program.child? n .body = some b)
    (hbody : ev.node code b scope w = some (.ok s, u))
    (hhandled : Step.handled ev code n name scope s u = some (.ok (.ok signal), v)) :
    Step.guarded ev code n name scope w = Step.finalized ev code n scope signal v := by
  rw [Step.guarded_of_body hb, Step.run_bind, Step.run_lift, hbody]
  dsimp only
  rw [Step.run_bind, hhandled]

theorem handled_asks {s : Signal}
    (h : Asks (fun ev => (Step.handled ev code n name scope s : Eval (Except Signal Signal))) ev w
      p v) :
    ∃ r handler, s = .raised r ∧ code.program.child? n .handler = some handler ∧
      Asks (fun ev => Step.handle ev code n handler name scope r) ev w p v := by
  unfold Step.handled at h
  split at h
  · next hhandler => exact ⟨_, _, rfl, hhandler, Asks.of_lift h⟩
  · exact absurd h Asks.not_const

/-- An exception that leaves a question of a guarded node comes to the handler, or the finalizer
takes it away, or it leaves the node. -/
theorem guarded_shows {q : Flight} (hev : ev.Calm) (hw : LiveAt scope w)
    (hasks : Asks (fun ev => (Step.guarded ev code n name scope : Eval (Except Signal Value))) ev w
      q.place q.start) (hq : q.By ev) :
    (∃ b h, code.program.child? n .body = some b ∧ code.program.child? n .handler = some h ∧
      q.place = .node code b scope ∧ q.start = w) ∨
    (∃ b, code.program.child? n .body = some b ∧ code.program.child? n .handler = none ∧
      q.place = .node code b scope ∧ q.start = w ∧ Diverts ev code n scope q.landed) ∨
    (∃ h inner, code.program.child? n .handler = some h ∧ inner ≠ scope ∧
      q.place = .node code h inner ∧ Diverts ev code n scope (q.landed.left inner)) ∨
    ∃ u, Step.guarded ev code n name scope w = some (.ok (.error (.raised q.raised)), u) := by
  cases hb : code.program.child? n .body with
  | none =>
    have hrun (ev : Evaluator) : Step.guarded ev code n name scope w =
        (Step.fatal (.internal (.missingChild n .body)) : Step Value) w := by
      rw [Step.guarded_eq]
      unfold Step.child
      rw [hb]
      rfl
    exact absurd (hasks.congr hrun) Asks.not_const
  | some b =>
    simp only [Step.guarded_of_body hb] at hasks
    rcases Asks.of_step_bind (.lift (.ask _ (Regime.free_onward.allows (.node code b scope)))) hasks with
      hbody | ⟨s, u, hs, hrest⟩
    · obtain ⟨hplace, rfl⟩ :=
        Asks.at_iff.1 (Asks.of_lift (a := fun ev => ev.at (.node code b scope)) hbody)
      have hanswer := hq.node hplace.symm
      cases hh : code.program.child? n .handler with
      | some h => exact Or.inl ⟨b, h, rfl, rfl, hplace.symm, rfl⟩
      | none =>
        by_cases hdiverts : Diverts ev code n scope q.landed
        · exact Or.inr (Or.inl ⟨b, rfl, rfl, hplace.symm, rfl, hdiverts⟩)
        · obtain ⟨u, hu⟩ := run_finalized hdiverts q.raised
          have hhandled : Step.handled ev code n name scope (.raised q.raised) q.landed =
              some (.ok (.ok (.raised q.raised)), q.landed) := by
            unfold Step.handled
            rw [hh]
            rfl
          exact Or.inr (Or.inr (Or.inr ⟨u, (run_guarded hb hanswer hhandled).trans hu⟩))
    · have hbody := Step.run_of_lift hs
      have hu := hw.stays (hev (p := .node code b scope) hw hbody)
      rcases Asks.of_step_bind (settles_handled s).steps hrest with hhandler | ⟨signal, v, hrun, hlast⟩
      · obtain ⟨r, h, rfl, hh, hhandle⟩ := handled_asks hhandler
        obtain ⟨inner, v, hcaught⟩ := exists_caught code n h name hu r
        obtain ⟨hplace, hstart⟩ := hcaught.of_asks hhandle
        have hanswer := hq.node hplace
        rw [hstart] at hanswer
        by_cases hdiverts : Diverts ev code n scope (q.landed.left inner)
        · exact Or.inr (Or.inr (Or.inl ⟨h, inner, hh, hcaught.fresh, hplace, hdiverts⟩))
        · obtain ⟨y, hy⟩ := run_finalized hdiverts q.raised
          have hhandled : Step.handled ev code n name scope (.raised r) u =
              some (.ok (.ok (.raised q.raised)), q.landed.left inner) := by
            unfold Step.handled
            rw [hh]
            dsimp only
            rw [Step.run_lift, hcaught.run hev hanswer]
          exact Or.inr (Or.inr (Or.inr ⟨y, (run_guarded hb hbody hhandled).trans hy⟩))
      · obtain ⟨y, hy⟩ := finalized_shows hlast hq
        exact Or.inr (Or.inr (Or.inr ⟨y, (run_guarded hb hbody hrun).trans hy⟩))

end

end GraphLang
