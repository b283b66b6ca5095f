import GraphLang.Proofs.Flight.Guarded

/-!
# Exceptions from place to place

Every place that is evaluated asks for other ones. An exception that leaves one of these leaves the
place that asked, unless it is stopped there: a handler intercepts it, a finalizer takes it away, or
a validation whose predicate raised it reports it as a refusal. Only calls open frames, and each
adds its own to the path.
-/

namespace GraphLang

open Eval

variable {α : Type} {scope : ScopeId} {u v w : Machine} {ev : Evaluator} {p : Place}

/-! ### Calls -/

theorem Asks.not_ends {a : Evaluator → Eval α} {y : Except EvalError α × Machine}
    (h : ∀ ev, a ev w = some y) : ¬Asks a ev w p v := by
  rintro ⟨-, hstuck⟩
  rw [h] at hstuck
  cases hstuck

/-- From the world `w` the action ends on its own, or it opens a call frame, asks for a body in the
world `v`, and adds the frame to what the body raises. -/
inductive Calls (action : Evaluator → Eval Signal) (w : Machine) : Prop
  /-- It ends on its own. -/
  | ends {r : Except EvalError Signal} {v : Machine} (hrun : ∀ ev, action ev w = some (r, v))
      (hv : Stays w v)
  /-- It opens a frame. -/
  | enters {p : Place} {site : CallSite} {v : Machine} (hlive : p.Live v)
      (hframes : v.control.frames = site :: w.control.frames)
      (hstuck : ∀ ev, action ev w = none ↔ ev.at p v = none)
      (hleaves : ∀ ev r u, ev.at p v = some (r, u) → Stays v u →
        ∃ r' u', action ev w = some (r', u') ∧ Stays w u' ∧
          ∀ x, r = .ok (.raised x) → r' = .ok (.raised (x.leave site)))

/-- After a step without questions. -/
theorem Calls.const_bind {a : Eval α} {x : α} {f : Evaluator → α → Eval Signal}
    (ha : a w = some (.ok x, w)) (h : Calls (fun ev => f ev x) w) :
    Calls (fun ev => a >>= f ev) w := by
  have hrun (ev : Evaluator) : (a >>= f ev) w = f ev x w := by
    rw [Act.run_bind, ha]
  cases h with
  | ends hends hv => exact .ends (fun ev => (hrun ev).trans (hends ev)) hv
  | enters hlive hframes hstuck hleaves =>
    refine .enters hlive hframes (fun ev => ?_) fun ev r u hbody hu => ?_
    · rw [hrun]
      exact hstuck ev
    · rw [hrun]
      exact hleaves ev r u hbody hu

theorem inScope_eq_none_iff {parent inner : ScopeId} {kind : ScopeKind}
    {locals : List (String × Value)} {body : ScopeId → Eval α}
    (henter : enterScope parent kind locals w = some (.ok inner, v)) :
    inScope parent kind locals body w = none ↔ body inner v = none := by
  unfold inScope
  rw [Act.run_bind, henter]
  dsimp only
  rw [Act.run_bind, Act.run_attempt]
  cases body inner v with
  | none => exact iff_of_true rfl rfl
  | some y =>
    refine iff_of_false ?_ (Option.some_ne_none y)
    dsimp only [Option.map]
    rw [Act.run_bind, run_popScope]
    cases (y.2.control.scopes.pop inner).1 with
    | error cause => exact Option.some_ne_none _
    | ok _ => cases y.1 <;> exact Option.some_ne_none _

/-- A call opens a scope and a frame, and leaves both. -/
theorem calls_inCall {parent : ScopeId} (h : LiveAt parent w) (locals : List (String × Value))
    (code : Code) (root : Nat) (name : String) (site : Nat → CallSite) :
    Calls (fun ev => inScope parent .function locals fun scope => do
      let site := site (← session).nextFrame
      let signal ← inFrame site do
        let frames := (← session).frames
        report .debug "call" fun _ => [("function", name), ("depth", toString frames.length)]
        ev.body code root scope
      leaveFunction site name signal) w := by
  obtain ⟨inner, s, henter, hs, hinner, -⟩ := exists_enterScope_live h .function locals
  let opened := w.withScopes s
  let entered := opened.framed (site opened.control.nextFrame)
  let called := entered.noted .debug target "call" fun _ =>
    [("function", name), ("depth", toString entered.control.frames.length)]
  let action (ev : Evaluator) (scope : ScopeId) : Eval Signal := do
    let site := site (← session).nextFrame
    let signal ← inFrame site do
      let frames := (← session).frames
      report .debug "call" fun _ => [("function", name), ("depth", toString frames.length)]
      ev.body code root scope
    leaveFunction site name signal
  have hcontrol : called.control = entered.control := World.noted_control ..
  have hframed (ev : Evaluator) : inFrame (site opened.control.nextFrame) (do
      let frames := (← session).frames
      report .debug "call" fun _ => [("function", name), ("depth", toString frames.length)]
      ev.body code root inner) opened =
        (ev.body code root inner called).map fun y => (y.1, y.2.unframed) := run_inFrame _ _ _
  have hrun (ev : Evaluator) : action ev inner opened = _ :=
    Act.run_bind (inFrame (site opened.control.nextFrame) _) (leaveFunction _ name) opened
  have hends (ev : Evaluator) (r : Except EvalError Signal) (u : Machine)
      (hbody : ev.body code root inner called = some (r, u)) :
      ∃ r', action ev inner opened = some (r', u.unframed) ∧ ∀ x, r = .ok (.raised x) →
        r' = .ok (.raised (x.leave (site opened.control.nextFrame))) := by
    rw [hrun, hframed, hbody]
    cases r with
    | error e => exact ⟨.error e, rfl, nofun⟩
    | ok signal =>
      cases signal with
      | raised r =>
        refine ⟨_, rfl, ?_⟩
        rintro _ ⟨⟩
        rfl
      | _ => exact ⟨_, rfl, nofun⟩
  have hframes : called.control.frames = site opened.control.nextFrame :: w.control.frames := by
    rw [hcontrol]
    rfl
  refine .enters (p := .body code root inner) (v := called) ?_ hframes (fun ev => ?_)
    fun ev r u hbody hu => ?_
  · refine ⟨?_, ?_⟩
    · rw [hcontrol]
      exact hinner.tidy
    · rw [hcontrol]
      exact hinner.isScope
  · rw [inScope_eq_none_iff henter]
    change action ev inner opened = none ↔ ev.body code root inner called = none
    cases hbody : ev.body code root inner called with
    | none =>
      refine iff_of_true ?_ rfl
      rw [hrun, hframed, hbody]
      rfl
    | some y =>
      obtain ⟨r', hends', -⟩ := hends ev y.1 y.2 hbody
      rw [hends']
      exact iff_of_false (Option.some_ne_none _) (Option.some_ne_none _)
  · obtain ⟨r', hends', hraised⟩ := hends ev r u hbody
    have hopened : Stays opened u.unframed := by
      refine ⟨?_, hu.tidy, fun {n} hn => hu.isScope ?_⟩
      · show u.control.frames.tail = _
        rw [hu.frames, hcontrol]
        rfl
      · rw [hcontrol]
        exact hn
    have hleft := (hinner.stays hopened).isScope
    exact ⟨r', _, run_inScope henter hends' hleft,
      (hs.trans hopened).trans (.left hopened.tidy inner), hraised⟩

/-- Calling a function. -/
theorem calls_callFunction (hw : w.control.scopes.Tidy) (f : FunctionValue) (args : List Value)
    (callNode : Option Nat) : Calls (fun ev => callFunction ev f args callNode) w := by
  by_cases hlimit : w.control.config.maxCallDepth ≤ w.control.frames.length
  · exact .ends (fun ev => (callFunction_of_limit hlimit ev f args callNode).trans
      (run_exceed _ w)) (.noted hw _ _ _ _)
  refine .const_bind (run_session w) ?_
  simp only [if_neg hlimit]
  cases hunit : w.control.units[f.unit]? with
  | none =>
    refine .ends (r := .error (.unknownUnit f.unit)) (fun ev => ?_) (.refl hw)
    rw [Act.run_bind, run_unit, hunit]
  | some loaded =>
    refine .const_bind (x := loaded) (by rw [run_unit, hunit]) ?_
    cases loaded.program.function? f.function with
    | none => exact .ends (fun _ => rfl) (.refl hw)
    | some d =>
      dsimp only
      split
      · exact .ends (fun _ => rfl) (.of_eq hw rfl rfl)
      cases d.body with
      | none => exact .ends (fun _ => rfl) (.refl hw)
      | some root =>
        refine .const_bind (run_session w) ?_
        cases hscope : w.control.scopes.closureScope f.closure with
        | error e => exact .ends (fun _ => rfl) (.refl hw)
        | ok parent =>
          refine .const_bind (x := parent) rfl ?_
          exact calls_inCall ⟨hw, Scopes.isScope_of_closureScope hscope⟩ (d.params.zip args)
            ⟨f.unit, loaded.program⟩ root d.name
            fun frame => ⟨d.name, f.unit, f.function, callNode, frame⟩

/-! ### Nodes -/

/-- The world in which the operation of a node begins. -/
def World.entering (w : Machine) (code : Code) (n : Nat) (o : Op) : Machine :=
  w.noted .trace Eval.target "eval" fun _ =>
    [("unit", toString code.unit), ("node", toString n), ("op", Text.quoted o.name)]

section

variable {code : Code} {n : Nat} {o : Op} {fuel : Nat}

theorem LiveAt.entering (h : LiveAt scope w) (code : Code) (n : Nat) (o : Op) :
    LiveAt scope (w.entering code n o) := h.stays (.noted h.tidy _ _ _ _)

theorem run_node (ho : code.program.op? n = some o) (ev : Evaluator) :
    Eval.node ev fuel code n scope w =
      ((Step.op ev fuel code n scope o).toSignal >>= fun s => record code n o s >>= fun _ => pure s)
        (w.entering code n o) := by
  unfold Eval.node
  rw [ho]
  rfl

theorem settles_node (fuel : Nat) (code : Code) (n : Nat) :
    Settles scope fun ev => Eval.node ev fuel code n scope := by
  unfold Eval.node
  split
  · exact .throw _
  · refine .bind (.evalReport _ _ _) fun _ => .bind (.bind (settles_op fuel _) fun r => ?_) fun s =>
      .bind ?_ fun _ => .pure _
    · cases r <;> exact .pure _
    · refine .of_const (.record code n _ s) fun {w r v} h hrun => ?_
      cases hrun
      dsimp only
      split <;> exact .of_eq h.tidy rfl rfl

/-- What is asked about in a node is asked about by its operation. -/
theorem Asks.of_node (ho : code.program.op? n = some o)
    (h : Asks (fun ev => Eval.node ev fuel code n scope) ev w p v) :
    Asks (fun ev => (Step.op ev fuel code n scope o : Eval (Except Signal Value))) ev
      (w.entering code n o) p v := by
  have hop : Moves Regime.onward fun ev => Step.op ev fuel code n scope o :=
    .op fuel (Regime.free_onward.allows _) ho
  rcases Asks.of_bind (.toSignal hop) (h.congr (run_node ho)) with
    hsignal | ⟨_, _, -, hrest⟩
  · rcases Asks.of_bind hop hsignal with hfirst | ⟨r, _, -, hrest⟩
    · exact hfirst
    · cases r <;> exact absurd hrest Asks.not_const
  · exact absurd hrest Asks.not_const

theorem Waits.node (ho : code.program.op? n = some o)
    (h : Waits (fun ev => (Step.op ev fuel code n scope o : Eval (Except Signal Value))) ev
      (w.entering code n o) p v) :
    Waits (fun ev => Eval.node ev fuel code n scope) ev w p v :=
  (Waits.bind (Waits.bind h)).congr (run_node ho)

/-- The signal that an operation throws leaves the node. -/
theorem run_node_of_throws {s : Signal} (ho : code.program.op? n = some o)
    (hrun : Step.op ev fuel code n scope o (w.entering code n o) = some (.ok (.error s), u)) :
    Eval.node ev fuel code n scope w = some (.ok s, u.recorded code n o s) := by
  rw [run_node ho, Act.run_bind]
  unfold Step.toSignal
  rw [Act.run_bind, ExceptT.run, hrun]
  rfl

/-! ### Exceptions that are stopped -/

/-- A handler intercepts the exception: it leaves the body of a guarded node that has one. -/
inductive Intercepted (w : Machine) : Place → Flight → Prop
  | body {code n scope name b h q} : code.program.op? n = some (.guarded name) →
    code.program.child? n .body = some b → code.program.child? n .handler = some h →
    q.place = .node code b scope → q.start = w.entering code n (.guarded name) →
    Intercepted w (.node code n scope) q

/-- A finalizer takes the exception away: after the body of a guarded node without a handler, or
after the handler, it does not come to its normal end. -/
inductive Overridden (ev : Evaluator) (w : Machine) : Place → Flight → Prop
  /-- The exception leaves the body. -/
  | body {code n scope name b q} : code.program.op? n = some (.guarded name) →
    code.program.child? n .body = some b → code.program.child? n .handler = none →
    q.place = .node code b scope → q.start = w.entering code n (.guarded name) →
    Diverts ev code n scope q.landed → Overridden ev w (.node code n scope) q
  /-- The exception leaves the handler, which has a scope of its own. -/
  | handler {code n scope name h inner q} : code.program.op? n = some (.guarded name) →
    code.program.child? n .handler = some h → inner ≠ scope → q.place = .node code h inner →
    Diverts ev code n scope (q.landed.left inner) → Overridden ev w (.node code n scope) q

/-- A predicate raised the exception, and the change that asked for it is refused with another one
that reports it. -/
def Swallowed (ev : Evaluator) (fuel : Nat) (w : Machine) (p : Place) (q : Flight) : Prop :=
  ∃ x u, q.Reports x ∧ p.evalBy ev fuel w = some (.ok (.raised (.new x)), u)

/-- The place `p` is not left with the exception that leaves its question. -/
def Stopped (ev : Evaluator) (fuel : Nat) (w : Machine) (p : Place) (q : Flight) : Prop :=
  Intercepted w p q ∨ Overridden ev w p q ∨ Swallowed ev fuel w p q

/-- An exception that is not stopped leaves the node. -/
theorem node_shows {q : Flight} (hev : ev.Calm) (hw : LiveAt scope w)
    (hasks : Asks (fun ev => Eval.node ev fuel code n scope) ev w q.place q.start)
    (hq : q.By ev) (hfree : ¬Stopped ev fuel w (.node code n scope) q) :
    ∃ u, Eval.node ev fuel code n scope w = some (.ok (.raised q.raised), u) := by
  cases ho : code.program.op? n with
  | none =>
    unfold Eval.node at hasks
    rw [ho] at hasks
    exact absurd hasks Asks.not_const
  | some o =>
    have hop := hasks.of_node ho
    have hlive := hw.entering code n o
    by_cases hguarded : ∃ name, o = .guarded name
    · obtain ⟨name, rfl⟩ := hguarded
      rcases guarded_shows hev hlive hop hq with ⟨b, h, hb, hh, hplace, hstart⟩ |
        ⟨b, hb, hh, hplace, hstart, hdiverts⟩ | ⟨h, inner, hh, hinner, hplace, hdiverts⟩ | ⟨u, hu⟩
      · exact absurd (Or.inl (.body ho hb hh hplace hstart)) hfree
      · exact absurd (Or.inr (Or.inl (.body ho hb hh hplace hstart hdiverts))) hfree
      · exact absurd (Or.inr (Or.inl (.handler ho hh hinner hplace hdiverts))) hfree
      · exact ⟨_, run_node_of_throws ho hu⟩
    · have hother (name : Option String) : o ≠ .guarded name :=
        fun hname => hguarded ⟨name, hname⟩
      obtain ⟨r, u, hrun, s, rfl, rfl | ⟨x, hx, rfl⟩⟩ :=
        (Passes.op fuel code n hother).shows hev hlive hop hq
      · exact ⟨_, run_node_of_throws ho hrun⟩
      · exact absurd (Or.inr (Or.inr ⟨x, _, hx, run_node_of_throws ho hrun⟩)) hfree

end

/-! ### Places -/

namespace Eval.Place

variable {fuel : Nat} {r : Except EvalError Signal}

theorem stays (hev : ev.Calm) (hp : p.Live w) (hrun : p.evalBy ev fuel w = some (r, v)) :
    Stays w v := by
  cases p with
  | node code n scope => exact (settles_node fuel code n).stays hev hp hrun
  | body code root scope => exact (Conveys.body code root).stays hev hp hrun
  | call f args callNode =>
    cases calls_callFunction hp f args callNode with
    | ends hends hv =>
      cases (hends ev).symm.trans hrun
      exact hv
    | @enters p site x hlive _ hstuck hleaves =>
      cases hbody : ev.at p x with
      | none =>
        cases ((hstuck ev).2 hbody).symm.trans hrun
      | some y =>
        obtain ⟨r', u', hends, hu', -⟩ := hleaves ev y.1 y.2 hbody (hev hlive hbody)
        cases hends.symm.trans hrun
        exact hu'

/-- What a place asks about can be evaluated, and at most one frame is opened for it. -/
theorem asks {q : Place} (hev : ev.Calm) (hp : p.Live w)
    (hasks : Asks (fun ev => p.evalBy ev fuel) ev w q v) :
    q.Live v ∧ (v.control.frames = w.control.frames ∨
      ∃ site, v.control.frames = site :: w.control.frames) := by
  cases p with
  | node code n scope =>
    obtain ⟨hv, hlive⟩ := (settles_node fuel code n).asks hev hp hasks
    exact ⟨hlive, Or.inl hv.frames⟩
  | body code root scope =>
    obtain ⟨hv, hlive⟩ := (Conveys.body code root).asks hev hp hasks
    exact ⟨hlive, Or.inl hv.frames⟩
  | call f args callNode =>
    cases calls_callFunction hp f args callNode with
    | ends hends _ => exact absurd hasks (Asks.not_ends hends)
    | enters hlive hframes hstuck _ =>
      obtain ⟨rfl, rfl⟩ := Asks.at_iff.1 (hasks.of_none_iff hstuck)
      exact ⟨hlive, Or.inr ⟨_, hframes⟩⟩

/-- An exception that leaves a question and is not stopped leaves the place. The frame that was
opened for the question, if there is one, is added to its path. -/
theorem shows {q : Flight} (hev : ev.Calm) (hp : p.Live w)
    (hasks : Asks (fun ev => p.evalBy ev fuel) ev w q.place q.start) (hq : q.By ev)
    (hfree : ¬Stopped ev fuel w p q) :
    ∃ r u, p.evalBy ev fuel w = some (.ok (.raised r), u) ∧
      ((q.start.control.frames = w.control.frames ∧ r = q.raised) ∨
        ∃ site, q.start.control.frames = site :: w.control.frames ∧ r = q.raised.leave site) := by
  cases p with
  | node code n scope =>
    obtain ⟨u, hrun⟩ := node_shows hev hp hasks hq hfree
    exact ⟨_, u, hrun, Or.inl ⟨((settles_node fuel code n).asks hev hp hasks).1.frames, rfl⟩⟩
  | body code root scope =>
    obtain ⟨_, u, hrun, rfl⟩ := (Conveys.body code root).shows hev hp hasks hq
    exact ⟨_, u, hrun, Or.inl ⟨((Conveys.body code root).asks hev hp hasks).1.frames, rfl⟩⟩
  | call f args callNode =>
    cases calls_callFunction hp f args callNode with
    | ends hends _ => exact absurd hasks (Asks.not_ends hends)
    | enters hlive hframes hstuck hleaves =>
      obtain ⟨hplace, hstart⟩ := Asks.at_iff.1 (hasks.of_none_iff hstuck)
      rw [hplace, hstart] at hlive hleaves
      obtain ⟨r, u, hrun, -, hraised⟩ := hleaves ev _ _ hq (hev hlive hq)
      cases hraised q.raised rfl
      exact ⟨_, u, hrun, Or.inr ⟨_, hstart ▸ hframes, rfl⟩⟩

end Eval.Place

theorem eval_at (fuel : Nat) (p : Place) (w : Machine) :
    (eval (fuel + 1)).at p w = p.evalBy (eval fuel) fuel w := by
  cases p <;> rfl

theorem calm_eval (fuel : Nat) : (eval fuel).Calm := by
  induction fuel with
  | zero => exact calm_eval_zero
  | succ fuel ih =>
    intro p w r v hp hrun
    rw [eval_at] at hrun
    exact p.stays ih hp hrun

end GraphLang
