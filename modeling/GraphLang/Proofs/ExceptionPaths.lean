import GraphLang.Proofs.Flight.Places

/-!
# The paths of exceptions

An exception is raised without a path. On its way out every call that it leaves adds its frame, and
the handler that intercepts it adds the frame in which it stands. So the path that a handler sees is
the part of the call stack, as it was where the exception was raised, down to the frame of the
handler; and the path of an exception that nobody catches is the whole of it.
-/

namespace GraphLang

open Eval

/-! ### Moments of a run and flights -/

/-- The run of a unit comes to the place in the world `v`, with so much fuel left for it. -/
inductive Comes (fuel : Nat) (id : UnitId) (w : Machine) : Nat → Place → Machine → Prop
  /-- The run asks about the body of the unit. -/
  | start {p v} : Asks (runBy · id) (eval fuel) w p v → Comes fuel id w fuel p v
  /-- The evaluation of a place asks about another one. -/
  | inner {k p v q z} : Comes fuel id w (k + 1) q z →
    Asks (fun ev => q.evalBy ev k) (eval k) z p v → Comes fuel id w k p v

/-- The evaluation of the place comes to the exception, which is raised there. -/
def Raises (k : Nat) (p : Place) (v : Machine) (x : Value) : Prop :=
  ∃ u, (eval k).at p v = some (.ok (.raised (.new x)), u)

/-- What leaves the place `p`, evaluated in the world `v`, is stopped by no place on the way out to
the last one. -/
inductive Flies (k : Nat) (p : Place) (v : Machine) : Nat → Place → Machine → Prop
  /-- It leaves `p`. -/
  | here : Flies k p v k p v
  /-- It leaves a place that asked about one which it left. -/
  | out {j q z o y} : Flies k p v j q z → Asks (fun ev => o.evalBy ev j) (eval j) y q z →
    (∀ r u, (eval j).at q z = some (.ok (.raised r), u) → ¬Stopped (eval j) j y o ⟨q, z, r, u⟩) →
    Flies k p v (j + 1) o y

/-! ### Paths -/

variable {u v w z : Machine} {p q : Place} {fuel j k : Nat} {id : UnitId} {x : Value}

/-- Inner frames have larger numbers. -/
def Descending (frames : List CallSite) : Prop :=
  frames.Pairwise fun inner outer => outer.frame < inner.frame

/-- A frame that is left for the first time is added to the path. -/
theorem Raised.leave_of_descending {path rest : List CallSite} {site : CallSite}
    (h : Descending (path ++ site :: rest)) (x : Value) :
    Raised.leave ⟨x, path⟩ site = ⟨x, path ++ [site]⟩ := by
  unfold Raised.leave
  refine if_neg fun hlast => ?_
  rw [beq_iff_eq, Option.map_eq_some_iff] at hlast
  obtain ⟨last, hmem, hframe⟩ := hlast
  have hlt := (List.pairwise_append.1 h).2.2 last (List.mem_of_getLast? hmem) site
    List.mem_cons_self
  omega

/-- An exception that is not stopped leaves the last place with the frames that were opened from
there on, innermost first. -/
theorem Flies.leaves (h : Flies k p v j q z) (hz : q.Live z) (hnumbered : Numbered z.control)
    (hraise : ∃ u, (eval k).at p v = some (.ok (.raised ⟨x, []⟩), u)) :
    Numbered v.control ∧ ∃ path u, (eval j).at q z = some (.ok (.raised ⟨x, path⟩), u) ∧
      v.control.frames = path ++ z.control.frames := by
  induction h with
  | here =>
    obtain ⟨u, hu⟩ := hraise
    exact ⟨hnumbered, [], u, hu, rfl⟩
  | @out j q z o y _ hasks hfree ih =>
    obtain ⟨hq, -⟩ := o.asks (calm_eval j) hz hasks
    have honward := hasks.onward (Steps.evalBy j (Regime.free_onward.allows o)) (honors_eval j)
    obtain ⟨hv, path, u, hrun, hframes⟩ := ih hq (honward.numbered hnumbered)
    obtain ⟨r, u', hleaves, hcases⟩ :=
      Place.shows (q := ⟨q, z, ⟨x, path⟩, u⟩) (calm_eval j) hz hasks hrun (hfree _ u hrun)
    rw [← eval_at] at hleaves
    rcases hcases with ⟨hsame, rfl⟩ | ⟨site, hopened, rfl⟩
    · exact ⟨hv, path, u', hleaves, by rw [hframes, hsame]⟩
    · rw [hopened] at hframes
      have hdescending : Descending (path ++ site :: y.control.frames) := hframes ▸ hv.decreasing
      rw [Raised.leave_of_descending hdescending] at hleaves
      exact ⟨hv, _, u', hleaves, by rw [hframes, List.append_assoc]; rfl⟩

/-! ### Runs of units -/

/-- The frame of the unit. -/
def mainSite (w : Machine) (id : UnitId) : CallSite :=
  ⟨mainName, id, mainId, none, w.control.nextFrame⟩

/-- A run asks about the body of the unit, in a frame of its own. -/
theorem exists_body_of_asks {ev : Evaluator} (h : Asks (runBy · id) ev w p v) :
    ∃ loaded root, w.control.units[id]? = some loaded ∧
      (loaded.program.function? mainId).bind (·.body) = some root ∧
      p = .body ⟨id, loaded.program⟩ root loaded.scope ∧ v = w.framed (mainSite w id) := by
  cases hunit : w.control.units[id]? with
  | none =>
    refine absurd h (Asks.not_ends (y := (.error (.unknownUnit id), w)) fun ev => ?_)
    unfold runBy
    rw [Act.run_bind, run_unit, hunit]
  | some loaded =>
    cases hroot : (loaded.program.function? mainId).bind (·.body) with
    | none =>
      refine absurd h (Asks.not_ends (y := (.error (.internal .unitWithoutBody), w)) fun ev => ?_)
      unfold runBy
      rw [Act.run_bind, run_unit, hunit]
      dsimp only
      rw [hroot]
      rfl
    | some root =>
      obtain ⟨hplace, hstart⟩ := Asks.at_iff.1 (h.of_none_iff (u := w.framed (mainSite w id))
        (b := fun ev => ev.at (.body ⟨id, loaded.program⟩ root loaded.scope))
        fun ev => runBy_eq_none_iff hunit hroot)
      exact ⟨loaded, root, rfl, hroot, hplace.symm, hstart.symm⟩

/-- What leaves the body of the unit ends the run. -/
theorem run_uncaught {ev : Evaluator} {r : Raised} (h : Asks (runBy · id) ev w p v)
    (hraised : ev.at p v = some (.ok (.raised r), u)) :
    ∃ u', runBy ev id w = some (.error (.uncaught (r.leave (mainSite w id)).exception
      (r.leave (mainSite w id)).path), u') := by
  obtain ⟨loaded, root, hunit, hroot, rfl, rfl⟩ := exists_body_of_asks h
  have hbody : inFrame (mainSite w id) (ev.body ⟨id, loaded.program⟩ root loaded.scope) w =
      some (.ok (.raised r), u.unframed) := by
    rw [run_inFrame]
    change Option.map _ (ev.at (.body ⟨id, loaded.program⟩ root loaded.scope) _) = _
    rw [hraised]
    rfl
  have hrun : runBy ev id w = (inFrame (mainSite w id)
      (ev.body ⟨id, loaded.program⟩ root loaded.scope) >>= leaveUnit (mainSite w id)) w := by
    unfold runBy
    rw [Act.run_bind, run_unit, hunit]
    dsimp only
    rw [hroot]
    rfl
  rw [hrun, Act.run_bind, hbody]
  exact ⟨_, rfl⟩

/-- At every moment of a run the frames are numbered, the place can be evaluated, and the outermost
frame is that of the unit. -/
theorem Comes.framed (h : Comes fuel id w k p v) (hw : Reachable w)
    (hidle : w.control.frames = []) :
    p.Live v ∧ Numbered v.control ∧ v.control.frames.getLast? = some (mainSite w id) := by
  induction h with
  | start hasks =>
    obtain ⟨loaded, root, hunit, hroot, rfl, rfl⟩ := exists_body_of_asks hasks
    have hsane := hw.sane
    refine ⟨⟨hsane.tidy, hsane.units loaded (Array.mem_of_getElem? hunit)⟩, ?_, ?_⟩
    · refine (Onward.framed rfl).numbered ⟨?_, ?_⟩
      · rw [hidle]
        exact .nil
      · rw [hidle]
        nofun
    · show (mainSite w id :: w.control.frames).getLast? = _
      rw [hidle]
      rfl
  | @inner k p v q z _ hasks ih =>
    obtain ⟨hq, hnumbered, hlast⟩ := ih
    obtain ⟨hp, hframes⟩ := q.asks (calm_eval k) hq hasks
    have honward := hasks.onward (Steps.evalBy k (Regime.free_onward.allows q)) (honors_eval k)
    refine ⟨hp, honward.numbered hnumbered, ?_⟩
    rcases hframes with hsame | ⟨site, hopened⟩
    · rw [hsame, hlast]
    · rw [hopened, List.getLast?_cons, hlast]
      rfl

/-! ### Handlers -/

theorem Evaluator.answering_node {ev : Evaluator} {code : Code} {n : Nat} {scope : ScopeId}
    {a : Option Answer} (h : ¬moment p v (.node code n scope) w) :
    (ev.answering p v a).node code n scope w = ev.node code n scope w :=
  (ev.answering_at p v a (.node code n scope) w).trans (if_neg h)

/-- A handler that intercepts what leaves the body of its guarded node is asked about. -/
theorem Caught.asks {code : Code} {n b h : Nat} {name : Option String} {scope inner : ScopeId}
    {r : Raised} {ev : Evaluator} (hcaught : Caught code n h name scope u r inner v)
    (hop : code.program.op? n = some (.guarded name))
    (hb : code.program.child? n .body = some b) (hh : code.program.child? n .handler = some h)
    (hbody : ev.node code b scope (z.entering code n (.guarded name)) = some (.ok (.raised r), u)) :
    Asks (fun ev => Place.evalBy ev j (.node code n scope)) ev z (.node code h inner) v := by
  refine (Waits.node (o := .guarded name) hop ?_).asks
  show Waits (fun ev => Step.guarded ev code n name scope) _ _ _ _
  simp only [Step.guarded_of_body hb]
  refine Waits.step_after (x := .raised r) (u := u) (fun c => ?_) (Waits.step_bind ?_)
  · -- the body is not what is asked about, since the handler has a scope of its own
    have hother : ¬moment (.node code h inner) v (.node code b scope)
        (z.entering code n (.guarded name)) := by
      rintro ⟨hplace, -⟩
      cases hplace
      exact hcaught.fresh rfl
    rw [Step.run_lift, Evaluator.answering_node hother, hbody]
  · have hhandled (ev : Evaluator) : Step.handled ev code n name scope (.raised r) =
        Step.lift (Step.handle ev code n h name scope r) := by
      unfold Step.handled
      rw [hh]
    simp only [hhandled]
    exact (hcaught.waits ev).lift

/-! ### Questions of places -/

section

variable {ev : Evaluator} {code : Code} {n : Nat} {scope : ScopeId}

/-- A body that is not a block waits for its node. -/
theorem Waits.body (h : isBlock code n = false) (ev : Evaluator) (scope : ScopeId) (w : Machine) :
    Waits (fun ev => Eval.body ev code n scope) ev w (.node code n scope) w := by
  unfold Eval.body
  simp only [h, Bool.false_eq_true, if_false]
  exact .self ev (.node code n scope) w

/-- A call that can be made waits for the body of the function, in a scope and a frame of its
own. -/
theorem Waits.callFunction {f : FunctionValue} {args : List Value}
    {callNode : Option Nat} {loaded : LoadedUnit} {d : FunctionDef} {root : Nat}
    {parent inner : ScopeId} (hdepth : w.control.frames.length < w.control.config.maxCallDepth)
    (hunit : w.control.units[f.unit]? = some loaded)
    (hd : loaded.program.function? f.function = some d) (harity : d.arity = args.length)
    (hroot : d.body = some root) (hparent : w.control.scopes.closureScope f.closure = .ok parent)
    (henter : enterScope parent .function (d.params.zip args) w = some (.ok inner, u)) :
    Waits (fun ev => Eval.callFunction ev f args callNode) ev w
      (.body ⟨f.unit, loaded.program⟩ root inner)
      ((u.framed ⟨d.name, f.unit, f.function, callNode, u.control.nextFrame⟩).noted .debug target
        "call" fun _ => [("function", d.name), ("depth", toString (u.control.frames.length + 1))])
      := by
  refine .const_bind (run_session w) ?_
  simp only [if_neg (Nat.not_le_of_lt hdepth)]
  refine .const_bind (x := loaded) (by rw [run_unit, hunit]) ?_
  simp only [hd, harity, hroot, bne_self_eq_false, Bool.false_eq_true, if_false]
  refine .const_bind (run_session w) (.const_bind (x := parent) (u := w) (by rw [hparent]; rfl) ?_)
  refine .inScope henter (.const_bind (run_session u) (.bind (.inFrame ?_)))
  exact .const_bind (run_session _)
    (.const_bind rfl (.self ev (.body ⟨f.unit, loaded.program⟩ root inner) _))

/-- Only guarded nodes and changes of containers stop exceptions. -/
theorem not_stopped {q : Flight} (hplace : ¬q.place.IsCallback)
    (hnode : ∀ code n scope name, p = .node code n scope →
      code.program.op? n ≠ some (.guarded name)) : ¬Stopped ev fuel w p q := by
  rintro (hintercepted | hoverridden | ⟨x, u, hreports, -⟩)
  · obtain ⟨hop, -⟩ := hintercepted
    exact hnode _ _ _ _ rfl hop
  · obtain ⟨hop, -⟩ | ⟨hop, -⟩ := hoverridden <;> exact hnode _ _ _ _ rfl hop
  · exact hplace hreports.1

/-- What leaves the node of a body leaves the body. -/
theorem Flies.body (h : isBlock code n = false) :
    Flies k (.node code n scope) w (k + 1) (.body code n scope) w := by
  refine .out .here (Waits.body h (eval k) scope w).asks fun r u _ => not_stopped ?_ ?_
  · rintro ⟨_, _, hplace⟩
    cases hplace
  · rintro _ _ _ _ ⟨⟩

theorem asks_body {loaded : LoadedUnit} {root : Nat} (hunit : w.control.units[id]? = some loaded)
    (hroot : (loaded.program.function? mainId).bind (·.body) = some root) :
    Asks (runBy · id) ev w (.body ⟨id, loaded.program⟩ root loaded.scope)
      (w.framed (mainSite w id)) :=
  (Asks.at_iff.2 ⟨rfl, rfl⟩).of_none_iff
    (a := fun ev => ev.at (.body ⟨id, loaded.program⟩ root loaded.scope))
    fun _ => (runBy_eq_none_iff hunit hroot).symm

end

/-! ### A call in a guarded body -/

/-- An evaluator with the program of a guarded call loaded. -/
def guarding : Machine := (World.evaluator .default .silent noNatives).withUnit .guardedCall

theorem reachable_guarding : Reachable guarding := by
  have hload : load .guardedCall (.evaluator .default .silent noNatives) =
      some (.ok 0, guarding) := by
    unfold load
    rw [Program.validate_guardedCall]
    rfl
  exact .load (.new _ _ _) hload

namespace guarding

/-- The world in which the guarded node is evaluated. -/
def entered : Machine := guarding.framed ⟨mainName, 0, mainId, none, 0⟩

/-- The world in which the function is called. -/
def called : Machine :=
  entered.withScopes (entered.control.scopes.createClosure 17 "f" []).2

/-- The world in which the function raises an exception. -/
def inside : Machine :=
  (called.withScopes (called.control.scopes.push 17 .function).2).framed ⟨"f", 0, 1, some 1, 1⟩

theorem waits_call (fuel : Nat) : Waits (fun ev => Eval.node ev fuel ⟨0, .guardedCall⟩ 1 17)
    (eval 4) entered (.call guardedCallee [] (some 1)) called := by
  have hcallee (b : Option Answer) :
      ((eval 4).answering (.call guardedCallee [] (some 1)) called b).node ⟨0, .guardedCall⟩ 2 17
        entered = some (.ok (.normal (.function guardedCallee)), called) := by
    rw [Evaluator.answering_node (by rintro ⟨hplace, -⟩; cases hplace)]
    cbv
  refine .node (o := .call) (by cbv) ?_
  refine Waits.step_after (x := .function guardedCallee) (u := called) (fun b => ?_) ?_
  · show Step.role _ ⟨0, .guardedCall⟩ 1 .callee 17 entered = _
    have hchild : Step.child ⟨0, .guardedCall⟩ 1 .callee = pure 2 := by cbv
    unfold Step.role
    rw [hchild, pure_bind]
    unfold Step.node
    rw [Step.run_bind, Step.run_lift, hcallee]
    rfl
  · refine Waits.step_after (x := []) (u := called) (fun b => by cbv) ?_
    exact .step_bind (.lift (.self _ (.call guardedCallee [] (some 1)) called))

theorem waits_function : Waits (fun ev => callFunction ev guardedCallee [] (some 1)) (eval 3) called
    (.body ⟨0, .guardedCall⟩ 4 19) inside := by
  have hunit : called.control.units[0]? = some ⟨.guardedCall, 17⟩ := by cbv
  have hfunction : Program.guardedCall.function? 1 = some ⟨1, "f", [], some 4, some 0⟩ := by cbv
  have hparent : called.control.scopes.closureScope 18 = .ok 17 := by cbv
  have henter : enterScope 17 .function [] called =
      some (.ok 19, called.withScopes (called.control.scopes.push 17 .function).2) := by cbv
  have hdepth : called.control.frames.length < called.control.config.maxCallDepth := by decide
  exact Waits.callFunction (f := guardedCallee) hdepth hunit hfunction rfl rfl hparent henter

theorem comes : Comes 7 0 guarding 6 (.node ⟨0, .guardedCall⟩ 0 17) entered := by
  have hunit : guarding.control.units[0]? = some ⟨.guardedCall, 17⟩ := by cbv
  exact .inner (.start (asks_body hunit (by cbv))) (Waits.body (by cbv) _ 17 _).asks

theorem raises :
    Raises 2 (.node ⟨0, .guardedCall⟩ 4 19) inside (.exception 0 "Error" "1" (.int 1) []) :=
  ⟨_, by cbv⟩

/-- The exception leaves the function and the call. -/
theorem flies :
    Flies 2 (.node ⟨0, .guardedCall⟩ 4 19) inside 5 (.node ⟨0, .guardedCall⟩ 1 17) entered := by
  have hbody : Flies 2 (.node ⟨0, .guardedCall⟩ 4 19) inside 3 (.body ⟨0, .guardedCall⟩ 4 19)
      inside := .body (by cbv)
  have hcall : Flies 2 (.node ⟨0, .guardedCall⟩ 4 19) inside 4 (.call guardedCallee [] (some 1))
      called := by
    refine hbody.out waits_function.asks fun r u _ => not_stopped ?_ (by rintro _ _ _ _ ⟨⟩)
    rintro ⟨_, _, hplace⟩
    cases hplace
  refine hcall.out (waits_call 4).asks fun r u _ => not_stopped ?_ ?_
  · rintro ⟨_, _, hplace⟩
    cases hplace
  · rintro _ _ _ name ⟨⟩ hop
    have hcall : Program.guardedCall.op? 1 = some .call := by cbv
    cases hcall.symm.trans hop

end guarding

/-! ### An exception without a handler -/

/-- A program that raises an exception. -/
def Program.unguarded : Program :=
  let (_, g) := SlotGraph.empty.addNode ⟨.raise, 0, none⟩
  let (_, g) := g.addNode ⟨.literal (.int 1), 0, none⟩
  let (_, g) := g.addEdge 0 1 .value
  ⟨"unguarded", g, [(0, ⟨0, mainName, [], some 0, none⟩)], 1⟩

/-- An evaluator with the program loaded. -/
def unguarding : Machine := (World.evaluator .default .silent noNatives).withUnit .unguarded

theorem reachable_unguarding : Reachable unguarding := by
  have hvalid : Program.unguarded.validate = .ok [] := by cbv
  have hload : load .unguarded (.evaluator .default .silent noNatives) =
      some (.ok 0, unguarding) := by
    unfold load
    rw [hvalid]
    rfl
  exact .load (.new _ _ _) hload

/-! ### The path of an exception -/

/-- The path of an exception is the call stack. An exception is raised at some place, without a
path. If nothing stops it on its way out to the body of a guarded node with a handler, then the
handler is asked about, and its variable is the exception with the open frames at the place, the
innermost first, down to the frame of the guarded node. If nothing stops it on its way out of the
run of an idle evaluator, then the run ends with the exception and all open frames at the place, of
which the last one is the frame of the unit. The numbers of the frames decrease along the path. -/
theorem exception_path_is_call_stack (fuel : Nat) (id : UnitId) (hw : Reachable w)
    (hidle : w.control.frames = [])
    {serial : Nat} {kind message : String} {payload : Value}
    (hraise : Raises k p v (.exception serial kind message payload [])) :
    (∀ j code n scope z name b h, Comes fuel id w (j + 1) (.node code n scope) z →
      code.program.op? n = some (.guarded name) → code.program.child? n .body = some b →
      code.program.child? n .handler = some h →
      Flies k p v j (.node code b scope) (z.entering code n (.guarded name)) →
      ∃ site rest path inner y, z.control.frames = site :: rest ∧
        v.control.frames = path ++ rest ∧ path.getLast? = some site ∧ Descending path ∧
        Asks (fun ev => Place.evalBy ev j (.node code n scope)) (eval j) z (.node code h inner) y ∧
        y.control.frames = z.control.frames ∧
        ∀ variableName, name = some variableName → ∃ serial',
          y.control.scopes.get inner variableName =
            .ok (.exception serial' kind message payload path)) ∧
    ∀ q z, Asks (runBy · id) (eval fuel) w q z → Flies k p v fuel q z →
      (∃ u, run fuel id w = some (.error (.uncaught (.exception serial kind message payload [])
        v.control.frames), u)) ∧
      v.control.frames.getLast? = some ⟨mainName, id, mainId, none, w.control.nextFrame⟩ ∧
      Descending v.control.frames := by
  refine ⟨?_, ?_⟩
  · intro j code n scope z name b h hcomes hop hb hh hflies
    obtain ⟨hlive, hnumbered, hlast⟩ := hcomes.framed hw hidle
    have hentering : LiveAt scope (z.entering code n (.guarded name)) :=
      LiveAt.entering hlive code n (.guarded name)
    have hcontrol : (z.entering code n (.guarded name)).control = z.control :=
      World.noted_control ..
    obtain ⟨hv, path, u, hbody, hframes⟩ :=
      hflies.leaves hentering (by rwa [hcontrol]) hraise
    have hu : Stays (z.entering code n (.guarded name)) u :=
      calm_eval j (p := .node code b scope) hentering hbody
    obtain ⟨inner, y, hcaught⟩ := exists_caught code n h name (hentering.stays hu) ⟨_, path⟩
    rw [hcontrol] at hframes
    obtain ⟨site, rest, hsite⟩ : ∃ site rest, z.control.frames = site :: rest := by
      cases hz : z.control.frames with
      | nil =>
        rw [hz] at hlast
        cases hlast
      | cons site rest => exact ⟨site, rest, rfl⟩
    rw [hsite] at hframes
    have hdescending : Descending (path ++ site :: rest) := hframes ▸ hv.decreasing
    have hleaves (x : Value) : caught u ⟨x, path⟩ = ⟨x, path ++ [site]⟩ := by
      unfold caught
      rw [hu.frames, hcontrol, hsite]
      exact Raised.leave_of_descending hdescending x
    have happend : path ++ site :: rest = (path ++ [site]) ++ rest := by
      rw [List.append_assoc]
      rfl
    refine ⟨site, rest, path ++ [site], inner, y, hsite, hframes.trans happend,
      List.getLast?_concat .., ?_, hcaught.asks hop hb hh hbody, ?_, ?_⟩
    · rw [happend] at hdescending
      exact (List.pairwise_append.1 hdescending).1
    · rw [hcaught.stays.frames, hu.frames, hcontrol]
    · intro variableName hname
      have hbound := hcaught.bound hname rfl
      rwa [hleaves] at hbound
  · intro q z hasks hflies
    obtain ⟨hlive, hnumbered, hlast⟩ := (Comes.start hasks).framed hw hidle
    obtain ⟨hv, path, u, hbody, hframes⟩ := hflies.leaves hlive hnumbered hraise
    obtain ⟨u', hrun⟩ := run_uncaught hasks hbody
    obtain ⟨_, _, -, -, -, rfl⟩ := exists_body_of_asks hasks
    have hsite : (w.framed (mainSite w id)).control.frames = [mainSite w id] := by
      show mainSite w id :: w.control.frames = _
      rw [hidle]
    rw [hsite] at hframes
    have hdescending : Descending (path ++ [mainSite w id]) := hframes ▸ hv.decreasing
    rw [Raised.leave_of_descending hdescending, ← hframes] at hrun
    refine ⟨⟨u', hrun⟩, ?_, hv.decreasing⟩
    rw [hframes, List.getLast?_concat]
    rfl

/-- The handler of a guarded call sees the frames of the function and of the unit. Without a
handler, the run ends with the frame of the unit. -/
theorem path_of_guardedCall :
    (∃ inner y serial,
      Asks (fun ev => Place.evalBy ev 5 (.node ⟨0, .guardedCall⟩ 0 17)) (eval 5) guarding.entered
        (.node ⟨0, .guardedCall⟩ 3 inner) y ∧
      y.control.scopes.get inner "e" = .ok (.exception serial "Error" "1" (.int 1)
        [⟨"f", 0, 1, some 1, 1⟩, ⟨mainName, 0, mainId, none, 0⟩])) ∧
    ∃ u, run 3 0 unguarding = some (.error (.uncaught (.exception 0 "Error" "1" (.int 1) [])
      [⟨mainName, 0, mainId, none, 0⟩]), u) := by
  constructor
  · obtain ⟨hcatch, -⟩ := exception_path_is_call_stack 7 0 reachable_guarding rfl guarding.raises
    obtain ⟨site, rest, path, inner, y, hsite, hpath, -, -, hasks, -, hbound⟩ :=
      hcatch 5 _ 0 17 _ (some "e") 1 3 guarding.comes (by cbv) (by cbv) (by cbv) guarding.flies
    cases hsite
    obtain ⟨serial, hget⟩ := hbound "e" rfl
    change guarding.inside.control.frames = path ++ [] at hpath
    rw [List.append_nil] at hpath
    rw [← hpath] at hget
    exact ⟨inner, y, serial, hasks, hget⟩
  · have hraises : Raises 2 (.node ⟨0, .unguarded⟩ 0 17)
        (unguarding.framed (mainSite unguarding 0)) (.exception 0 "Error" "1" (.int 1) []) :=
      ⟨_, by cbv⟩
    have hunit : unguarding.control.units[0]? = some ⟨.unguarded, 17⟩ := by cbv
    obtain ⟨-, huncaught⟩ := exception_path_is_call_stack 3 0 reachable_unguarding rfl hraises
    exact (huncaught _ _ (asks_body hunit (by cbv)) (.body (by cbv))).1

end GraphLang
