import GraphLang.Proofs.Balance

/-!
# The limit on the call depth

At every moment of a run of an idle evaluator at most as many calls are open as the limit says, the
run of the unit itself among them. A call at the limit ends the run at once: no handler, no
finalizer and no rule around it is asked any more.
-/

namespace GraphLang

open Eval

variable {w v : Machine}

/-- The call frames are within the limit, and the outermost one is that of the unit. -/
structure Bounded (limit : Nat) (site : CallSite) (config : Config) (frames : List CallSite) :
    Prop where
  /-- The limit is that of the evaluator. -/
  config : config.maxCallDepth = limit
  /-- The frame of the unit is always open. -/
  length : frames.length ≤ max 1 limit
  /-- The frame of the unit is the outermost one. -/
  main : frames.getLast? = some site

theorem grows_bounded (limit : Nat) (main : CallSite) : steady.Grows (Bounded limit main) := by
  intro config frames site h hroom
  refine ⟨h.config, ?_, ?_⟩
  · rw [h.config] at hroom
    rw [List.length_cons]
    omega
  · cases frames with
    | nil => cases h.main
    | cons site' frames =>
      rw [List.getLast?_cons_cons]
      exact h.main

/-- The frames of an idle evaluator that begins to run a unit. -/
theorem bounded_start (hidle : w.control.frames = []) (main : CallSite) :
    Bounded w.control.config.maxCallDepth main w.control.config (main :: w.control.frames) := by
  rw [hidle]
  exact ⟨rfl, Nat.le_max_left 1 _, rfl⟩

/-- A run that ends, ends in the same way with more fuel. -/
theorem run_of_le {fuel fuel' : Nat} {id : UnitId} {r : Except EvalError Value} (h : Sane w)
    (hfuel : fuel ≤ fuel') (hrun : run fuel id w = some (r, v)) : run fuel' id w = some (r, v) := by
  have hends : steady.Ends (fun _ _ => False) False w (run fuel id w) (run fuel' id w) :=
    steady.runBy_ends (steady.admits_never grows_any) (steady.follows_eval grows_any hfuel) h trivial
  exact (hends.sane hrun).2.2

/-- Throughout a run of a unit by an idle evaluator the call frames stay within the limit, and as
soon as a function is called at the limit, the run ends with the error of the limit: its path is
that of the open calls, innermost first, with the frame of the unit as the outermost one. From the
call on nothing happens but that scopes and calls are left. -/
theorem call_limit_ends_run (hw : Reachable w) (hidle : w.control.frames = []) {fuel : Nat}
    {id : UnitId} {p : Place} (hreach : Reaches (runBy · id) fuel w p v) :
    v.control.frames.length ≤ max 1 w.control.config.maxCallDepth ∧
    ∀ f args callNode, p = .call f args callNode →
      w.control.config.maxCallDepth ≤ v.control.frames.length →
      v.control.frames.length = max 1 w.control.config.maxCallDepth ∧
      v.control.frames.getLast? = some ⟨mainName, id, mainId, none, w.control.nextFrame⟩ ∧
      ∃ u, Unwound v u ∧ ∀ fuel', fuel ≤ fuel' → run fuel' id w =
        some (.error (.recursionLimit w.control.config.maxCallDepth v.control.frames), u) := by
  obtain ⟨e, u, hrun, -, hcut⟩ := steady.cut_of_reaches
    (grows_bounded w.control.config.maxCallDepth ⟨mainName, id, mainId, none, w.control.nextFrame⟩)
    (fun hadmits hev => steady.runBy_ends hadmits hev hw.sane (bounded_start hidle _)) hreach
  refine ⟨hcut.inv.length, ?_⟩
  rintro f args callNode rfl hlimit
  have hlength : v.control.frames.length = max 1 w.control.config.maxCallDepth := by
    have hpos : 0 < v.control.frames.length := by
      rw [List.length_pos_iff]
      intro hnil
      have hmain := hcut.inv.main
      rw [hnil] at hmain
      cases hmain
    have hbound := hcut.inv.length
    omega
  refine ⟨hlength, hcut.inv.main, u, hcut.unwound, fun fuel' hfuel => ?_⟩
  have hfull : v.control.config.maxCallDepth ≤ v.control.frames.length := by
    rwa [hcut.inv.config]
  have heval : evalUntil (moment (.call f args callNode) v) exceed fuel = eval fuel :=
    evalUntil_call (fun ev => callFunction_of_limit hfull ev f args callNode) fuel
  rw [heval, hcut.error, hcut.inv.config] at hrun
  exact run_of_le hw.sane hfuel hrun

/-! ### A call at the limit in a guarded body -/

/-- A frame is left again however the action in it ends. -/
theorem run_inFrame {α : Type} (site : CallSite) (action : Eval α) (w : Machine) :
    inFrame site action w = (action (w.framed site)).map fun p => (p.1, p.2.unframed) := by
  unfold inFrame
  rw [Act.run_bind, run_modifySession]
  change (Act.attempt action >>= _) (w.framed site) = _
  rw [Act.run_bind, Act.run_attempt]
  cases action (w.framed site) with
  | none => rfl
  | some p =>
    obtain ⟨r, v⟩ := p
    cases r <;> rfl

/-- Of the steps that are taken around the body of a unit, none runs out of fuel. -/
theorem runBy_eq_none_iff {ev : Evaluator} {id : UnitId} {loaded : LoadedUnit} {root : Nat}
    (hunit : w.control.units[id]? = some loaded)
    (hroot : (loaded.program.function? mainId).bind (·.body) = some root) :
    runBy ev id w = none ↔ ev.body ⟨id, loaded.program⟩ root loaded.scope
      (w.framed ⟨mainName, id, mainId, none, w.control.nextFrame⟩) = none := by
  have hrun : runBy ev id w =
      (inFrame ⟨mainName, id, mainId, none, w.control.nextFrame⟩
        (ev.body ⟨id, loaded.program⟩ root loaded.scope) >>=
          leaveUnit ⟨mainName, id, mainId, none, w.control.nextFrame⟩) w := by
    unfold runBy
    rw [Act.run_bind, run_unit, hunit]
    dsimp only
    rw [hroot]
    rfl
  rw [hrun, Act.run_bind, run_inFrame]
  cases ev.body ⟨id, loaded.program⟩ root loaded.scope (w.framed _) with
  | none => exact ⟨fun _ => rfl, fun _ => rfl⟩
  | some p =>
    obtain ⟨r, v⟩ := p
    cases r with
    | error e => exact iff_of_false (Option.some_ne_none _) (Option.some_ne_none _)
    | ok s => cases s <;> exact iff_of_false (Option.some_ne_none _) (Option.some_ne_none _)

/-- An evaluator that allows one open call, with the program of a guarded call loaded. -/
def narrow : Machine :=
  (World.evaluator ⟨false, 1, false⟩ .silent noNatives).withUnit .guardedCall

/-- The closure that the program calls. -/
def guardedCallee : FunctionValue := ⟨0, 1, 18, "f", 0⟩

/-- The world in which it is called: the unit is run, and the closure was made. -/
def atCall : Machine :=
  let w := narrow.framed ⟨mainName, 0, mainId, none, 0⟩
  w.withScopes (w.control.scopes.createClosure 17 "f" []).2

theorem evalUntil_node {stop : Place → Machine → Prop} {answer : Place → Eval Signal}
    (h : ∀ code n scope w, ¬stop (.node code n scope) w) (fuel : Nat) (code : Code) (n : Nat)
    (scope : ScopeId) (w : Machine) :
    (evalUntil stop answer (fuel + 1)).node code n scope w =
      node (evalUntil stop answer fuel) fuel code n scope w := if_neg (h code n scope w)

/-- The run comes to the call, and ends there if the call does not give a signal. -/
theorem runBy_narrow {stop : Place → Machine → Prop} {answer : Place → Eval Signal}
    (hnode : ∀ code n scope w, ¬stop (.node code n scope) w)
    (hbody : ∀ code n scope w, ¬stop (.body code n scope) w)
    {r : Option (Except EvalError Signal × Machine)} (hr : ∀ s v, r ≠ some (.ok s, v))
    (hcall : (evalUntil stop answer 1).call guardedCallee [] (some 1) atCall = r) :
    runBy (evalUntil stop answer 4) 0 narrow = none ↔ r = none := by
  have hclosure : (evalUntil stop answer 1).node ⟨0, .guardedCall⟩ 2 17
      (narrow.framed ⟨mainName, 0, mainId, none, 0⟩) =
        some (.ok (.normal (.function guardedCallee)), atCall) := by
    rw [evalUntil_node hnode]
    cbv
  have hcallee : Step.role (evalUntil stop answer 1) ⟨0, .guardedCall⟩ 1 .callee 17
      (narrow.framed ⟨mainName, 0, mainId, none, 0⟩) =
        some (.ok (.ok (.function guardedCallee)), atCall) := by
    have hchild : Step.child ⟨0, .guardedCall⟩ 1 .callee = pure 2 := by cbv
    unfold Step.role
    rw [hchild, pure_bind]
    unfold Step.node
    rw [Step.run_bind, Step.run_lift, hclosure]
    rfl
  have hop : Step.op (evalUntil stop answer 1) 1 ⟨0, .guardedCall⟩ 1 17 .call
      (narrow.framed ⟨mainName, 0, mainId, none, 0⟩) =
        (Step.lift (fun _ => r) >>= Step.ofSignal) atCall := by
    have hargs : Step.family (evalUntil stop answer 1) ⟨0, .guardedCall⟩ 1 (.argument 0) 17 =
        pure [] := by cbv
    change (Step.role (evalUntil stop answer 1) ⟨0, .guardedCall⟩ 1 .callee 17 >>= fun callee =>
      Step.family (evalUntil stop answer 1) ⟨0, .guardedCall⟩ 1 (.argument 0) 17 >>= fun args =>
        Step.call (evalUntil stop answer 1) callee args 1) _ = _
    rw [Step.run_bind, hcallee]
    dsimp only
    rw [hargs, pure_bind, ← hcall]
    rfl
  have hguarded : (evalUntil stop answer 2).node ⟨0, .guardedCall⟩ 1 17
      (narrow.framed ⟨mainName, 0, mainId, none, 0⟩) = r := by
    rw [evalUntil_node hnode]
    change (Step.toSignal (Step.op (evalUntil stop answer 1) 1 ⟨0, .guardedCall⟩ 1 17 .call) >>=
      fun s => record ⟨0, .guardedCall⟩ 1 .call s >>= fun _ => pure s)
        (narrow.framed ⟨mainName, 0, mainId, none, 0⟩) = r
    unfold Step.toSignal
    rw [Act.run_bind, Act.run_bind, ExceptT.run, hop, Step.run_bind, Step.run_lift]
    obtain _ | ⟨e | s, v⟩ := r
    · rfl
    · rfl
    · exact absurd rfl (hr s v)
  have hunit : narrow.control.units[0]? = some ⟨.guardedCall, 17⟩ := by cbv
  have hroot : (Program.guardedCall.function? mainId).bind (·.body) = some 0 := by cbv
  rw [runBy_eq_none_iff hunit hroot]
  have hstart : (evalUntil stop answer 4).body ⟨0, .guardedCall⟩ 0 17
      (narrow.framed ⟨mainName, 0, mainId, none, 0⟩) =
        body (evalUntil stop answer 3) ⟨0, .guardedCall⟩ 0 17
          (narrow.framed ⟨mainName, 0, mainId, none, 0⟩) := if_neg (hbody _ _ _ _)
  change (evalUntil stop answer 4).body ⟨0, .guardedCall⟩ 0 17
    (narrow.framed ⟨mainName, 0, mainId, none, 0⟩) = none ↔ _
  rw [hstart]
  change (evalUntil stop answer 3).node ⟨0, .guardedCall⟩ 0 17
    (narrow.framed ⟨mainName, 0, mainId, none, 0⟩) = none ↔ _
  rw [evalUntil_node hnode]
  have hchild : Step.child ⟨0, .guardedCall⟩ 0 .body = pure 1 := by cbv
  change (Step.toSignal (Step.guarded (evalUntil stop answer 2) ⟨0, .guardedCall⟩ 0 (some "e") 17)
    >>= fun s => record ⟨0, .guardedCall⟩ 0 (.guarded (some "e")) s >>= fun _ => pure s)
      (narrow.framed ⟨mainName, 0, mainId, none, 0⟩) = none ↔ _
  unfold Step.toSignal Step.guarded
  rw [hchild, pure_bind, Act.run_bind, Act.run_bind, ExceptT.run, Step.run_bind, Step.run_lift,
    hguarded]
  obtain _ | ⟨e | s, v⟩ := r
  · exact ⟨fun _ => rfl, fun _ => rfl⟩
  · exact iff_of_false (Option.some_ne_none _) (Option.some_ne_none _)
  · exact absurd rfl (hr s v)

theorem reaches_atCall :
    Reaches (runBy · 0) 4 narrow (.call guardedCallee [] (some 1)) atCall := by
  have hnode : ∀ code n scope w,
      ¬moment (.call guardedCallee [] (some 1)) atCall (.node code n scope) w :=
    by rintro _ _ _ _ ⟨h, -⟩; cases h
  have hbody : ∀ code n scope w,
      ¬moment (.call guardedCallee [] (some 1)) atCall (.body code n scope) w :=
    by rintro _ _ _ _ ⟨h, -⟩; cases h
  have hcall (answer : Place → Eval Signal) :
      (evalUntil (moment (.call guardedCallee [] (some 1)) atCall) answer 1).call guardedCallee []
        (some 1) atCall = answer (.call guardedCallee [] (some 1)) atCall := if_pos ⟨rfl, rfl⟩
  refine ⟨⟨(.error (.unknownUnit 0), atCall), fun hnone => ?_⟩, ?_⟩
  · cases (runBy_narrow hnode hbody (by rintro s v ⟨⟩) (hcall _)).1 hnone
  · exact (runBy_narrow hnode hbody (by rintro s v ⟨⟩) (hcall _)).2 rfl

theorem reachable_narrow : Reachable narrow := by
  have hload : load .guardedCall (.evaluator ⟨false, 1, false⟩ .silent noNatives) =
      some (.ok 0, narrow) := by
    unfold load
    rw [Program.validate_guardedCall]
    rfl
  exact .load (.new _ _ _) hload

/-- Where one open call is allowed, the call in the guarded body ends the run, and the handler is
not asked. -/
theorem guardedCall_exceeds : narrow.control.frames = [] ∧
    atCall.control.frames.length = max 1 narrow.control.config.maxCallDepth ∧
    ∃ u, Unwound atCall u ∧ ∀ fuel, 4 ≤ fuel → run fuel 0 narrow =
      some (.error (.recursionLimit 1 [⟨mainName, 0, mainId, none, 0⟩]), u) := by
  obtain ⟨-, hlimit⟩ := call_limit_ends_run reachable_narrow rfl reaches_atCall
  obtain ⟨hlength, -, hends⟩ := hlimit _ _ _ rfl (Nat.le_refl 1)
  exact ⟨rfl, hlength, hends⟩

end GraphLang
