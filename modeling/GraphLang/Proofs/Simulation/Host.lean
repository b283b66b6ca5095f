import GraphLang.Eval.Host
import GraphLang.Proofs.Simulation.Call

/-!
# What the host sees

Units run, and values called, by two evaluators of which one follows the other. An uncaught
exception ends the run of a unit.
-/

namespace GraphLang

namespace Simulation

variable {S : Simulation} {w w' : Machine} {ev ev' : Evaluator}

/-- What the run of a unit or a call of the host may fail with. -/
def ended (S : Simulation) : Failure EvalError where
  both e v v' := (S.Allows e ∨ ∃ x path, e = .uncaught x path) ∧ S.rel v v'
  lost := S.escape

/-- The failure of an evaluation ends a run. -/
theorem Matches.ended {α : Type} {good : α → Machine → Prop}
    {x y : Option (Except EvalError α × Machine)} (h : S.Matches S.fatal w good x y) :
    S.Matches S.ended w good x y := by
  refine ⟨fun r v hx => ?_, h.stuck⟩
  obtain ⟨hstep, hout⟩ := h.ends r v hx
  refine ⟨hstep, ?_⟩
  cases hout with
  | ok hrel hgood => exact .ok hrel hgood
  | error hboth => exact .error ⟨Or.inl hboth.1, hboth.2⟩
  | lost hlost => exact .lost hlost

theorem Matches.leaveUnit (hS : S.Lawful) (hrel : S.rel w w') (site : CallSite) {s : Signal}
    (hs : S.Gives S.loose True s w) :
    S.Matches S.ended w S.Yields (Eval.leaveUnit site s w) (Eval.leaveUnit site s w') := by
  cases s with
  | normal x => exact .ok hS hrel hs.1
  | returning x => exact .ok hS hrel hs.1
  | raised r =>
    refine .report_bind hS hrel fun v v' _ hrel => ?_
    exact .error hS ⟨Or.inr ⟨_, _, rfl⟩, hrel⟩
  | breaking => exact .error hS ⟨Or.inl (Or.inl hs.1), hrel⟩
  | continuing => exact .error hS ⟨Or.inl (Or.inl hs.1), hrel⟩

/-- Two units whose bodies come to the same signal give the same value to the host. -/
theorem Matches.runBy (hS : S.Lawful) (hrel : S.rel w w') {id : UnitId}
    {loaded loaded' : LoadedUnit} (hunit : w.control.units[id]? = some loaded)
    (hunit' : w'.control.units[id]? = some loaded') {root root' : Nat}
    (hroot : (loaded.program.function? mainId).bind (·.body) = some root)
    (hroot' : (loaded'.program.function? mainId).bind (·.body) = some root')
    (hframing : S.Framing w w' ⟨mainName, id, mainId, none, w.control.nextFrame⟩)
    (hbody : S.Matches S.fatal (w.framed ⟨mainName, id, mainId, none, w.control.nextFrame⟩)
      (S.Gives S.loose True)
      (ev.body ⟨id, loaded.program⟩ root loaded.scope
        (w.framed ⟨mainName, id, mainId, none, w.control.nextFrame⟩))
      (ev'.body ⟨id, loaded'.program⟩ root' loaded'.scope
        (w'.framed ⟨mainName, id, mainId, none, w.control.nextFrame⟩))) :
    S.Matches S.ended w S.Yields (Eval.runBy ev id w) (Eval.runBy ev' id w') := by
  unfold Eval.runBy
  have hunit : Eval.unit id w = some (.ok loaded, w) := by rw [Eval.run_unit, hunit]
  have hunit' : Eval.unit id w' = some (.ok loaded', w') := by rw [Eval.run_unit, hunit']
  refine .seq hS hunit hunit' (hS.step_refl w) ?_
  rw [hroot, hroot']
  refine .seq hS rfl rfl (hS.step_refl w) ?_
  rw [(hS.agree hrel).nextFrame]
  refine .bind hS (Matches.ended (.inFrame hframing (S.stable_gives S.loose True) hbody)) ?_
  intro s v v' _ hrel hs
  exact .leaveUnit hS hrel _ hs

theorem Follows.callBy (hS : S.Lawful) (hev : S.Follows ev ev') (hrel : S.rel w w')
    {callee : Value} {args : List Value} (hcallee : S.Fine w callee)
    (hargs : ∀ x ∈ args, S.Fine w x) :
    S.Matches S.ended w S.Yields (Eval.callBy ev callee args w) (Eval.callBy ev' callee args w') := by
  refine .bind hS (Matches.ended (hev.callValue hS hrel hcallee hargs none)) ?_
  intro s v v' _ hrel hs
  cases s with
  | normal x => exact .ok hS hrel hs
  | raised r => exact .error hS ⟨Or.inr ⟨_, _, rfl⟩, hrel⟩
  | _ => exact hs.elim

end Simulation

end GraphLang
