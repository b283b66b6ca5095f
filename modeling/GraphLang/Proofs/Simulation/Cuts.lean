import GraphLang.Proofs.Simulation.Moments

/-!
# Cutting evaluations off

An evaluation that is cut off at a moment it comes to does nothing more than leave the scopes and
call frames that are open: no node is evaluated any more, whatever handlers and rules there are
around that moment.
-/

namespace GraphLang

open Eval

variable {inv : Config → List CallSite → Prop} {u v w : Machine}

/-- Nothing happened from the first world to the second one but that scopes and calls were left, and
rules reported that they gave up. -/
structure Unwound (v u : Machine) : Prop where
  /-- No container was changed. -/
  store : u.store = v.store
  /-- No line was written. -/
  output : u.output = v.output
  /-- No ruleset was defined. -/
  rulesets : u.control.rulesets = v.control.rulesets
  /-- No call was made. -/
  nextFrame : u.control.nextFrame = v.control.nextFrame
  /-- No node was recorded. -/
  trace : u.control.trace = v.control.trace
  /-- No variable was defined or written: scopes were left only. -/
  scopes : ∃ left : List ScopeId,
    u.control.scopes = left.foldl (fun s scope => (s.pop scope).2) v.control.scopes
  /-- Only the limit and the rules that gave up were reported. -/
  events : ∃ new : List Event, u.events.toList = v.events.toList ++ new ∧
    ∀ e ∈ new, e.message = "call depth limit exceeded" ∨ e.message = "mutation rejected"

namespace Unwound

theorem refl (v : Machine) : Unwound v v :=
  ⟨rfl, rfl, rfl, rfl, rfl, ⟨[], rfl⟩, ⟨[], by simp, by simp⟩⟩

theorem left (h : Unwound v u) (scope : ScopeId) : Unwound v (u.left scope) := by
  obtain ⟨scopes, hscopes⟩ := h.scopes
  refine ⟨h.store, h.output, h.rulesets, h.nextFrame, h.trace, ⟨scopes ++ [scope], ?_⟩, h.events⟩
  rw [List.foldl_append, ← hscopes]
  rfl

theorem noted (h : Unwound v u) {message : String}
    (hmessage : message = "call depth limit exceeded" ∨ message = "mutation rejected")
    (level : Level) (target : String) (fields : Store → List (String × String)) :
    Unwound v (u.noted level target message fields) := by
  unfold World.noted
  split
  · obtain ⟨new, hnew, hnone⟩ := h.events
    refine ⟨h.store, h.output, h.rulesets, h.nextFrame, h.trace, h.scopes,
      ⟨new ++ [⟨level, target, message, fields u.store⟩], ?_, ?_⟩⟩
    · simp [hnew]
    · intro e he
      rcases List.mem_append.1 he with he | he
      · exact hnone e he
      · rw [List.mem_singleton.1 he]
        exact hmessage
  · exact h

end Unwound

/-- An evaluation was cut off in the world `v`, where the invariant holds. -/
structure Cut (inv : Config → List CallSite → Prop) (v : Machine) (e : EvalError) (u : Machine) :
    Prop where
  /-- The evaluator was between two steps. -/
  sane : Sane v
  /-- The invariant holds where the evaluation was cut off. -/
  inv : inv v.control.config v.control.frames
  /-- The error has the calls that were open. -/
  error : e = .recursionLimit v.control.config.maxCallDepth v.control.frames
  /-- Nothing else happened. -/
  unwound : Unwound v u
  /-- No error is kept aside. -/
  settled : u.control.pendingFatal = none

namespace steady

/-- Calls may be opened below the limit. -/
def Grows (inv : Config → List CallSite → Prop) : Prop :=
  ∀ config frames site, inv config frames → frames.length < config.maxCallDepth →
    inv config (site :: frames)

theorem admits_cut (h : Grows inv) (v : Machine) : Admits inv (Cut inv v) where
  frame := h _ _
  settled he := he.settled
  left scope he := ⟨he.sane, he.inv, he.error, he.unwound.left scope, he.settled⟩
  unframed he := by
    obtain ⟨hsane, hinv, herror, hu, hsettled⟩ := he
    exact ⟨hsane, hinv, herror, ⟨hu.store, hu.output, hu.rulesets, hu.nextFrame, hu.trace,
      hu.scopes, hu.events⟩, hsettled⟩
  rejected fields he :=
    ⟨he.sane, he.inv, he.error, he.unwound.noted (Or.inr rfl) _ _ fields, by
      rw [World.noted_control]
      exact he.settled⟩

theorem escapes_exceed (p : Place) (v : Machine) :
    Escapes inv (Cut inv v) (moment p v) exceed := by
  rintro p' v' ⟨rfl, rfl⟩ hsane hinv
  refine ⟨_, _, run_exceed p' v', ?_, hsane, hinv, rfl, ?_, ?_⟩
  · obtain ⟨events, hquiet⟩ := v'.noted_eq_quiet .debug target "call depth limit exceeded" fun _ =>
      [("limit", toString v'.control.config.maxCallDepth), ("function", p'.callee)]
    rw [hquiet]
    exact ⟨rfl, fun _ => rfl, id, rfl, rfl, rfl⟩
  · exact (Unwound.refl v').noted (Or.inl rfl) _ _ _
  · rw [World.noted_control]
    exact hsane.settled

/-- An action that comes to a moment can be cut off there, and then ends. -/
theorem cut_of_reaches {α : Type} {action : Evaluator → Eval α} {fuel : Nat} {p : Place}
    (h : Grows inv)
    (haction : ∀ {escape ev ev'}, Admits inv escape → (steady inv escape True).Follows ev ev' →
      Ends escape True w (action ev w) (action ev' w))
    (hreach : Reaches action fuel w p v) :
    ∃ e u, action (evalUntil (moment p v) exceed fuel) w = some (.error e, u) ∧
      Balance w u ∧ Cut inv v e u := by
  have hadmits := admits_cut h v
  have hfollows (answer : Place → Eval Signal) := haction hadmits
    (follows hadmits (escapes_exceed p v) answer ⟨Nat.le_refl fuel, fun _ => rfl⟩)
  obtain ⟨⟨answer, hanswer⟩, hnone⟩ := hreach
  -- With the given answer the action ends, so it ends when it is cut off.
  have hends : action (evalUntil (moment p v) exceed fuel) w ≠ none :=
    fun hstuck => hanswer ((hfollows fun _ _ => some answer).stuck trivial hstuck)
  obtain ⟨⟨r, u⟩, hrun⟩ := Option.ne_none_iff_exists'.1 hends
  obtain ⟨hbalance, ⟨-, hsame⟩ | ⟨e, rfl, hcut⟩⟩ := (hfollows fun _ => Act.outOfFuel).ends r u hrun
  · rw [hnone] at hsame
    cases hsame
  · exact ⟨e, u, hrun, hbalance, hcut⟩

/-! ### Runs and calls of the host -/

theorem runBy_ends {escape : EvalError → Machine → Prop} {lockstep : Prop} {ev ev' : Evaluator}
    {id : UnitId}
    (h : Admits inv escape) (hev : (steady inv escape lockstep).Follows ev ev') (hsane : Sane w)
    (hinv : inv w.control.config
      (⟨mainName, id, mainId, none, w.control.nextFrame⟩ :: w.control.frames)) :
    Ends escape lockstep w (runBy ev id w) (runBy ev' id w) := by
  have hS₀ : Admits (fun _ _ => True) escape :=
    ⟨fun _ _ _ => trivial, h.settled, h.left, h.unframed, h.rejected⟩
  have hS : (steady (fun _ _ => True) escape lockstep).Lawful := lawful hS₀
  have hrel : (steady (fun _ _ => True) escape lockstep).rel w w := ⟨rfl, hsane, trivial⟩
  suffices hmatches : (steady (fun _ _ => True) escape lockstep).Matches
      (steady (fun _ _ => True) escape lockstep).ended w (fun _ _ => True) (runBy ev id w)
      (runBy ev' id w) from
    ends_of_matches (Or.inr rfl) hmatches
  cases hunit : w.control.units[id]? with
  | none =>
    unfold runBy
    rw [Act.run_bind, Act.run_bind, run_unit, hunit]
    exact .error hS ⟨Or.inl (Or.inl trivial), hrel⟩
  | some loaded =>
    cases hroot : (loaded.program.function? mainId).bind (·.body) with
    | none =>
      unfold runBy
      rw [Act.run_bind, Act.run_bind, run_unit, hunit]
      dsimp only
      rw [hroot]
      exact .error hS ⟨Or.inl (Or.inl trivial), hrel⟩
    | some root =>
      have hscope := hsane.units loaded (Array.mem_of_getElem? hunit)
      refine (Simulation.Matches.runBy hS hrel hunit hunit hroot hroot
        (framing hS₀ rfl hsane trivial trivial) ?_).weaken fun _ _ _ _ => trivial
      refine matches_of_ends trivial trivial ?_
      exact ends_of_matches (Or.inl rfl) (hev.body ⟨rfl, rfl⟩
        ⟨rfl, ⟨hsane.tidy, hsane.settled, hsane.prelude, hsane.units⟩, hinv⟩ hscope)

theorem callBy_ends {escape : EvalError → Machine → Prop} {lockstep : Prop} {ev ev' : Evaluator}
    {callee : Value} {args : List Value} (h : Admits (fun _ _ => True) escape)
    (hev : (steady (fun _ _ => True) escape lockstep).Follows ev ev') (hsane : Sane w) :
    Ends escape lockstep w (callBy ev callee args w) (callBy ev' callee args w) :=
  ends_of_matches (Or.inr rfl)
    (hev.callBy (lawful h) ⟨rfl, hsane, trivial⟩ callee.holds_true fun x _ => x.holds_true)

theorem admits_never (h : Grows inv) : Admits inv fun _ _ => False :=
  ⟨h _ _, False.elim, fun _ => False.elim, False.elim, fun _ => False.elim⟩

/-- An evaluator with more fuel follows one with less. -/
theorem follows_eval (h : Grows inv) {fuel fuel' : Nat} (hfuel : fuel ≤ fuel') :
    (steady inv (fun _ _ => False) False).Follows (eval fuel) (eval fuel') := by
  rw [← evalUntil_never exceed fuel, ← evalUntil_never exceed fuel']
  exact follows (admits_never h) (fun _ _ hstop => hstop.elim) exceed ⟨hfuel, False.elim⟩

/-- An action that cannot escape leaves the evaluator between two steps. -/
theorem Ends.sane {α : Type} {x y : Option (Except EvalError α × Machine)} {r : Except EvalError α}
    {lockstep : Prop} (h : Ends (fun _ _ => False) lockstep w x y) (hx : x = some (r, v)) :
    Balance w v ∧ Sane v ∧ y = some (r, v) := by
  obtain ⟨hbalance, hout | ⟨-, -, hfalse⟩⟩ := h.ends r v hx
  · exact ⟨hbalance, hout⟩
  · exact hfalse.elim

end steady

end GraphLang
