import GraphLang.Proofs.Simulation.Steady

/-!
# Loading units

What loading a unit does to the world, and the world of a new evaluator.
-/

namespace GraphLang

/-- The procedures of a host that has none. -/
def noNatives : String → HostNative := fun _ _ s => (.ok .nil, s)

namespace World

/-- The world with one more unit, in a new scope inside the prelude. -/
def withUnit (w : Machine) (p : Program) : Machine :=
  { w with control := { w.control with
      scopes := ⟨Scopes.withScope w.control.scopes.graph w.control.prelude .module,
        w.control.scopes.declared⟩
      units := w.control.units.push
        ⟨p, (w.control.scopes.graph.addNode (.scope .module true)).1⟩ } }

end World

namespace Eval

variable {w : Machine} {p : Program}

theorem exists_relay (events : List Event) (w : Machine) :
    ∃ kept, events.forM relay w = some (.ok (), w.quiet kept w.control.trace) := by
  induction events generalizing w with
  | nil => exact ⟨w.events, rfl⟩
  | cons e events ih =>
    change ∃ kept, (relay e >>= fun _ => events.forM relay) w = _
    rw [Act.run_bind]
    obtain ⟨kept, hkept⟩ := w.noted_eq_quiet e.level e.target e.message fun _ => e.fields
    have hrelay : relay e w = some (.ok (), w.quiet kept w.control.trace) := by
      rw [← hkept]
      rfl
    rw [hrelay]
    exact ih (w.quiet kept w.control.trace)

/-- The program that is run in place of another one. -/
def prepared (config : Config) (p : Program) : Program :=
  if config.optimize then p.optimize.2.1 else p

theorem exists_prepare (p : Program) (w : Machine) :
    ∃ kept, prepare p w = some (.ok (prepared w.control.config p), w.quiet kept w.control.trace) := by
  unfold prepare prepared
  rw [Act.run_bind, run_session]
  dsimp only
  by_cases hoptimize : w.control.config.optimize = true
  · rw [if_pos hoptimize, if_pos hoptimize, Act.run_bind]
    obtain ⟨kept, hkept⟩ := exists_relay p.optimize.2.2 w
    rw [hkept]
    dsimp only
    rw [Act.run_bind, run_report]
    obtain ⟨kept', hkept'⟩ := (w.quiet kept w.control.trace).noted_eq_quiet .debug target
      "unit optimized" fun _ =>
        [("unit", p.optimize.2.1.name), ("report", p.optimize.1.diagnostic)]
    exact ⟨kept', by rw [hkept']; rfl⟩
  · rw [if_neg hoptimize, if_neg hoptimize]
    exact ⟨w.events, rfl⟩

/-- A program that passes all checks is loaded as the next unit. -/
theorem exists_load (hvalid : p.validate = .ok [])
    (hprelude : w.control.scopes.isScope w.control.prelude = true) :
    ∃ kept, load p w = some (.ok w.control.units.size,
      (w.withUnit (prepared w.control.config p)).quiet kept w.control.trace) := by
  unfold load
  rw [hvalid]
  obtain ⟨kept, hkept⟩ := exists_prepare p w
  dsimp only
  rw [Act.run_bind, hkept]
  dsimp only
  rw [Act.run_bind, run_session]
  dsimp only
  rw [Act.run_bind, run_pushScope]
  have hscope : (w.quiet kept w.control.trace).control.scopes.isScope
      (w.quiet kept w.control.trace).control.prelude = true := hprelude
  rw [Scopes.push_of_isScope hscope .module]
  dsimp only [Except.mapError]
  rw [Act.run_bind, run_session]
  dsimp only
  rw [Act.run_bind, run_modifySession]
  dsimp only
  rw [Act.run_bind, run_report]
  obtain ⟨kept', hkept'⟩ := ((w.withUnit (prepared w.control.config p)).quiet kept
    w.control.trace).noted_eq_quiet .debug target "unit loaded" fun _ =>
      [("unit", toString w.control.units.size), ("name", (prepared w.control.config p).name)]
  refine ⟨kept', ?_⟩
  have hworld : ((w.withUnit (prepared w.control.config p)).quiet kept w.control.trace).noted .debug
      target "unit loaded" (fun _ =>
        [("unit", toString w.control.units.size), ("name", (prepared w.control.config p).name)]) =
      (w.withUnit (prepared w.control.config p)).quiet kept' w.control.trace := hkept'
  exact congrArg (fun v => some (Except.ok w.control.units.size, v)) hworld

/-- A program that fails a check is not loaded. -/
theorem exists_load_invalid {e : ConstructionError} {errors : List ConstructionError}
    (hvalid : p.validate = .ok (e :: errors)) :
    ∃ kept, load p w = some (.error (.construction (e :: errors)),
      w.quiet kept w.control.trace) := by
  unfold load
  rw [hvalid]
  obtain ⟨kept, hkept⟩ := w.noted_eq_quiet (p.rejection (e :: errors)).level
    (p.rejection (e :: errors)).target (p.rejection (e :: errors)).message
    fun _ => (p.rejection (e :: errors)).fields
  refine ⟨kept, ?_⟩
  dsimp only
  rw [Act.run_bind]
  rw [← hkept]
  rfl

end Eval

/-! ### Sane worlds -/

theorem Scopes.node?_empty (n : Nat) : Scopes.empty.graph.node? n = none := by
  simp [Scopes.empty, SlotGraph.empty, SlotGraph.node?_eq]

theorem Scopes.ties_empty (n : Nat) : Scopes.empty.graph.ties n = [] :=
  SlotGraph.ties_of_vacant (node?_empty n)

theorem Scopes.tidy_empty : Scopes.empty.Tidy where
  sound := SlotGraph.sound_empty
  bound := by
    intro n t hmem
    rw [ties_empty] at hmem
    cases hmem
  declared := by
    intro scope name var hvar
    simp [Scopes.empty] at hvar

/-- The natives are declared in the prelude. -/
theorem Scopes.keeps_natives {s : Scopes} (h : s.Tidy) {prelude : ScopeId}
    (hprelude : s.isScope prelude = true) (natives : List Native) :
    Keeps s (natives.foldl (fun s n => (s.declare prelude n.name (.native n) false).2) s) := by
  induction natives generalizing s with
  | nil => exact .refl h
  | cons n natives ih =>
    have hdeclare := Keeps.declare h hprelude n.name (.native n) false
    exact hdeclare.trans (ih hdeclare.tidy (hdeclare.isScope hprelude))

theorem sane_evaluator (config : Config) (verbosity : Verbosity) (natives : String → HostNative) :
    Sane (World.evaluator config verbosity natives) := by
  have hroot := Scopes.Opens.addNode Scopes.tidy_empty .prelude
  have hkeeps := Scopes.keeps_natives hroot.tidy hroot.opened Native.prelude
  refine ⟨hkeeps.tidy, rfl, hkeeps.isScope hroot.opened, ?_⟩
  intro loaded hloaded
  exact absurd hloaded (Array.not_mem_empty loaded)

theorem Sane.quiet {w : Machine} (h : Sane w) (events : Array Event) (trace : Array TraceEntry) :
    Sane (w.quiet events trace) :=
  ⟨h.tidy, h.settled, h.prelude, h.units⟩

theorem Sane.withUnit {w : Machine} (h : Sane w) (p : Program) : Sane (w.withUnit p) := by
  have hopens := Scopes.Opens.withScope h.tidy h.prelude .module
  refine ⟨hopens.tidy, h.settled, hopens.isScope h.prelude, fun loaded hloaded => ?_⟩
  rcases Array.mem_push.1 hloaded with hloaded | rfl
  · exact hopens.isScope (h.units loaded hloaded)
  · exact hopens.opened

theorem Sane.load {w v : Machine} {p : Program} {r : Except EvalError UnitId} (h : Sane w)
    (hload : Eval.load p w = some (r, v)) : Sane v := by
  cases hvalid : p.validate with
  | error n =>
    unfold Eval.load at hload
    rw [hvalid] at hload
    cases hload
  | ok errors =>
    cases errors with
    | nil =>
      obtain ⟨kept, hkept⟩ := Eval.exists_load hvalid h.prelude
      rw [hkept] at hload
      cases hload
      exact (h.withUnit _).quiet kept _
    | cons e errors =>
      obtain ⟨kept, hkept⟩ := @Eval.exists_load_invalid w p e errors hvalid
      rw [hkept] at hload
      cases hload
      exact h.quiet kept _

end GraphLang
