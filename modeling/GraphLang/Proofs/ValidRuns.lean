import GraphLang.Proofs.Observation
import GraphLang.Proofs.Program.Checks

/-!
# Runs of valid programs

A program that passes all checks is paired with itself. What can go wrong in its run is then what a
program can catch, and the limit on the call depth: no child, body, function, scope or unit is ever
missing, no loop is left where there is none, and no rule loses an error.
-/

namespace GraphLang

open Eval

namespace Program

variable {p : Program} {n c : Nat}

/-- The program beside itself. -/
def paired (p : Program) (h : p.Checked) : Pairing where
  first := p
  second := p
  loose := False
  nodes loop falls n n' := n' = n ∧ p.graph.hasNode n = true ∧
    (∃ b, p.Inside n b ∧ (b = true → loop)) ∧ ∀ o, p.op? n = some o → o.diverges = false → falls
  bodies root root' := root' = root ∧ p.graph.hasNode root = true ∧ p.Inside root false
  shared f := ∃ d, p.function? f = some d
  function := by
    rintro f ⟨d, hd⟩
    obtain ⟨root, hroot, hlive⟩ := h.body (FunctionTable.mem_of_get? hd)
    exact Or.inr ⟨d, d, hd, hd, rfl, rfl,
      Or.inr ⟨root, root, hroot, hroot, rfl, hlive, f, d, root, hd, hroot, .refl⟩⟩

section paired

variable {h : p.Checked} {module : ScopeId} {loop : Prop} {b : Bool}

/-- A child of a node in a body corresponds to itself. -/
theorem paired_child (hsound : p.graph.Sound) (hn : p.Inside n b) {o : Op} (ho : p.op? n = some o)
    {role : Role} (hc : (role, c) ∈ p.graph.ties n)
    (hloop : b = true ∨ (o.isLoop = true ∧ role = .body) → loop) :
    ((p.paired h).simulation module).nodes ⟨0, p⟩ ⟨0, p⟩ loop True c c := by
  refine ⟨rfl, rfl, rfl, (hsound.hasNode_of_mem_ties hc).2, ⟨_, hn.child ho hc, fun hb => ?_⟩,
    fun _ _ _ => trivial⟩
  rw [Bool.or_eq_true, Bool.and_eq_true, beq_iff_eq] at hb
  exact hloop hb

theorem paired_runs (hsound : p.graph.Sound) (hn : p.Inside n b) {o : Op} (ho : p.op? n = some o)
    (hloop : b = true → loop) (hblock : o.isLoop = false) :
    ((p.paired h).simulation module).Runs ⟨0, p⟩ ⟨0, p⟩ loop (p.indexed n (.statement 0))
      (p.indexed n (.statement 0)) := by
  have hall : ∀ cs : List (Role × Nat), (∀ t ∈ cs, t ∈ p.graph.ties n) →
      ((p.paired h).simulation module).Runs ⟨0, p⟩ ⟨0, p⟩ loop cs cs := by
    intro cs hcs
    induction cs with
    | nil => exact .nil
    | cons t cs ih =>
      refine .cons (paired_child hsound hn ho (hcs t List.mem_cons_self) ?_)
        (ih fun t' ht' => hcs t' (List.mem_cons_of_mem t ht'))
      rintro (hb | ⟨hl, -⟩)
      · exact hloop hb
      · rw [hblock] at hl
        cases hl
  exact hall _ fun t => mem_ties_of_indexed

/-- The children of a node in a body correspond to themselves. -/
theorem paired_shares (hsound : p.graph.Sound) (hn : p.Inside n b) {o : Op} (ho : p.op? n = some o)
    (hloop : b = true → loop) :
    ((p.paired h).simulation module).Shares ⟨0, p⟩ ⟨0, p⟩ loop n o where
  unit := rfl
  child := by
    intro role hrole
    cases hc : p.child? n role with
    | none => trivial
    | some c =>
      refine paired_child hsound hn ho (mem_ties_of_child? hc) ?_
      rintro (hb | ⟨-, hbody⟩)
      · exact hloop hb
      · exact absurd hbody hrole
  body := by
    cases hc : p.child? n .body with
    | none => trivial
    | some c =>
      refine paired_child hsound hn ho (mem_ties_of_child? hc) ?_
      rintro (hb | ⟨hl, -⟩)
      · exact Or.inl (hloop hb)
      · exact Or.inr hl
  required := by
    intro role hrole hnone
    obtain ⟨c, hc⟩ := h.required ho hrole
    obtain ⟨c', hc'⟩ := exists_child? hc
    rw [show p.child? n role = none from hnone] at hc'
    cases hc'
  family := by
    intro _ role hrole
    refine List.forall₂_same.2 fun t ht => ?_
    refine paired_child hsound hn ho (mem_ties_of_indexed ht) ?_
    rintro (hb | ⟨hl, -⟩)
    · exact hloop hb
    · cases o <;> simp [Op.isLoop, Op.shape] at hl hrole
  statements := by
    rintro rfl
    exact paired_runs hsound hn ho hloop rfl
  makes := by
    rintro f rfl
    exact ⟨rfl, rfl, h.registered ho⟩
  control := by
    intro hcontrol
    cases b with
    | true => exact hloop rfl
    | false =>
      have hkeyword := h.loops hn ho
      rcases hcontrol with rfl | rfl <;> cases hkeyword

/-- The evaluation of a program that passes all checks follows itself. -/
theorem paired_follows (hsound : p.graph.Sound) (fuel : Nat) :
    ((p.paired h).simulation module).Follows (eval fuel) (eval fuel) := by
  have hS := (p.paired h).lawful module
  induction fuel with
  | zero => exact ⟨fun _ _ _ => .of_none nofun, fun _ _ _ => .of_none nofun,
      fun _ _ _ _ => .of_none nofun⟩
  | succ fuel ih =>
    unfold eval
    refine ⟨?_, ?_, fun callNode hrel hf hargs => ih.callFunction hS hrel hf hargs callNode⟩
    · rintro _ _ loop falls n _ scope w w' ⟨rfl, rfl, rfl, hlive, ⟨b, hn, hloop⟩, hfalls⟩ hrel hscope
      obtain ⟨o, ho⟩ := exists_op? hlive
      exact ih.evalNode hS ⟨Nat.le_refl fuel, nofun⟩ ho ho (paired_shares hsound hn ho hloop)
        (hfalls o ho) hrel hscope
    · rintro _ _ root _ scope w w' ⟨rfl, rfl, rfl, hlive, hn⟩ hrel hscope
      refine ih.runBody hS ⟨rfl, fun hblock => ?_, fun _ => ?_⟩ hrel hscope
      · have hop : p.op? _ = some .block := Simulation.isBlock_iff.1 hblock
        exact paired_runs hsound hn hop nofun rfl
      · exact ⟨rfl, rfl, rfl, hlive, ⟨false, hn, nofun⟩, fun _ _ _ => trivial⟩

end paired

end Program

/-- A program that passes all checks and has a main function is loaded by a new evaluator, and if
its run ends, it ends with a value, with an exception that was not caught, or at the limit on the
call depth. -/
theorem valid_program_runs {p : Program} (hsound : p.graph.Sound) (hvalid : p.validate = .ok [])
    (hmain : (p.function? mainId).isSome = true) {config : Config}
    (hplain : config.optimize = false) (verbosity : Verbosity) (natives : String → HostNative) :
    ∃ w, load p (.evaluator config verbosity natives) = some (.ok 0, w) ∧
      ∀ fuel r v, run fuel 0 w = some (r, v) → (∃ x, r = .ok x) ∨
        (∃ x path, r = .error (.uncaught x path)) ∨
        ∃ limit path, r = .error (.recursionLimit limit path) := by
  have hchecked := Program.checked_of_validate hsound hvalid
  obtain ⟨events, hload⟩ := exists_load hvalid (sane_evaluator config verbosity natives).prelude
  have hprepared : prepared (World.evaluator config verbosity natives).control.config p = p := by
    unfold prepared
    exact if_neg (by simpa [World.evaluator, World.start, Session.new] using hplain)
  rw [hprepared] at hload
  refine ⟨_, hload, fun fuel r v hrun => ?_⟩
  have hdepth : config.maxCallDepth = config.maxCallDepth := rfl
  have hrel := (p.paired hchecked).related_new hdepth verbosity natives events events #[] #[]
  obtain ⟨-, hfails⟩ := Pairing.run_same hrel (Option.isSome_iff_exists.1 hmain)
    (Program.paired_follows hsound fuel) hrun
  cases r with
  | ok x => exact Or.inl ⟨x, rfl⟩
  | error e =>
    rcases hfails e rfl with hloose | ⟨limit, path, rfl⟩ | ⟨x, path, rfl⟩
    · exact hloose.elim
    · exact Or.inr (Or.inr ⟨limit, path, rfl⟩)
    · exact Or.inr (Or.inl ⟨x, path, rfl⟩)

/-- The program with a guarded call is loaded, and its run ends in one of the three ways. -/
theorem guardedCall_runs : Program.guardedCall.graph.Sound ∧ Program.guardedCall.validate = .ok [] ∧
    ∃ w, load Program.guardedCall (.evaluator .default .silent noNatives) = some (.ok 0, w) ∧
      ∀ fuel r v, run fuel 0 w = some (r, v) → (∃ x, r = .ok x) ∨
        (∃ x path, r = .error (.uncaught x path)) ∨
        ∃ limit path, r = .error (.recursionLimit limit path) :=
  ⟨Program.sound_guardedCall, Program.validate_guardedCall,
    valid_program_runs Program.sound_guardedCall Program.validate_guardedCall rfl rfl .silent
      noNatives⟩

end GraphLang
