import GraphLang.Proofs.Simulation.Host
import GraphLang.Proofs.Simulation.Steady
import Mathlib.Data.List.Forall2

/-!
# The moments of an evaluation

An evaluation comes to nodes, bodies and calls, each in some world. That it comes to such a moment
shows in that what it comes to in the end depends on an answer there. Whatever the evaluator keeps
true between steps is true at every moment that it comes to.
-/

namespace GraphLang

namespace Eval

/-- A place that an evaluation can come to. -/
inductive Place where
  /-- A node is to be evaluated in a scope. -/
  | node (code : Code) (n : Nat) (scope : ScopeId)
  /-- A body is to be evaluated in a scope. -/
  | body (code : Code) (root : Nat) (scope : ScopeId)
  /-- A function is called. -/
  | call (f : FunctionValue) (args : List Value) (callNode : Option Nat)

/-- The function that is called at the place. -/
def Place.callee : Place → String
  | .call f _ _ => f.name
  | _ => ""

open Classical in
/-- Evaluates as usual, but gives `answer` at the moments of `stop`. -/
noncomputable def evalUntil (stop : Place → Machine → Prop) (answer : Place → Eval Signal) :
    Nat → Evaluator
  | 0 => eval 0
  | fuel + 1 =>
    let ev := evalUntil stop answer fuel
    ⟨fun code n scope w =>
        if stop (.node code n scope) w then answer (.node code n scope) w
        else node ev fuel code n scope w,
      fun code root scope w =>
        if stop (.body code root scope) w then answer (.body code root scope) w
        else body ev code root scope w,
      fun f args callNode w =>
        if stop (.call f args callNode) w then answer (.call f args callNode) w
        else callFunction ev f args callNode w⟩

/-- Fails as where too many calls are open. -/
def exceed (p : Place) : Eval Signal := do
  let st ← session
  report .debug "call depth limit exceeded" fun _ =>
    [("limit", toString st.config.maxCallDepth), ("function", p.callee)]
  throw (.recursionLimit st.config.maxCallDepth st.frames)

/-- The moment of a place and a world. -/
def moment (p : Place) (v : Machine) (p' : Place) (v' : Machine) : Prop := p' = p ∧ v' = v

/-- The action comes to the place in the world `v`: with some answer there it ends, and without one
it does not. -/
def Reaches {α : Type} (action : Evaluator → Eval α) (fuel : Nat) (w : Machine) (p : Place)
    (v : Machine) : Prop :=
  (∃ answer, action (evalUntil (moment p v) (fun _ _ => some answer) fuel) w ≠ none) ∧
    action (evalUntil (moment p v) (fun _ => Act.outOfFuel) fuel) w = none

/-- Without a moment to stop at, evaluation is as usual. -/
theorem evalUntil_never (answer : Place → Eval Signal) (fuel : Nat) :
    evalUntil (fun _ _ => False) answer fuel = eval fuel := by
  induction fuel with
  | zero => rfl
  | succ fuel ih =>
    unfold evalUntil
    simp only [ih, if_false]
    rfl

/-- An answer that is the usual one changes nothing. -/
theorem evalUntil_call {f : FunctionValue} {args : List Value} {callNode : Option Nat} {v : Machine}
    {answer : Place → Eval Signal}
    (h : ∀ ev, callFunction ev f args callNode v = answer (.call f args callNode) v) (fuel : Nat) :
    evalUntil (moment (.call f args callNode) v) answer fuel = eval fuel := by
  induction fuel with
  | zero => rfl
  | succ fuel ih =>
    unfold evalUntil eval
    simp only [ih]
    congr 1
    · funext code n scope w
      rw [if_neg (by rintro ⟨hplace, -⟩; cases hplace)]
    · funext code root scope w
      rw [if_neg (by rintro ⟨hplace, -⟩; cases hplace)]
    · funext f' args' callNode' w
      by_cases hstop : moment (.call f args callNode) v (.call f' args' callNode') w
      · rw [if_pos hstop]
        obtain ⟨hplace, rfl⟩ := hstop
        cases hplace
        exact (h _).symm
      · rw [if_neg hstop]

theorem run_exceed (p : Place) (w : Machine) :
    exceed p w =
      some (.error (.recursionLimit w.control.config.maxCallDepth w.control.frames),
        w.noted .debug target "call depth limit exceeded" fun _ =>
          [("limit", toString w.control.config.maxCallDepth), ("function", p.callee)]) := rfl

/-- With too many calls open, a call fails at once. -/
theorem callFunction_of_limit {w : Machine}
    (h : w.control.config.maxCallDepth ≤ w.control.frames.length) (ev : Evaluator)
    (f : FunctionValue) (args : List Value) (callNode : Option Nat) :
    callFunction ev f args callNode w = exceed (.call f args callNode) w := by
  unfold callFunction
  rw [Act.run_bind, run_session]
  dsimp only
  rw [if_pos h]
  rfl

end Eval

namespace steady

open Eval

variable {inv : Config → List CallSite → Prop} {escape : EvalError → Machine → Prop}
  {lockstep : Prop} {w : Machine} {code : Code} {loop : Prop}

/-! ### The evaluator follows itself -/

theorem child (hloop : loop) (c : Option Nat) :
    (steady inv escape lockstep).Child code code loop c c := by
  cases c with
  | none => trivial
  | some c => exact ⟨rfl, rfl, hloop, trivial⟩

theorem runs (hloop : loop) (cs : List (Role × Nat)) :
    (steady inv escape lockstep).Runs code code loop cs cs := by
  induction cs with
  | nil => exact .nil
  | cons c cs ih => exact .cons ⟨rfl, rfl, hloop, trivial⟩ ih

theorem shares (hloop : loop) (n : Nat) (o : Op) :
    (steady inv escape lockstep).Shares code code loop n o where
  unit := rfl
  child _ _ := child hloop _
  body := child (Or.inl hloop) _
  required _ _ _ := trivial
  family _ _ _ := List.forall₂_same.2 fun _ _ => ⟨rfl, rfl, hloop, trivial⟩
  statements _ := runs hloop _
  makes _ _ := rfl
  control _ := hloop

theorem roots (root : Nat) : (steady inv escape lockstep).Roots code code root root where
  block := rfl
  statements _ := runs trivial _
  node _ := ⟨rfl, rfl, trivial, trivial⟩

/-- Where the evaluation stops, the first evaluator escapes. -/
def Escapes (inv : Config → List CallSite → Prop) (escape : EvalError → Machine → Prop)
    (stop : Place → Machine → Prop) (answer : Place → Eval Signal) : Prop :=
  ∀ p w, stop p w → Sane w → inv w.control.config w.control.frames →
    ∃ e u, answer p w = some (.error e, u) ∧ Balance w u ∧ escape e u

/-- Where an evaluator escapes, another one may come to anything; otherwise it follows. -/
theorem follows (h : Admits inv escape) {stop : Place → Machine → Prop}
    {answer : Place → Eval Signal} (hstop : Escapes inv escape stop answer)
    (answer' : Place → Eval Signal) {fuel fuel' : Nat}
    (hfuel : (steady inv escape lockstep).Fuels fuel fuel') :
    (steady inv escape lockstep).Follows (evalUntil stop answer fuel)
      (evalUntil stop answer' fuel') := by
  have hS : (steady inv escape lockstep).Lawful := lawful h
  induction fuel generalizing fuel' with
  | zero =>
    refine ⟨fun _ _ _ => .of_none fun hlock => ?_, fun _ _ _ => .of_none fun hlock => ?_,
      fun _ _ _ _ => .of_none fun hlock => ?_⟩ <;>
    · rw [hfuel.2 hlock]
      rfl
  | succ fuel ih =>
    obtain ⟨fuel', rfl, hless⟩ := hfuel.exists_succ
    have hev := ih hless
    have hlost {p : Place} {w : Machine} {good : Signal → Machine → Prop}
        {y : Option (Except EvalError Signal × Machine)} (hp : stop p w) (hsane : Sane w)
        (hinv : inv w.control.config w.control.frames) :
        (steady inv escape lockstep).Matches (steady inv escape lockstep).fatal w good
          (answer p w) y := by
      obtain ⟨e, u, hanswer, hbalance, hescape⟩ := hstop p w hp hsane hinv
      rw [hanswer]
      exact .of_some hbalance (.lost hescape)
    unfold evalUntil
    refine ⟨?_, ?_, ?_⟩
    · rintro code _ loop falls n _ scope w _ ⟨rfl, rfl, hloop, hfalls⟩ ⟨rfl, hsane, hinv⟩ hlive
      dsimp only
      by_cases hp : stop (.node code n scope) w
      · rw [if_pos hp, if_pos hp]
        exact hlost hp hsane hinv
      rw [if_neg hp, if_neg hp]
      cases ho : code.program.op? n with
      | none =>
        unfold Eval.node
        rw [ho]
        exact .error hS ⟨Or.inl trivial, rfl, hsane, hinv⟩
      | some o =>
        exact hev.evalNode hS hless ho ho (shares hloop n o) (fun _ => hfalls)
          ⟨rfl, hsane, hinv⟩ hlive
    · rintro code _ root _ scope w _ ⟨rfl, rfl⟩ ⟨rfl, hsane, hinv⟩ hlive
      dsimp only
      by_cases hp : stop (.body code root scope) w
      · rw [if_pos hp, if_pos hp]
        exact hlost hp hsane hinv
      rw [if_neg hp, if_neg hp]
      exact hev.runBody hS (roots root) ⟨rfl, hsane, hinv⟩ hlive
    · rintro f args w _ callNode ⟨rfl, hsane, hinv⟩ - hargs
      dsimp only
      by_cases hp : stop (.call f args callNode) w
      · rw [if_pos hp, if_pos hp]
        exact hlost hp hsane hinv
      rw [if_neg hp, if_neg hp]
      exact hev.callFunction hS ⟨rfl, hsane, hinv⟩ trivial hargs callNode

/-! ### What runs and calls of the host come to -/

/-- The first action ends with the world balanced. The second one ends in the same way, or the
first one escapes. -/
structure Ends {α : Type} (escape : EvalError → Machine → Prop) (lockstep : Prop) (w : Machine)
    (x y : Option (Except EvalError α × Machine)) : Prop where
  ends : ∀ r v, x = some (r, v) →
    Balance w v ∧ (Sane v ∧ y = some (r, v) ∨ ∃ e, r = .error e ∧ escape e v)
  stuck : lockstep → x = none → y = none

theorem ends_of_matches {α : Type} {F : Failure EvalError} {P : α → Machine → Prop}
    {x y : Option (Except EvalError α × Machine)}
    (hF : F = (steady inv escape lockstep).fatal ∨ F = (steady inv escape lockstep).ended)
    (h : (steady inv escape lockstep).Matches F w P x y) : Ends escape lockstep w x y := by
  have hboth : ∀ e v v', F.both e v v' → (steady inv escape lockstep).rel v v' := by
    rcases hF with rfl | rfl <;> exact fun _ _ _ hboth => hboth.2
  have hlost : ∀ e v, F.lost e v → escape e v := by
    rcases hF with rfl | rfl <;> exact fun _ _ hlost => hlost
  refine ⟨fun r v hx => ?_, h.stuck⟩
  obtain ⟨hbalance, hout⟩ := h.ends r v hx
  refine ⟨hbalance, ?_⟩
  cases hout with
  | ok hrel hgood =>
    obtain ⟨rfl, hsane, -⟩ := hrel
    exact Or.inl ⟨hsane, rfl⟩
  | error hfail =>
    obtain ⟨rfl, hsane, -⟩ := hboth _ _ _ hfail
    exact Or.inl ⟨hsane, rfl⟩
  | lost hfail => exact Or.inr ⟨_, rfl, hlost _ _ hfail⟩

/-- The invariant of call frames may be dropped after a part of an evaluation. -/
theorem matches_of_ends {x y : Option (Except EvalError Signal × Machine)}
    {falls : Prop} (hloop : loop) (hfalls : falls) (h : Ends escape lockstep w x y) :
    (steady (fun _ _ => True) escape lockstep).Matches
      (steady (fun _ _ => True) escape lockstep).fatal w
      ((steady (fun _ _ => True) escape lockstep).Gives loop falls) x y := by
  refine ⟨fun r v hx => ?_, h.stuck⟩
  obtain ⟨hbalance, ⟨hsane, rfl⟩ | ⟨e, rfl, hescape⟩⟩ := h.ends r v hx
  · refine ⟨hbalance, ?_⟩
    cases r with
    | error e => exact .error ⟨Or.inl trivial, rfl, hsane, trivial⟩
    | ok s =>
      refine .ok ⟨rfl, hsane, trivial⟩ ⟨?_, fun _ => hfalls⟩
      cases s with
      | normal x => exact x.holds_true
      | returning x => exact x.holds_true
      | raised r => exact r.exception.holds_true
      | _ => exact hloop
  · exact ⟨hbalance, .lost hescape⟩

end steady

end GraphLang
