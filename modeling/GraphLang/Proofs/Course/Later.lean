import GraphLang.Proofs.Course.Order
import Mathlib.Logic.Relation

/-!
# Later states of an evaluator

From one state of an evaluator to a later one the host takes actions, one after the other, and each
evaluation comes to moments of its own. Between collections all of this keeps to every regime that
lets a host import names.
-/

namespace GraphLang

open Eval

variable {ε α : Type} {R : Regime}

/-- What an evaluator does for the host or for itself. -/
inductive Evaluation : (α : Type) → (Evaluator → Eval α) → Prop
  /-- A unit is run. -/
  | run (id : UnitId) : Evaluation Value (runBy · id)
  /-- A value is called. -/
  | call (callee : Value) (args : List Value) : Evaluation Value (callBy · callee args)
  /-- A node or a body is evaluated, or a function is called. -/
  | place (p : Place) : Evaluation Signal (·.at p)
  /-- A container is changed under its rules. -/
  | change (g : GraphId) (m : Mutation) :
    Evaluation _ fun ev => Act.attempt (Engine.apply (callback ev) g m)
  /-- A rule is attached to a container. -/
  | attach (g : GraphId) (rule : Rule) :
    Evaluation _ fun ev => Act.attempt (Engine.addRule (callback ev) g rule)
  /-- A container is frozen. -/
  | freeze (g : GraphId) :
    Evaluation _ fun _ => Act.attempt (Engine.freeze g : Act Session (MutationError String) Unit)

/-- The second world comes after the first one. -/
inductive Later : Machine → Machine → Prop
  | refl {w} : Later w w
  | trans {u v w} : Later u v → Later v w → Later u w
  /-- A unit was loaded, or rejected. -/
  | load {w v p r} : Eval.load p w = some (r, v) → Later w v
  /-- A name was imported. -/
  | importName {w v into source name r} : Eval.importName into source name w = some (r, v) →
    Later w v
  /-- A procedure of the host was registered. -/
  | registerNative {w v n r} : Eval.registerNative n w = some (r, v) → Later w v
  /-- Scopes were collected. -/
  | collect {w} : Later w { w with control := (w.control.collect w.store).2 }
  /-- An evaluation came to an end. -/
  | ends {α action fuel w v r} : Evaluation α action → action (eval fuel) w = some (r, v) →
    Later w v
  /-- An evaluation came to a moment. -/
  | comes {α action fuel w p v} : Evaluation α action → Reaches action fuel w p v → Later w v
  /-- An evaluation came to one moment after another. -/
  | precedes {α action fuel w p v p' v'} : Evaluation α action →
    Precedes action fuel w p v p' v' → Later v v'
  /-- An evaluation came to a moment after what was asked at another one had its answer. -/
  | succeeds {α action fuel w p v a p' v'} : Evaluation α action →
    (eval fuel).at p v = some a → Succeeds action fuel w p v a p' v' → Later a.2 v'
  /-- An evaluation ended after what was asked at a moment had its answer. -/
  | rests {α action fuel w p v a r u} : Evaluation α action → Reaches action fuel w p v →
    (eval fuel).at p v = some a →
    action (evalUntil (moment p v) (fun _ _ => some a) fuel) w = some (r, u) → Later a.2 u

theorem Evaluation.steps {action : Evaluator → Eval α} (h : Evaluation α action)
    (hfree : R.Free) : Steps R action := by
  cases h with
  | run id => exact .runBy hfree id
  | call callee args => exact .callBy callee args
  | place p => exact .ask p (hfree.allows p)
  | change g m => exact .attempt (Engine.steps_apply Steps.callback g m)
  | attach g rule => exact .attempt (Engine.steps_addRule Steps.callback g rule)
  | freeze g => exact .attempt (Engine.steps_freeze g)

/-! ### Single actions -/

namespace Steps

theorem relay (e : Event) : Steps R fun _ => Eval.relay e := .report _ _ _ _

theorem prepare (p : Program) : Steps R fun _ => Eval.prepare p := by
  refine .bind .session fun st => ?_
  split
  · exact .bind (.forM _ .relay) fun _ => .bind (.evalReport _ _ _) fun _ => .pure _
  · exact .pure _

theorem load (p : Program) : Steps R fun _ => Eval.load p := by
  unfold Eval.load
  split
  · exact .breakDown
  · refine .bind (.prepare p) fun program => .bind .session fun st => ?_
    refine .push_bind _ _ fun scope _ => .bind .session fun st' => .bind ?_ fun _ => ?_
    · exact .of_step fun w hw => ⟨_, _, rfl, R.aside hw rfl rfl rfl rfl rfl⟩
    · exact .bind (.evalReport _ _ _) fun _ => .pure _
  · exact .bind (.relay _) fun _ => .throw _

theorem importName (himport : ∀ {w : Machine} (scope : ScopeId) (var : VarId), R.inv w →
    R.rel w (w.withScopes (w.control.scopes.importVar scope var).2)) (into source : UnitId)
    (name : String) : Steps R fun _ => Eval.importName into source name := by
  refine .bind (.unit into) fun target => .bind (.unit source) fun loaded => ?_
  refine .bind .session fun st => ?_
  split
  · exact .throw _
  · exact .bindingStep (himport _ _)

theorem registerNative (hfree : R.Free) (n : Native) :
    Steps R fun _ => Eval.registerNative n :=
  .bind .session fun _ => .bind (.onScopes fun hw => R.define _ _ _ hw (hfree.own _)) fun r =>
    .map _ (.ofBinding r)

end Steps

/-- The second world comes after the first one by one action of the host other than a collection, or
by one stretch of an evaluation. -/
inductive Stride : Machine → Machine → Prop
  /-- A unit was loaded, or rejected. -/
  | load {w v p r} : Eval.load p w = some (r, v) → Stride w v
  /-- A name was imported. -/
  | importName {w v into source name r} : Eval.importName into source name w = some (r, v) →
    Stride w v
  /-- A procedure of the host was registered. -/
  | registerNative {w v n r} : Eval.registerNative n w = some (r, v) → Stride w v
  /-- An evaluation came to an end. -/
  | ends {α action fuel w v r} : Evaluation α action → action (eval fuel) w = some (r, v) →
    Stride w v
  /-- An evaluation came to a moment. -/
  | comes {α action fuel w p v} : Evaluation α action → Reaches action fuel w p v → Stride w v
  /-- An evaluation came to one moment after another. -/
  | precedes {α action fuel w p v p' v'} : Evaluation α action →
    Precedes action fuel w p v p' v' → Stride v v'
  /-- An evaluation came to a moment after what was asked at another one had its answer. -/
  | succeeds {α action fuel w p v a p' v'} : Evaluation α action →
    (eval fuel).at p v = some a → Succeeds action fuel w p v a p' v' → Stride a.2 v'
  /-- An evaluation ended after what was asked at a moment had its answer. -/
  | rests {α action fuel w p v a r u} : Evaluation α action → Reaches action fuel w p v →
    (eval fuel).at p v = some a →
    action (evalUntil (moment p v) (fun _ _ => some a) fuel) w = some (r, u) → Stride a.2 u

variable {w v : Machine}

theorem Stride.rel (h : Stride w v) (hfree : R.Free)
    (himport : ∀ {w : Machine} (scope : ScopeId) (var : VarId), R.inv w →
      R.rel w (w.withScopes (w.control.scopes.importVar scope var).2)) : R.rel w v := by
  have hanswer {fuel : Nat} {p : Place} {v : Machine} {a : Answer}
      (ha : (eval fuel).at p v = some a) : R.rel v a.2 :=
    honors_eval fuel p v a.1 a.2 (hfree.allows p) (hfree.inv v) ha
  cases h with
  | load hrun => exact (Steps.load _).rel 0 (hfree.inv _) hrun
  | importName hrun => exact (Steps.importName himport _ _ _).rel 0 (hfree.inv _) hrun
  | registerNative hrun => exact (Steps.registerNative hfree _).rel 0 (hfree.inv _) hrun
  | ends haction hrun => exact (haction.steps hfree).rel _ (hfree.inv _) hrun
  | comes haction hreach => exact hreach.rel hfree (haction.steps hfree)
  | precedes haction hprecedes => exact hprecedes.rel hfree (haction.steps hfree)
  | succeeds haction ha hsucceeds => exact hsucceeds.rel hfree (haction.steps hfree) (hanswer ha)
  | rests haction hreach ha hrun =>
    exact hreach.rel_end hfree (haction.steps hfree) (hanswer ha) hrun

/-- Later states come by strides and collections. -/
theorem Later.strides (h : Later w v) : Relation.ReflTransGen (fun w v => Stride w v ∨
    v = { w with control := (w.control.collect w.store).2 }) w v := by
  induction h with
  | refl => exact .refl
  | trans _ _ ih ih' => exact ih.trans ih'
  | load hrun => exact .single (Or.inl (.load hrun))
  | importName hrun => exact .single (Or.inl (.importName hrun))
  | registerNative hrun => exact .single (Or.inl (.registerNative hrun))
  | collect => exact .single (Or.inr rfl)
  | ends haction hrun => exact .single (Or.inl (.ends haction hrun))
  | comes haction hreach => exact .single (Or.inl (.comes haction hreach))
  | precedes haction hprecedes => exact .single (Or.inl (.precedes haction hprecedes))
  | succeeds haction ha hsucceeds => exact .single (Or.inl (.succeeds haction ha hsucceeds))
  | rests haction hreach ha hrun => exact .single (Or.inl (.rests haction hreach ha hrun))

theorem Later.onward (h : Later w v) : Onward w v := by
  have hstrides := h.strides
  clear h
  induction hstrides with
  | refl => exact .refl _
  | tail _ hstep ih =>
    rcases hstep with hstride | rfl
    · exact ih.trans (hstride.rel Regime.free_onward fun _ _ _ => .of_eq rfl rfl rfl rfl)
    · exact ih.trans (.of_eq rfl rfl rfl rfl)

end GraphLang
