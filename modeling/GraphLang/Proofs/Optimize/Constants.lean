import GraphLang.Optimize.Fold
import GraphLang.Proofs.Simulation.Rules

/-!
# Nodes that are settled before the run

An operator on literals comes to the same value in every world, and so does a branch on a literal
where there is nothing to run. A branch on a literal that has something to run comes to whatever
that part comes to. Apart from events and the trace, evaluating such nodes changes nothing.
-/

namespace GraphLang

namespace Program

/-- The child with that role is a literal. -/
def LiteralAt (p : Program) (n : Nat) (role : Role) (l : Literal) : Prop :=
  ∃ c, p.child? n role = some c ∧ p.op? c = some (.literal l)

/-- The node comes to the literal in every world. -/
inductive Constant (p : Program) (n : Nat) : Literal → Prop
  /-- It is the literal. -/
  | literal {l} : p.op? n = some (.literal l) → Constant p n l
  /-- It is an operator on literals. -/
  | operator {o ls l} : p.op? n = some o →
    List.Forall₂ (p.LiteralAt n) (Fold.operandRoles o) ls → Fold.result? o ls = some l →
    Constant p n l
  /-- It is a branch that has nothing to run. -/
  | branch {l} : p.op? n = some .branch → p.LiteralAt n .condition l →
    Store.empty.isTruthy l.toValue = false → p.child? n .whenFalse = none → Constant p n .nil

/-- The part of a branch that a literal chooses. -/
def chosen (l : Literal) : Role :=
  if Store.empty.isTruthy l.toValue then .whenTrue else .whenFalse

/-- The node is a branch on a literal that chooses the other node. -/
def Skips (p : Program) (n branch : Nat) : Prop :=
  ∃ l, p.op? n = some .branch ∧ p.LiteralAt n .condition l ∧ p.child? n (chosen l) = some branch

end Program

/-! ### Operators on literals -/

theorem Store.isTruthy_literal (s : Store) (l : Literal) :
    s.isTruthy l.toValue = Store.empty.isTruthy l.toValue := by
  cases l <;> rfl

theorem Operators.binary_literal (s : Store) (op : BinaryOp) (l r : Literal) :
    binary s op l.toValue r.toValue = ((binary .empty op l.toValue r.toValue).1, s) := by
  cases op <;> cases l <;> cases r <;> rfl

theorem Operators.unary_literal (s : Store) (op : UnaryOp) (l : Literal) :
    unary s op l.toValue = unary .empty op l.toValue := by
  cases op <;> cases l <;> rfl

theorem Operators.logical_literal (s : Store) (op : LogicalOp) (l r : Literal) :
    logical s op l.toValue r.toValue = logical .empty op l.toValue r.toValue := by
  cases op <;> simp only [logical, Store.isTruthy_literal s]

theorem Literal.toValue_of_ofValue? {v : Value} {l : Literal} (h : ofValue? v = some l) :
    l.toValue = v := by
  cases v <;> cases h <;> rfl

/-! ### Quiet steps -/

namespace Step

variable {α β : Type} {ev : Evaluator} {code : Code} {n : Nat} {scope : ScopeId}

/-- The step comes to the result in every world and reports events at most. -/
def Calm (s : Step α) (a : α) : Prop :=
  ∀ w : Machine, ∃ events trace, s w = some (.ok (.ok a), w.quiet events trace)

theorem Calm.pure (a : α) : Calm (Pure.pure a : Step α) a :=
  fun w => ⟨w.events, w.control.trace, rfl⟩

theorem Calm.bind {s : Step α} {f : α → Step β} {a : α} {b : β} (hs : Calm s a)
    (hf : Calm (f a) b) : Calm (s >>= f) b := by
  intro w
  obtain ⟨events, trace, hrun⟩ := hs w
  obtain ⟨events', trace', hrun'⟩ := hf (w.quiet events trace)
  refine ⟨events', trace', ?_⟩
  rw [run_bind, hrun]
  exact hrun'

/-- A step that reads the store is calm if it is so for every store. -/
theorem Calm.store {f : Store → Step β} {b : β} (hf : ∀ s, Calm (f s) b) :
    Calm (Step.store >>= f) b := by
  intro w
  rw [run_bind, run_store]
  exact hf w.store w

theorem Calm.binary (op : BinaryOp) {l r : Literal} {v : Value}
    (h : (Operators.binary .empty op l.toValue r.toValue).1 = .ok v) :
    Calm (binary op l.toValue r.toValue) v := by
  intro w
  refine ⟨w.events, w.control.trace, ?_⟩
  unfold Step.binary
  rw [run_bind, run_store]
  dsimp only
  rw [Operators.binary_literal, h]
  rfl

end Step

namespace Eval

variable {ev : Evaluator} {code : Code} {n : Nat} {scope : ScopeId} {fuel : Nat}

/-- The action comes to the signal in every world and reports events at most. -/
def Calm (a : Eval Signal) (s : Signal) : Prop :=
  ∀ w : Machine, ∃ events trace, a w = some (.ok s, w.quiet events trace)

/-- A node is calm if its operation is. -/
theorem Calm.node {o : Op} (ho : code.program.op? n = some o) {v : Value}
    (h : Step.Calm (Step.op ev fuel code n scope o) v) :
    Calm (node ev fuel code n scope) (.normal v) := by
  intro w
  unfold Eval.node
  rw [ho]
  dsimp only
  rw [Act.run_bind, run_report]
  obtain ⟨events, hevents⟩ := w.noted_eq_quiet .trace target "eval" fun _ =>
    [("unit", toString code.unit), ("node", toString n), ("op", Text.quoted o.name)]
  rw [hevents]
  obtain ⟨events', trace', hrun⟩ := h (w.quiet events w.control.trace)
  obtain ⟨trace'', htrace⟩ := (w.quiet events' trace').recorded_eq_quiet code n o (.normal v)
  refine ⟨events', trace'', ?_⟩
  dsimp only
  have hsignal : (Step.op ev fuel code n scope o).toSignal (w.quiet events w.control.trace) =
      some (.ok (.normal v), w.quiet events' trace') := by
    rw [Step.run_toSignal, hrun]
    rfl
  rw [Act.run_bind, hsignal]
  dsimp only
  rw [Act.run_bind, run_record, htrace]
  rfl

theorem calm_literal {l : Literal} (h : code.program.op? n = some (.literal l)) (fuel : Nat)
    (scope : ScopeId) : Calm ((eval (fuel + 1)).node code n scope) (.normal l.toValue) :=
  Calm.node h (.pure l.toValue)

end Eval

namespace Step

variable {p : Program} {n : Nat} {scope : ScopeId} {unit : UnitId} {l : Literal} {role : Role}

/-- Evaluating a child that is a literal gives its value. -/
theorem calm_role (unit : UnitId) (h : p.LiteralAt n role l) (fuel : Nat) (scope : ScopeId) :
    Calm (Step.role (Eval.eval (fuel + 1)) ⟨unit, p⟩ n role scope) l.toValue := by
  obtain ⟨c, hc, hl⟩ := h
  have hchild : child ⟨unit, p⟩ n role = Pure.pure c := by
    unfold child
    rw [hc]
  unfold Step.role
  rw [hchild, pure_bind]
  intro w
  have hliteral : Eval.Calm ((Eval.eval (fuel + 1)).node ⟨unit, p⟩ c scope) (.normal l.toValue) :=
    Eval.calm_literal hl fuel scope
  obtain ⟨events, trace, hrun⟩ := hliteral w
  refine ⟨events, trace, ?_⟩
  unfold Step.node
  rw [run_bind, run_lift, hrun]
  rfl

theorem calm_logical {op : LogicalOp} {r : Literal} (hl : p.LiteralAt n .left l)
    (hr : p.LiteralAt n .right r) (fuel : Nat) (scope : ScopeId) :
    Calm (logical (Eval.eval (fuel + 1)) ⟨unit, p⟩ n op scope)
      (Operators.logical .empty op l.toValue r.toValue) := by
  unfold logical
  refine .bind (calm_role unit hl fuel scope) (.store fun s => ?_)
  rw [Store.isTruthy_literal]
  have hright : Calm (do
      let right ← Step.role (Eval.eval (fuel + 1)) ⟨unit, p⟩ n .right scope
      return Operators.logical (← store) op l.toValue right)
      (Operators.logical .empty op l.toValue r.toValue) := by
    refine .bind (calm_role unit hr fuel scope) (.store fun s' => ?_)
    rw [Operators.logical_literal]
    exact .pure _
  cases op <;> cases htruth : Store.empty.isTruthy l.toValue
  · simpa [Operators.logical, htruth] using Calm.pure (Value.bool false)
  · exact hright
  · exact hright
  · simpa [Operators.logical, htruth] using Calm.pure (Value.bool true)

/-- An operator on literals comes to the literal that it is folded to. -/
theorem calm_operator {o : Op} {ls : List Literal}
    (hls : List.Forall₂ (p.LiteralAt n) (Fold.operandRoles o) ls) (hl : Fold.result? o ls = some l)
    (fuel fuel' : Nat) (scope : ScopeId) :
    Calm (op (Eval.eval (fuel + 1)) fuel' ⟨unit, p⟩ n scope o) l.toValue := by
  cases o with
  | binary o =>
    obtain _ | ⟨hleft, _ | ⟨hright, _ | _⟩⟩ := hls
    dsimp only [Fold.result?] at hl
    split at hl
    · rename_i v hv
      rw [Literal.toValue_of_ofValue? hl]
      exact .bind (calm_role unit hleft fuel scope)
        (.bind (calm_role unit hright fuel scope) (.binary o hv))
    · cases hl
  | unary o =>
    obtain _ | ⟨hoperand, _ | _⟩ := hls
    dsimp only [Fold.result?] at hl
    split at hl
    · rename_i v hv
      rw [Literal.toValue_of_ofValue? hl]
      refine .bind (calm_role unit hoperand fuel scope) (.store fun s => ?_)
      rw [Operators.unary_literal, hv]
      exact .pure v
    · cases hl
  | logical o =>
    obtain _ | ⟨hleft, _ | ⟨hright, _ | _⟩⟩ := hls
    dsimp only [Fold.result?] at hl
    rw [Literal.toValue_of_ofValue? hl]
    exact calm_logical hleft hright fuel scope
  | _ =>
    cases hls
    cases hl

/-- Without fuel no child can be evaluated. -/
theorem run_role_zero {c : Nat} (h : p.child? n role = some c) (scope : ScopeId) (w : Machine) :
    Step.role (Eval.eval 0) ⟨unit, p⟩ n role scope w = none := by
  have hchild : child ⟨unit, p⟩ n role = Pure.pure c := by
    unfold child
    rw [h]
  unfold Step.role
  rw [hchild, pure_bind]
  rfl

/-- The signal of a node that is evaluated as a step is the signal of the node. -/
theorem run_node_toSignal (ev : Evaluator) (code : Code) (c : Nat) (scope : ScopeId)
    (w : Machine) : (Step.node ev code c scope).toSignal w = ev.node code c scope w := by
  rw [run_toSignal, Step.node, run_bind, run_lift]
  cases ev.node code c scope w with
  | none => rfl
  | some x =>
    obtain ⟨r, u⟩ := x
    cases r with
    | error e => rfl
    | ok s => cases s <;> rfl

end Step

namespace Eval

variable {p : Program} {n : Nat} {unit : UnitId} {l : Literal}

theorem node_eq_none {ev : Evaluator} {fuel : Nat} {code : Code} {scope : ScopeId} {o : Op}
    (ho : code.program.op? n = some o) (h : ∀ w, Step.op ev fuel code n scope o w = none)
    (w : Machine) : node ev fuel code n scope w = none := by
  unfold Eval.node
  rw [ho]
  dsimp only
  rw [Act.run_bind, run_report]
  dsimp only
  rw [Act.run_bind, Step.run_toSignal, h]

theorem calm_constant (unit : UnitId) (h : p.Constant n l) (fuel : Nat) (scope : ScopeId) :
    Calm ((eval (fuel + 2)).node ⟨unit, p⟩ n scope) (.normal l.toValue) := by
  cases h with
  | literal ho => exact calm_literal ho (fuel + 1) scope
  | operator ho hls hl => exact Calm.node ho (Step.calm_operator hls hl fuel _ scope)
  | branch ho hcondition hfalse hnothing =>
    refine Calm.node ho (.bind (Step.calm_role unit hcondition fuel scope) (.store fun s => ?_))
    rw [Store.isTruthy_literal, hfalse, if_neg (by simp)]
    have hnone : Step.role? (eval (fuel + 1)) ⟨unit, p⟩ n .whenFalse scope = pure none := by
      unfold Step.role?
      rw [hnothing]
    rw [hnone, pure_bind]
    exact .pure _

/-- With too little fuel a constant comes to nothing. -/
theorem constant_cases (unit : UnitId) (h : p.Constant n l) (fuel : Nat) (scope : ScopeId)
    (w : Machine) :
    (eval fuel).node ⟨unit, p⟩ n scope w = none ∨
      ∃ events trace, (eval fuel).node ⟨unit, p⟩ n scope w =
        some (.ok (.normal l.toValue), w.quiet events trace) := by
  match fuel with
  | 0 => exact Or.inl rfl
  | fuel + 2 => exact Or.inr (calm_constant unit h fuel scope w)
  | 1 =>
    cases h with
    | literal ho => exact Or.inr (calm_literal ho 0 scope w)
    | branch ho hcondition _ _ =>
      obtain ⟨c, hc, -⟩ := hcondition
      refine Or.inl (node_eq_none ho (fun u => ?_) w)
      change (Step.role (eval 0) ⟨unit, p⟩ n .condition scope >>= _) u = none
      rw [Step.run_bind, Step.run_role_zero hc]
    | operator ho hls hl =>
      rename_i o ls
      refine Or.inl (node_eq_none ho (fun u => ?_) w)
      cases o with
      | binary o =>
        obtain _ | ⟨⟨c, hc, -⟩, _⟩ := hls
        change (Step.role (eval 0) ⟨unit, p⟩ n .left scope >>= _) u = none
        rw [Step.run_bind, Step.run_role_zero hc]
      | unary o =>
        obtain _ | ⟨⟨c, hc, -⟩, _⟩ := hls
        change (Step.role (eval 0) ⟨unit, p⟩ n .operand scope >>= _) u = none
        rw [Step.run_bind, Step.run_role_zero hc]
      | logical o =>
        obtain _ | ⟨⟨c, hc, -⟩, _⟩ := hls
        change (Step.role (eval 0) ⟨unit, p⟩ n .left scope >>= _) u = none
        rw [Step.run_bind, Step.run_role_zero hc]
      | _ =>
        cases hls
        cases hl

/-- A branch on a literal evaluates the part that the literal chooses, and is recorded after it. -/
theorem run_skips (unit : UnitId) {b : Nat} (h : p.Skips n b) (fuel : Nat) (scope : ScopeId)
    (w : Machine) :
    ∃ events trace, (eval (fuel + 2)).node ⟨unit, p⟩ n scope w =
      ((eval (fuel + 1)).node ⟨unit, p⟩ b scope >>= fun s =>
        record ⟨unit, p⟩ n .branch s >>= fun _ => pure s) (w.quiet events trace) := by
  obtain ⟨l, ho, hcondition, hb⟩ := h
  have hop : ∀ u : Machine, ∃ events trace,
      (Step.op (eval (fuel + 1)) (fuel + 1) ⟨unit, p⟩ n scope .branch).toSignal u =
        (eval (fuel + 1)).node ⟨unit, p⟩ b scope (u.quiet events trace) := by
    intro u
    obtain ⟨events, trace, hrun⟩ := Step.calm_role unit hcondition fuel scope u
    refine ⟨events, trace, ?_⟩
    have hbranch : Step.op (eval (fuel + 1)) (fuel + 1) ⟨unit, p⟩ n scope .branch u =
        Step.node (eval (fuel + 1)) ⟨unit, p⟩ b scope (u.quiet events trace) := by
      change (Step.role (eval (fuel + 1)) ⟨unit, p⟩ n .condition scope >>= _) u = _
      rw [Step.run_bind, hrun]
      dsimp only
      rw [Step.run_bind, Step.run_store]
      dsimp only
      rw [Store.isTruthy_literal]
      unfold Program.chosen at hb
      cases htruth : Store.empty.isTruthy l.toValue with
      | true =>
        rw [htruth, if_pos rfl] at hb
        rw [if_pos rfl]
        unfold Step.role Step.child
        rw [hb]
        rfl
      | false =>
        rw [htruth, if_neg (by simp)] at hb
        rw [if_neg (by simp)]
        unfold Step.role?
        rw [hb]
        simp only [bind_assoc, pure_bind, Option.getD_some, bind_pure]
    rw [Step.run_toSignal, hbranch, ← Step.run_toSignal, Step.run_node_toSignal]
  change ∃ events trace, node (eval (fuel + 1)) (fuel + 1) ⟨unit, p⟩ n scope w = _
  unfold Eval.node
  rw [ho]
  dsimp only
  rw [Act.run_bind, run_report]
  obtain ⟨events, hevents⟩ := w.noted_eq_quiet .trace target "eval" fun _ =>
    [("unit", toString unit), ("node", toString n), ("op", Text.quoted Op.branch.name)]
  rw [hevents]
  obtain ⟨events', trace', hrun⟩ := hop (w.quiet events w.control.trace)
  refine ⟨events', trace', ?_⟩
  dsimp only
  rw [Act.run_bind, Act.run_bind, hrun]
  rfl

theorem skips_eq_none {b : Nat} (h : p.Skips n b) (scope : ScopeId) (w : Machine) :
    (eval 1).node ⟨unit, p⟩ n scope w = none := by
  obtain ⟨l, ho, ⟨c, hc, -⟩, -⟩ := h
  refine node_eq_none ho (fun u => ?_) w
  change (Step.role (eval 0) ⟨unit, p⟩ n .condition scope >>= _) u = none
  rw [Step.run_bind, Step.run_role_zero hc]

end Eval

end GraphLang
