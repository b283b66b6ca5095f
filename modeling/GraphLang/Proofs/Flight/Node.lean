import GraphLang.Proofs.Flight.Engine

/-!
# Exceptions in evaluations

An exception that leaves a child of a node leaves the node too, unless the node is a guarded body
or a change whose validation asked a predicate. An exception that leaves the body of a function
leaves the call, and the frame of the call is added to its path.
-/

namespace GraphLang

open Eval

variable {ε α β : Type} {scope : ScopeId} {u v w : Machine} {ev : Evaluator} {p : Place}

namespace Settles

/-! ### Steps without questions -/

theorem session : Settles scope fun _ => Eval.session :=
  .of_const .session (by rintro w r v h ⟨⟩; exact h.refl)

theorem evalReport (level : Level) (message : String) (fields : Store → List (String × String)) :
    Settles scope fun _ => Eval.report level message fields :=
  .report level Eval.target message fields

/-- A change of anything but scopes and call frames. -/
theorem modifySession (f : Session → Session) (hscopes : ∀ st, (f st).scopes = st.scopes)
    (hframes : ∀ st, (f st).frames = st.frames) (hnext : ∀ st, (f st).nextFrame = st.nextFrame) :
    Settles scope fun _ =>
      (modify fun w => { w with control := f w.control } : Act Session ε PUnit) := by
  refine .of_const (.of_step fun w _ => ⟨_, _, rfl, .of_eq rfl rfl (hframes _) (hnext _)⟩) ?_
  rintro w r v h ⟨⟩
  exact .of_eq h.tidy (hscopes _) (hframes _)

/-- A step on the scopes that loses none. -/
theorem onScopes {f : Scopes → Except BindingError α × Scopes}
    (hf : ∀ {s}, s.Tidy → Scopes.Keeps s (f s).2) : Settles scope fun _ => Eval.onScopes f :=
  .of_const (.onScopes fun _ => .of_eq rfl rfl rfl rfl)
    (by rintro w r v h ⟨⟩; exact .withScopes (hf h.tidy))

theorem ofBinding (r : Except BindingError α) : Settles scope fun _ => Eval.ofBinding r := by
  cases r with
  | ok a => exact .pure a
  | error cause => exact .throw _

theorem native (n : Native) (args : List Value) :
    Settles scope fun _ => (n.call args : Act Session ε (Except Value Value)) := by
  have hfault (f : Fault) : Settles scope fun _ => (Act.nativeFault f : Act Session ε _) :=
    .bind (.faultException f) fun x => .pure _
  have halloc (values : List Value) : Settles scope fun _ => (do
      return Except.ok (← Act.alloc (.ofElements values)) :
      Act Session ε (Except Value Value)) :=
    .bind (.alloc (Container.frozen_ofElements values)) fun x => .pure _
  cases n with
  | host name arity =>
    exact .of_const (.native _ args) (by rintro w r v h ⟨⟩; exact .of_eq h.tidy rfl rfl)
  | print =>
    refine .bind .store fun s => .bind (.report _ _ _ _) fun _ => .bind ?_ fun _ => .pure _
    exact .of_const (.of_step fun w _ => ⟨_, _, rfl, .of_eq rfl rfl rfl rfl⟩)
      (by rintro w r v h ⟨⟩; exact .of_eq h.tidy rfl rfl)
  | len =>
    refine .bind .store fun s => ?_
    dsimp only
    cases args.headD .nil with
    | graph g => exact .pure _
    | str t => exact .pure _
    | _ => exact hfault _
  | str => exact .bind .store fun s => .pure _
  | typeOf => exact .bind .store fun s => .pure _
  | range =>
    refine .bind .store fun s => ?_
    dsimp only
    cases args.headD .nil with
    | int n => exact halloc _
    | _ => exact hfault _
  | keys =>
    refine .bind .store fun s => ?_
    dsimp only
    cases args.headD .nil with
    | graph g =>
      dsimp only
      cases (s.get g).kind with
      | map => exact halloc _
      | _ => exact hfault _
    | _ => exact hfault _
  | exception =>
    refine .bind .store fun s => ?_
    dsimp only
    cases args.headD .nil with
    | str kind => exact .bind (.newException _ _ _ _) fun x => .pure _
    | _ => exact hfault _
  | isFrozen =>
    refine .bind .store fun s => ?_
    dsimp only
    cases args.headD .nil with
    | graph g => exact .pure _
    | _ => exact .pure _

theorem toException (x : Value) : Settles scope fun _ => Step.toException x := by
  unfold Step.toException
  split
  · exact .pure _
  · exact .bind .store fun s => .newException _ _ _ _

theorem leaveCallback (r : Except EvalError Signal) :
    Settles scope fun _ => Eval.leaveCallback r := by
  cases r with
  | error e =>
    refine .bind .store fun s => .bind ?_ fun _ => .throw _
    exact .modifySession (fun st => { st with pendingFatal := some e }) (fun _ => rfl)
      (fun _ => rfl) fun _ => rfl
  | ok s =>
    cases s with
    | normal v => exact .pure _
    | _ => exact .throw _

end Settles

/-! ### Scopes of their own -/

/-- A scope can be opened in every scope. -/
theorem exists_enterScope_live {parent : ScopeId} (h : LiveAt parent w) (kind : ScopeKind)
    (locals : List (String × Value)) :
    ∃ inner s, enterScope parent kind locals w = some (.ok inner, w.withScopes s) ∧
      Stays w (w.withScopes s) ∧ LiveAt inner (w.withScopes s) ∧
      w.control.scopes.isScope inner = false := by
  obtain ⟨s, hrun, hopens⟩ := exists_enterScope_ok h.tidy h.isScope kind locals
  exact ⟨_, s, hrun, ⟨rfl, hopens.tidy, hopens.isScope⟩, ⟨hopens.tidy, hopens.opened⟩,
    Scopes.isScope_eq_false hopens.fresh⟩

section InScope

variable {parent inner : ScopeId} {kind : ScopeKind} {locals : List (String × Value)}

/-- The scope is left again however the action ends. -/
theorem run_inScope {body : ScopeId → Eval α} {r : Except EvalError α}
    (henter : enterScope parent kind locals w = some (.ok inner, v))
    (hbody : body inner v = some (r, u)) (hinner : u.control.scopes.isScope inner = true) :
    inScope parent kind locals body w = some (r, u.left inner) := by
  unfold inScope
  rw [Act.run_bind, henter]
  dsimp only
  rw [Act.run_bind, Act.run_attempt, hbody]
  dsimp only [Option.map]
  rw [Act.run_bind, run_popScope, Scopes.pop_of_isScope hinner]
  cases r <;> rfl

/-- What is asked inside a scope is asked by its body. -/
theorem Asks.of_inScope {body : Evaluator → ScopeId → Eval α}
    (hbody : ∀ inner, Steps Regime.onward fun ev => body ev inner)
    (henter : enterScope parent kind locals w = some (.ok inner, v)) {x : Machine}
    (h : Asks (fun ev => inScope parent kind locals (body ev)) ev w p x) :
    Asks (fun ev => body ev inner) ev v p x := by
  obtain ⟨_, _, hrun, hnext⟩ := Asks.of_const_bind (Steps.enterScope parent kind locals) h
  rw [henter] at hrun
  cases hrun
  rcases Asks.of_bind (hbody inner).attempt hnext with hfirst | ⟨_, _, -, hrest⟩
  · exact hfirst.of_attempt
  · exact absurd hrest Asks.not_const

theorem Settles.inScope {body : Evaluator → ScopeId → Eval α}
    (h : ∀ inner, Settles inner fun ev => body ev inner) :
    Settles parent fun ev => Eval.inScope parent kind locals (body ev) where
  steps := .inScope parent kind locals fun inner _ => (h inner).steps
  stays := by
    intro ev w r v hev hw hrun
    obtain ⟨inner, s, henter, hs, hinner, -⟩ := exists_enterScope_live hw kind locals
    cases hbody : body ev inner (w.withScopes s) with
    | none =>
      have hstuck : Eval.inScope parent kind locals (body ev) w = none := by
        unfold Eval.inScope
        rw [Act.run_bind, henter]
        dsimp only
        rw [Act.run_bind, Act.run_attempt, hbody]
        rfl
      rw [hstuck] at hrun
      cases hrun
    | some y =>
      have hy := (h inner).stays hev hinner hbody
      rw [run_inScope henter hbody (hinner.stays hy).isScope] at hrun
      cases hrun
      exact (hs.trans hy).trans (.left hy.tidy inner)
  asks := by
    intro ev w p v hev hw hasks
    obtain ⟨inner, s, henter, hs, hinner, -⟩ := exists_enterScope_live hw kind locals
    have hbody := hasks.of_inScope (fun inner => (h inner).steps) henter
    obtain ⟨hv, hlive⟩ := (h inner).asks hev hinner hbody
    exact ⟨hs.trans hv, hlive⟩

theorem Conveys.inScope {body : Evaluator → ScopeId → Eval α}
    {shown : Flight → Except EvalError α → Machine → Prop}
    (h : ∀ inner, Conveys inner shown fun ev => body ev inner)
    (hleft : ∀ {q r v} inner, shown q r v → shown q r (v.left inner)) :
    Conveys parent shown fun ev => Eval.inScope parent kind locals (body ev) where
  toSettles := .inScope fun inner => (h inner).toSettles
  shows := by
    intro ev w q hev hw hasks hq
    obtain ⟨inner, s, henter, hs, hinner, -⟩ := exists_enterScope_live hw kind locals
    have hbody := hasks.of_inScope (fun inner => (h inner).steps) henter
    obtain ⟨r, v, hrun, hshown⟩ := (h inner).shows hev hinner hbody hq
    have hv := (h inner).stays hev hinner hrun
    exact ⟨r, _, run_inScope henter hrun (hinner.stays hv).isScope, hleft inner hshown⟩

end InScope

/-! ### Signals -/

namespace Flight

/-- The action comes to the exception. -/
def Signals (q : Flight) (r : Except EvalError Signal) (_ : Machine) : Prop :=
  r = .ok (.raised q.raised)

/-- The text of a change that a predicate refused because it raised the exception. -/
def refusal (q : Flight) (rule : String) : String :=
  (MutationError.validationFailed rule (some q.reason) : MutationError String).message
    q.landed.store id

/-- A predicate raised the exception, and the new one reports it. -/
def Reports (q : Flight) (x : Value) : Prop :=
  q.place.IsCallback ∧ ∃ serial rule,
    x = .exception serial "MutationError" (q.refusal rule) .nil []

/-- A node is left with the exception, or with a new one that reports it. -/
def Leaves (q : Flight) (s : Signal) : Prop :=
  s = .raised q.raised ∨ ∃ x, q.Reports x ∧ s = .raised (.new x)

/-- A step leaves the normal course with the exception. -/
def Throws (q : Flight) (r : Except EvalError (Except Signal α)) (_ : Machine) : Prop :=
  ∃ s, r = .ok (.error s) ∧ q.Leaves s

end Flight

namespace Conveys

/-- A node in the scope of the action. -/
theorem node (code : Code) (n : Nat) :
    Conveys scope Flight.Signals fun ev => ev.node code n scope :=
  (ask (p := .node code n scope) id).mono And.left

theorem statements (code : Code) (cs : List (Role × Nat)) :
    Conveys scope Flight.Signals fun ev => Eval.statements ev code scope cs := by
  induction cs with
  | nil => exact .of_const (.pure _)
  | cons c cs ih =>
    refine (node code c.2).bind (fun s => ?_) ?_ ?_
    · cases s with
      | normal v => exact ih
      | _ => exact .of_const (.pure _)
    · rintro q e v ⟨⟩
    · rintro q s v ⟨⟩ ev
      exact ⟨_, _, rfl, rfl⟩

theorem body (code : Code) (root : Nat) :
    Conveys scope Flight.Signals fun ev => Eval.body ev code root scope := by
  unfold Eval.body
  split
  · exact statements code _
  · exact node code root

/-- A call passes on what the function raises. -/
theorem call (callee : Value) (args : List Value) (callNode : Option Nat) :
    Conveys scope
      (fun q r v => r = .ok (.raised q.raised) ∧ v = q.landed ∧
        ∃ f, q.place = .call f args callNode)
      fun ev => Eval.call ev callee args callNode := by
  cases callee with
  | function f =>
    exact (ask (p := .call f args callNode) LiveAt.tidy).mono fun h => ⟨h.1, h.2.1, f, h.2.2⟩
  | native n =>
    have hcall (answer : Except Value Value → Eval Signal)
        (hok : ∀ v, answer (.ok v) = Pure.pure (.normal v))
        (herror : ∀ v, answer (.error v) =
          Step.toException v >>= fun x => Pure.pure (.raised (.new x))) :
        Settles scope fun _ =>
          Eval.report .debug "native call" (fun _ => [("native", Text.quoted n.name)]) >>=
            fun _ => n.call args >>= answer := by
      refine .bind (.evalReport _ _ _) fun _ => .bind (.native n args) fun r => ?_
      cases r with
      | ok v =>
        rw [hok]
        exact .pure _
      | error v =>
        rw [herror]
        exact .bind (.toException v) fun x => .pure _
    unfold Eval.call
    dsimp only
    cases n.arity with
    | none => exact .of_const (hcall _ (fun _ => rfl) fun _ => rfl)
    | some arity =>
      dsimp only
      split
      · exact .const_bind (.faultException _) fun x => .of_const (.pure _)
      · exact .of_const (hcall _ (fun _ => rfl) fun _ => rfl)
  | _ => exact .const_bind .store fun s => .const_bind (.faultException _) fun x => .of_const (.pure _)

/-- A callback ends with what the function raises. -/
theorem callback (callee : Value) (args : List Value) :
    Conveys scope Flight.Returns fun ev => Eval.callback ev callee args := by
  refine (call callee args none).attempt.bind (fun r => .of_const (.leaveCallback r)) ?_ ?_
  · rintro q e v ⟨-, ⟨⟩, -⟩
  · rintro q x v ⟨-, ⟨⟩, rfl, rfl, f, hplace⟩ ev
    exact ⟨_, _, rfl, ⟨f, args, hplace⟩, rfl, rfl⟩

end Conveys

/-! ### Steps that may leave the normal course -/

namespace Settles

theorem step_lift {action : Evaluator → Eval α} (h : Settles scope action) :
    Settles scope fun ev => (Step.lift (action ev) : Eval (Except Signal α)) := by
  have heq (ev : Evaluator) : Step.lift (action ev) =
      (action ev >>= fun x => Pure.pure (Except.ok x) : Eval (Except Signal α)) :=
    map_eq_pure_bind Except.ok (action ev)
  simp only [heq]
  exact h.bind fun x => .pure _

theorem step_bind {a : Evaluator → Step α} {f : Evaluator → α → Step β}
    (ha : Settles scope fun ev => (a ev : Eval (Except Signal α)))
    (hf : ∀ x, Settles scope fun ev => (f ev x : Eval (Except Signal β))) :
    Settles scope fun ev => ((a ev >>= f ev : Step β) : Eval (Except Signal β)) := by
  let next (ev : Evaluator) (r : Except Signal α) : Eval (Except Signal β) :=
    ExceptT.bindCont (f ev) r
  have hnext (r : Except Signal α) : Settles scope fun ev => next ev r := by
    cases r with
    | error s => exact .pure _
    | ok x => exact hf x
  exact Settles.bind ha hnext

end Settles

/-- Where an exception leaves a question of the step, the step leaves the normal course with it. -/
def Passes (scope : ScopeId) (step : Evaluator → Step α) : Prop :=
  Conveys scope Flight.Throws fun ev => (step ev : Eval (Except Signal α))

namespace Passes

theorem of_const {step : Step α}
    (h : Settles scope fun _ => (step : Eval (Except Signal α))) : Passes scope fun _ => step :=
  Conveys.of_const h

theorem pure (x : α) : Passes scope fun _ => (Pure.pure x : Step α) :=
  of_const (.pure (Except.ok x))

theorem throw (s : Signal) : Passes scope fun _ => (MonadExcept.throw s : Step α) :=
  of_const (.pure (Except.error s))

theorem fatal (e : EvalError) : Passes scope fun _ => (Step.fatal e : Step α) :=
  of_const (Settles.step_lift (.throw e))

theorem bind {a : Evaluator → Step α} {f : Evaluator → α → Step β} (ha : Passes scope a)
    (hf : ∀ x, Passes scope fun ev => f ev x) : Passes scope fun ev => a ev >>= f ev := by
  let next (ev : Evaluator) (r : Except Signal α) : Eval (Except Signal β) :=
    ExceptT.bindCont (f ev) r
  have hnext (r : Except Signal α) : Conveys scope Flight.Throws fun ev => next ev r := by
    cases r with
    | error s => exact .of_const (.pure _)
    | ok x => exact hf x
  refine Conveys.bind ha hnext ?_ ?_
  · rintro q e v ⟨s, ⟨⟩, -⟩
  · rintro q x v ⟨s, ⟨⟩, hs⟩ ev
    exact ⟨_, _, rfl, s, rfl, hs⟩

theorem map (g : α → β) {a : Evaluator → Step α} (ha : Passes scope a) :
    Passes scope fun ev => g <$> a ev := by
  simp only [map_eq_pure_bind]
  exact ha.bind fun x => .pure (g x)

/-- An action without questions. -/
theorem lift {a : Eval α} (h : Settles scope fun _ => a) :
    Passes scope fun _ => Step.lift a := of_const (Settles.step_lift h)

/-- An action whose exceptions are passed on. -/
theorem signal {a : Evaluator → Eval Signal} {f : Evaluator → Signal → Step β}
    (ha : Conveys scope Flight.Signals a) (hf : ∀ s, Passes scope fun ev => f ev s)
    (hraised : ∀ ev r, f ev (.raised r) = MonadExcept.throw (.raised r)) :
    Passes scope fun ev => Step.lift (a ev) >>= f ev := by
  have heq (ev : Evaluator) : (Step.lift (a ev) >>= f ev : Step β) =
      (a ev >>= fun s => (f ev s : Eval (Except Signal β)) : Eval (Except Signal β)) := by
    funext w
    rw [Step.run_bind, Step.run_lift, Act.run_bind]
    cases a ev w with
    | none => rfl
    | some y =>
      obtain ⟨r, v⟩ := y
      cases r <;> rfl
  unfold Passes
  simp only [heq]
  refine ha.bind hf ?_ ?_
  · rintro q e v ⟨⟩
  · rintro q s v ⟨⟩ ev
    refine ⟨_, v, ?_, _, rfl, Or.inl rfl⟩
    rw [hraised]
    rfl

theorem store : Passes scope fun _ => Step.store := .lift .store

theorem session : Passes scope fun _ => Step.session := .lift .session

theorem report (level : Level) (message : String) (fields : Store → List (String × String)) :
    Passes scope fun _ => Step.report level message fields := .lift (.evalReport level message fields)

theorem ofSignal (s : Signal) : Passes scope fun _ => Step.ofSignal s := by
  cases s with
  | normal v => exact .pure v
  | _ => exact .throw _

theorem fault (f : Fault) : Passes scope fun _ => (Step.fault f : Step α) :=
  .bind (.lift (.faultException f)) fun _ => .throw _

theorem ofFault (r : Except Fault α) : Passes scope fun _ => Step.ofFault r := by
  cases r with
  | ok a => exact .pure a
  | error f => exact .fault f

theorem ofBinding (r : Except BindingError α) : Passes scope fun _ => Step.ofBinding r := by
  cases r with
  | ok a => exact .pure a
  | error cause =>
    cases cause with
    | unbound name => exact .fault _
    | immutable name => exact .fault _
    | _ => exact .fatal _

theorem ofSpec (r : Except SpecError α) : Passes scope fun _ => Step.ofSpec r := by
  cases r with
  | ok a => exact .pure a
  | error cause => exact .fault _

theorem container (x : Value) : Passes scope fun _ => Step.container x := by
  cases x with
  | graph g => exact .pure g
  | _ => exact .bind .store fun s => .fault _

/-! ### Children -/

section

variable (code : Code) (n : Nat)

theorem child (r : Role) : Passes scope fun _ => Step.child code n r := by
  unfold Step.child
  split
  · exact .pure _
  · exact .fatal _

theorem node : Passes scope fun ev => Step.node ev code n scope :=
  .signal (.node code n) .ofSignal fun _ _ => rfl

theorem role (r : Role) : Passes scope fun ev => Step.role ev code n r scope :=
  .bind (.child code n r) fun c => .node code c

theorem role? (r : Role) : Passes scope fun ev => Step.role? ev code n r scope := by
  unfold Step.role?
  split
  · exact .bind (.node code _) fun v => .pure _
  · exact .pure _

theorem nodes (cs : List (Role × Nat)) :
    Passes scope fun ev => Step.nodes ev code scope cs := by
  induction cs with
  | nil => exact .pure _
  | cons c cs ih => exact .bind (.node code c.2) fun v => .bind ih fun vs => .pure _

theorem family (r : Role) : Passes scope fun ev => Step.family ev code n r scope := .nodes code _

end

/-! ### Changes under rules -/

theorem takeFatal : Passes scope fun _ => Step.lift Eval.takeFatal := by
  refine .lift (.bind .session fun st => .bind ?_ fun _ => .pure _)
  exact .modifySession (fun st => { st with pendingFatal := none }) (fun _ => rfl) (fun _ => rfl)
    fun _ => rfl

theorem mutationFailed (e : MutationError String) :
    Passes scope fun _ => (Step.mutationFailed e : Step α) := by
  refine .bind .store fun s => .bind (.report _ _ _) fun _ => ?_
  cases e with
  | transformRaised rule raised => exact .throw _
  | aborted message => exact .bind .takeFatal fun kept => .fatal _
  | _ => exact .fault _

/-- A change passes on what its transforms raise, and reports what its predicates raise. -/
theorem governed {change : Evaluator → Act Session (MutationError String) α}
    (h : Conveys scope Flight.Fails change) :
    Passes scope fun ev => Step.governed (change ev) := by
  have heq (ev : Evaluator) : Step.governed (change ev) = _ :=
    funext fun w => Simulation.run_governed (change ev) w
  unfold Passes
  simp only [heq]
  refine h.attempt.bind (fun r => ?_) ?_ ?_
  · cases r with
    | ok a => exact Passes.pure a
    | error e => exact Passes.mutationFailed e
  · rintro q e v ⟨-, ⟨⟩, -⟩
  · rintro q x v ⟨-, ⟨⟩, hq, rule, rfl | rfl⟩ ev
    · exact ⟨_, _, rfl, _, rfl, Or.inl rfl⟩
    · exact ⟨_, _, rfl, _, rfl, Or.inr ⟨_, ⟨hq, _, rule, rfl⟩, rfl⟩⟩

theorem change (g : GraphId) (m : Mutation) :
    Passes scope fun ev => Step.governed (Engine.apply (Eval.callback ev) g m) :=
  .governed (Engine.conveys_apply Conveys.callback g m)

theorem setIndex (target index value : Value) :
    Passes scope fun ev => Step.setIndex ev target index value := by
  refine .bind (.container target) fun g => .bind .store fun s => ?_
  dsimp only
  cases (s.get g).kind with
  | list =>
    exact .bind (.ofFault _) fun i => .bind (.map _ (.change g _)) fun _ => .pure _
  | map => exact .bind (.ofFault _) fun k => .bind (.map _ (.change g _)) fun _ => .pure _
  | user name => exact .bind (.fault _) fun _ => .pure _

theorem removeAt (target index : Value) :
    Passes scope fun ev => Step.removeAt ev target index := by
  refine .bind (.container target) fun g => .bind .store fun s => ?_
  dsimp only
  split
  all_goals
    refine .bind (.map _ (.ofFault _)) fun member => .bind (.change g _) fun applied => ?_
    cases applied <;> exact .pure _

theorem addMember (target value : Value) (parent : Option Value) (link : Option String) :
    Passes scope fun ev => Step.addMember ev target value parent link := by
  refine .bind (.container target) fun g => ?_
  dsimp only
  split
  · refine .bind .store fun s => .bind (.ofFault _) fun handle => .bind (.pure _) fun parent => ?_
    refine .bind (.change g _) fun applied => ?_
    cases applied <;> exact .pure _
  · refine .bind (.pure _) fun parent => .bind (.change g _) fun applied => ?_
    cases applied <;> exact .pure _

theorem link (target source end_ : Value) (name : String) (data : Option Value) :
    Passes scope fun ev => Step.link ev target source end_ name data :=
  .bind (.container target) fun g => .bind .store fun _ => .bind (.ofFault _) fun _ =>
    .bind .store fun _ => .bind (.ofFault _) fun _ => .bind (.map _ (.change g _)) fun _ => .pure _

theorem addRule (target : Value) (spec : RuleSpec) (args : List Value) :
    Passes scope fun ev => Step.addRule ev target spec args :=
  .bind (.container target) fun g => .bind (.ofSpec _) fun rule => .bind (.report _ _ _) fun _ =>
    .bind (.governed (Engine.conveys_addRule Conveys.callback g rule)) fun _ => .pure _

theorem defineRuleset (name : String) (specs : List RuleSpec) (args : List Value) :
    Passes scope fun _ => Step.defineRuleset name specs args := by
  refine .bind (.ofSpec _) fun rules => .bind (.report _ _ _) fun _ => .bind ?_ fun _ => .pure _
  exact .lift (.modifySession (fun st => { st with rulesets := st.rulesets.define ⟨name, rules⟩ })
    (fun _ => rfl) (fun _ => rfl) fun _ => rfl)

theorem applyRuleset (target : Value) (name : String) :
    Passes scope fun ev => Step.applyRuleset ev target name := by
  refine .bind (.container target) fun g => .bind .session fun st => ?_
  cases st.rulesets.get? name with
  | none => exact .fault _
  | some set =>
    exact .bind (.governed (Engine.conveys_applyRuleset Conveys.callback g set)) fun _ => .pure _

/-! ### Operations -/

theorem literalKeys (entries : List (Literal × Value)) :
    Passes scope fun _ => Step.literalKeys entries := by
  induction entries with
  | nil => exact .pure _
  | cons entry entries ih =>
    exact .bind .store fun s => .bind (.ofFault _) fun key => .bind ih fun others => .pure _

theorem whileLoop {condition : Evaluator → Step Value} {body : Evaluator → Eval Signal}
    (hcondition : Passes scope condition) (hbody : Conveys scope Flight.Signals body)
    (fuel : Nat) : Passes scope fun ev => Step.whileLoop (condition ev) (body ev) fuel := by
  induction fuel with
  | zero => exact .lift .outOfFuel
  | succ fuel ih =>
    refine .bind hcondition fun c => .bind .store fun s => ?_
    split
    · refine .signal hbody (fun signal => ?_) fun _ _ => rfl
      cases signal with
      | normal v => exact ih
      | continuing => exact ih
      | breaking => exact .pure _
      | _ => exact .throw _
    · exact .pure _

theorem items (x : Value) : Passes scope fun _ => Step.items x := by
  cases x with
  | int n => exact .pure _
  | str t => exact .pure _
  | graph g =>
    refine .bind .store fun s => ?_
    dsimp only
    cases (s.get g).kind <;> exact .pure _
  | _ => exact .bind .store fun s => .fault _

theorem eachLoop (name : String) {body : Evaluator → ScopeId → Eval Signal}
    (hbody : ∀ inner, Conveys inner Flight.Signals fun ev => body ev inner) (fuel : Nat)
    (items : Step.Items) :
    Passes scope fun ev => Step.eachLoop scope name (body ev) fuel items := by
  induction fuel generalizing items with
  | zero => exact .lift .outOfFuel
  | succ fuel ih =>
    unfold Step.eachLoop
    cases items.next? with
    | none => exact .pure _
    | some x =>
      refine .signal (.inScope hbody fun _ h => h) (fun signal => ?_) fun _ _ => rfl
      cases signal with
      | normal v => exact ih x.2
      | continuing => exact ih x.2
      | breaking => exact .pure _
      | _ => exact .throw _

section

variable (code : Code) (n : Nat)

theorem closure (f : FunctionId) : Passes scope fun _ => Step.closure code f scope := by
  unfold Step.closure
  split
  · exact .fatal _
  · exact .bind (.lift (.onScopes fun h => .createClosure h _ _ _)) fun made =>
      .bind (.lift (.ofBinding _)) fun closure => .pure _

theorem define (name : String) (value : Value) (mutable : Bool) :
    Passes scope fun _ => Step.define scope name value mutable :=
  .bind (.lift (.onScopes fun h => .define h _ _ _ _)) fun r =>
    .bind (.map _ (.ofBinding r)) fun _ => .pure _

theorem assign (name : String) (value : Value) :
    Passes scope fun _ => Step.assign scope name value :=
  .bind (.lift (.onScopes fun h => .assign h _ _ _)) fun r =>
    .bind (.map _ (.ofBinding r)) fun _ => .pure _

theorem logical (op : LogicalOp) : Passes scope fun ev => Step.logical ev code n op scope := by
  refine .bind (.role code n .left) fun left => .bind .store fun s => ?_
  cases op
  all_goals
    dsimp only
    split
    · exact .pure _
    · exact .bind (.role code n .right) fun right => .bind .store fun s => .pure _

theorem raiseValue (x : Value) : Passes scope fun _ => Step.raiseValue n x :=
  .bind (.lift (.toException x)) fun _ => .bind (.report _ _ _) fun _ => .throw _

theorem call (callee : Value) (args : List Value) :
    Passes scope fun ev => Step.call ev callee args n :=
  .signal ((Conveys.call callee args (some n)).mono And.left) .ofSignal fun _ _ => rfl

theorem block : Passes scope fun ev => Step.block ev code n scope :=
  .signal (.inScope (fun _ => .statements code _) fun _ h => h) .ofSignal fun _ _ => rfl

end

theorem binary (op : BinaryOp) (left right : Value) :
    Passes scope fun _ => Step.binary op left right := by
  refine of_const (.of_const (Moves.binary op left right) fun {w r v} h hrun => ?_)
  have hstore : Stays w { w with store := (Operators.binary w.store op left right).2 } :=
    .of_eq h.tidy rfl rfl
  exact hstore.trans ((ofFault (Operators.binary w.store op left right).1).stays calm_eval_zero
    (h.stays hstore) hrun)

/-- Every operation but that of a guarded body passes exceptions on. -/
theorem op (fuel : Nat) (code : Code) (n : Nat) {o : Op} (ho : ∀ name, o ≠ .guarded name) :
    Passes scope fun ev => Step.op ev fuel code n scope o := by
  have hrole (r : Role) : Passes scope fun ev => Step.role ev code n r scope := .role code n r
  have hargs : Passes scope fun ev => Step.family ev code n (.argument 0) scope :=
    .family code n _
  cases o with
  | literal l => exact .pure _
  | list =>
    exact .bind (.family code n _) fun vs => .lift (.alloc (Container.frozen_ofElements vs))
  | map keys =>
    exact .bind (.family code n _) fun _ => .bind (.literalKeys _) fun entries =>
      .lift (.alloc (Container.frozen_ofEntries entries))
  | var name => exact .bind .session fun st => .ofBinding _
  | define name mutable => exact .bind (hrole _) fun v => .define name v mutable
  | assign name => exact .bind (hrole _) fun v => .assign name v
  | binary o => exact .bind (hrole _) fun l => .bind (hrole _) fun r => .binary o l r
  | unary o => exact .bind (hrole _) fun v => .bind .store fun s => .ofFault _
  | logical o => exact .logical code n o
  | call => exact .bind (hrole _) fun callee => .bind hargs fun args => .call n callee args
  | function f => exact .closure code f
  | leave => exact .bind (.role? code n _) fun v => .throw _
  | branch =>
    refine .bind (hrole _) fun c => .bind .store fun s => ?_
    split
    · exact hrole _
    · exact .bind (.role? code n _) fun v => .pure _
  | loop =>
    exact .bind (.child code n _) fun body => .whileLoop (hrole _) (.node code body) fuel
  | each name =>
    exact .bind (hrole _) fun target => .bind (.child code n _) fun body =>
      .bind (.items target) fun items => .eachLoop name (fun _ => .node code body) fuel items
  | breakLoop => exact .throw _
  | continueLoop => exact .throw _
  | raise => exact .bind (hrole _) fun v => .raiseValue n v
  | guarded name => exact absurd rfl (ho name)
  | block => exact .block code n
  | index => exact .bind (hrole _) fun t => .bind (hrole _) fun i => .bind .store fun s => .ofFault _
  | setIndex =>
    exact .bind (hrole _) fun t => .bind (hrole _) fun i => .bind (hrole _) fun v => .setIndex t i v
  | append =>
    exact .bind (hrole _) fun t => .bind (hrole _) fun v => .bind (.container t) fun g =>
      .bind (.map _ (.change g _)) fun _ => .pure _
  | removeAt => exact .bind (hrole _) fun t => .bind (hrole _) fun i => .removeAt t i
  | addRule spec => exact .bind (hrole _) fun t => .bind hargs fun args => .addRule t spec args
  | defineRuleset name specs => exact .bind hargs fun args => .defineRuleset name specs args
  | applyRuleset name => exact .bind (hrole _) fun t => .applyRuleset t name
  | freeze =>
    exact .bind (hrole _) fun t => .bind (.container t) fun g =>
      .bind (.governed (.of_const (Engine.settles_freeze g))) fun _ => .pure _
  | newGraph kind => exact .lift (.alloc rfl)
  | addMember name =>
    exact .bind (hrole _) fun t => .bind (hrole _) fun v => .bind (.role? code n _) fun p =>
      .addMember t v p name
  | link name =>
    exact .bind (hrole _) fun t => .bind (hrole _) fun l => .bind (hrole _) fun r =>
      .bind (.role? code n _) fun d => .link t l r name d

end Passes

end GraphLang
