import GraphLang.Proofs.Course.Engine

/-!
# The courses of evaluations

Every operation, every body and every call takes steps of its own between the nodes, bodies and
calls that it asks for.
-/

namespace GraphLang

open Eval

variable {R : Regime}

namespace Steps

variable {ε α β : Type}

/-! ### Steps of the evaluator -/

theorem session : Steps R fun _ => Eval.session := .of_step fun w hw => ⟨_, w, rfl, R.refl hw⟩

theorem evalReport (level : Level) (message : String) (fields : Store → List (String × String)) :
    Steps R fun _ => Eval.report level message fields := .report level Eval.target message fields

theorem onScopes {f : Scopes → Except BindingError α × Scopes}
    (hf : ∀ {w : Machine}, R.inv w → R.rel w (w.withScopes (f w.control.scopes).2)) :
    Steps R fun _ => Eval.onScopes f :=
  .of_step fun _ hw => ⟨_, _, rfl, hf hw⟩

theorem ofBinding (r : Except BindingError α) : Steps R fun _ => Eval.ofBinding r := by
  cases r with
  | ok a => exact .pure a
  | error cause => exact .throw _

theorem ofAttempt (r : Except EvalError α) : Steps R fun _ => Eval.ofAttempt r := by
  cases r with
  | ok a => exact .pure a
  | error e => exact .throw e

theorem bindingStep {f : Scopes → Except BindingError α × Scopes}
    (hf : ∀ {w : Machine}, R.inv w → R.rel w (w.withScopes (f w.control.scopes).2)) :
    Steps R fun _ => Eval.onScopes f >>= Eval.ofBinding := .bind (.onScopes hf) .ofBinding

theorem defineLocals {scope : ScopeId} (hscope : R.own scope) (locals : List (String × Value)) :
    Steps R fun _ => Eval.defineLocals scope locals := by
  induction locals with
  | nil => exact .pure _
  | cons x locals ih =>
    refine .bind ?_ fun _ => ih
    exact .bind (.onScopes fun hw => R.define _ _ _ hw hscope) fun r => .map _ (.ofBinding r)

/-- Variables may be defined in a scope that was just opened. -/
theorem push_bind (parent : ScopeId) (kind : ScopeKind) {f : Evaluator → ScopeId → Eval α}
    (hf : ∀ scope, R.own scope → Steps R fun ev => f ev scope) :
    Steps R fun ev => Eval.pushScope parent kind >>= f ev := by
  intro w hw
  obtain ⟨hrel, hown⟩ := R.push parent kind hw
  cases hpush : (w.control.scopes.push parent kind).1 with
  | error cause =>
    refine .of_eq (.done (r := Except.error (.scope cause)) hrel) fun ev => ?_
    dsimp only
    rw [Act.run_bind, run_pushScope, hpush]
    rfl
  | ok scope =>
    refine .of_eq ((hf scope (hown scope hpush) _ (R.holds hrel)).after hrel) fun ev => ?_
    dsimp only
    rw [Act.run_bind, run_pushScope, hpush]
    rfl

theorem enterScope_bind (parent : ScopeId) (kind : ScopeKind) (locals : List (String × Value))
    {f : Evaluator → ScopeId → Eval α} (hf : ∀ scope, R.own scope → Steps R fun ev => f ev scope) :
    Steps R fun ev => Eval.enterScope parent kind locals >>= f ev := by
  have hopened : Steps R fun ev => Eval.pushScope parent kind >>= fun scope =>
      Eval.defineLocals scope locals >>= fun _ => f ev scope :=
    .push_bind parent kind fun scope hscope =>
      .bind (.defineLocals hscope locals) fun _ => hf scope hscope
  unfold Eval.enterScope
  simpa only [bind_assoc, pure_bind] using hopened

theorem enterScope (parent : ScopeId) (kind : ScopeKind) (locals : List (String × Value)) :
    Steps R fun _ => Eval.enterScope parent kind locals := by
  have hopened : Steps R fun _ => Eval.enterScope parent kind locals >>= fun scope =>
      (Pure.pure scope : Eval ScopeId) := .enterScope_bind parent kind locals fun scope _ => .pure scope
  simpa only [bind_pure] using hopened

theorem inScope (parent : ScopeId) (kind : ScopeKind) (locals : List (String × Value))
    {body : Evaluator → ScopeId → Eval α}
    (h : ∀ scope, R.own scope → Steps R fun ev => body ev scope) :
    Steps R fun ev => Eval.inScope parent kind locals (body ev) :=
  .enterScope_bind parent kind locals fun scope hscope => .bind (h scope hscope).attempt fun r =>
    .bind (.bindingStep (R.pop scope)) fun _ => .ofAttempt r

theorem unit (id : UnitId) : Steps R fun _ => Eval.unit id := by
  refine .bind .session fun st => ?_
  cases st.units[id]? with
  | none => exact .throw _
  | some loaded => exact .pure loaded

theorem faultException (f : Fault) :
    Steps R fun _ => (Act.faultException f : Act Session ε Value) := .newException _ _ _ _

/-- A frame is opened with the next number, and left again. -/
theorem inFrame {site : CallSite} {body : Evaluator → Eval α} (h : Steps R body) {w : Machine}
    (hw : R.inv w) (hsite : site.frame = w.control.nextFrame) :
    Course R w fun ev => Eval.inFrame site (body ev) w := by
  have hrest : Steps R fun ev => Act.attempt (body ev) >>= fun r =>
      modifySession (fun st => { st with frames := st.frames.tail }) >>= fun _ =>
        Eval.ofAttempt r := by
    refine h.attempt.bind fun r => .bind ?_ fun _ => .ofAttempt r
    exact .of_step fun w hw => ⟨_, _, rfl, R.unframed hw⟩
  have hopened := R.framed hw hsite
  exact .of_eq ((hrest (w.framed site) (R.holds hopened)).after hopened) fun _ => rfl

/-- Reading the state of the evaluator. -/
theorem session_bind {f : Evaluator → Session → Eval α} {w : Machine}
    (h : Course R w fun ev => f ev w.control w) : Course R w fun ev => (Eval.session >>= f ev) w :=
  .of_eq h fun _ => rfl

/-! ### Calls -/

/-- A procedure of the host is called in one step. -/
theorem hostNative (name : String) (arity : Option Nat) (args : List Value) :
    Steps R fun _ => ((Native.host name arity).call args : Act Session ε (Except Value Value)) :=
  .of_step fun w hw => ⟨_, w.withStore (w.natives name args w.store).2, rfl,
    R.withStore hw (.native name args)⟩

theorem native (n : Native) (args : List Value) :
    Steps R fun _ => (n.call args : Act Session ε (Except Value Value)) := by
  have hfault (f : Fault) : Steps R fun _ => (Act.nativeFault f : Act Session ε _) :=
    .bind (.faultException f) fun x => .pure _
  have halloc (values : List Value) : Steps R fun _ => (do
      return Except.ok (← Act.alloc (.ofElements values)) :
      Act Session ε (Except Value Value)) :=
    .bind (.alloc (Container.frozen_ofElements values)) fun x => .pure _
  cases n with
  | host name arity => exact .hostNative name arity args
  | print =>
    refine .bind .store fun s => .bind (.report _ _ _ _) fun _ => .bind ?_ fun _ => .pure _
    exact .of_step fun w hw => ⟨_, _, rfl, R.aside hw rfl rfl rfl rfl rfl⟩
  | len =>
    refine .bind .store fun s => ?_
    dsimp only
    cases args.headD .nil with
    | graph g => exact .pure _
    | str t => exact .pure _
    | _ => exact hfault _
  | str => exact .bind .store fun s => .pure _
  | typeOf => exact .bind .store fun s => .pure _
  | range =>
    refine .bind .store fun s => ?_
    dsimp only
    cases args.headD .nil with
    | int n => exact halloc _
    | _ => exact hfault _
  | keys =>
    refine .bind .store fun s => ?_
    dsimp only
    cases args.headD .nil with
    | graph g =>
      dsimp only
      cases (s.get g).kind with
      | map => exact halloc _
      | _ => exact hfault _
    | _ => exact hfault _
  | exception =>
    refine .bind .store fun s => ?_
    dsimp only
    cases args.headD .nil with
    | str kind => exact .bind (.newException _ _ _ _) fun x => .pure _
    | _ => exact hfault _
  | isFrozen =>
    refine .bind .store fun s => ?_
    dsimp only
    cases args.headD .nil with
    | graph g => exact .pure _
    | _ => exact .pure _

theorem toException (v : Value) : Steps R fun _ => Step.toException v := by
  unfold Step.toException
  split
  · exact .pure _
  · exact .bind .store fun s => .newException _ _ _ _

theorem statements (code : Code) {scope : ScopeId} (hscope : R.own scope)
    (cs : List (Role × Nat)) : Steps R fun ev => Eval.statements ev code scope cs := by
  induction cs with
  | nil => exact .pure _
  | cons c cs ih =>
    refine .bind (.ask (.node code c.2 scope) (Or.inl hscope)) fun s => ?_
    cases s with
    | normal v => exact ih
    | _ => exact .pure _

theorem body (code : Code) (root : Nat) {scope : ScopeId} (hscope : R.own scope) :
    Steps R fun ev => Eval.body ev code root scope := by
  unfold Eval.body
  split
  · exact .statements code hscope _
  · exact .ask (.node code root scope) (Or.inl hscope)

theorem leaveFunction (site : CallSite) (name : String) (s : Signal) :
    Steps R fun _ => Eval.leaveFunction site name s := by
  cases s with
  | normal v => exact .pure _
  | returning v => exact .pure _
  | raised r => exact .pure _
  | _ => exact .throw _

theorem callFunction (f : FunctionValue) (args : List Value) (callNode : Option Nat) :
    Steps R fun ev => Eval.callFunction ev f args callNode := by
  refine .bind .session fun st => ?_
  dsimp only
  split
  · exact .bind (.evalReport _ _ _) fun _ => .throw _
  refine .bind (.unit f.unit) fun loaded => ?_
  cases loaded.program.function? f.function with
  | none => exact .throw _
  | some d =>
    dsimp only
    split
    · exact .bind (.faultException _) fun x => .pure _
    cases d.body with
    | none => exact .throw _
    | some root =>
      refine .bind .session fun st => .bind (.ofBinding _) fun defining => ?_
      refine .inScope _ _ _ fun scope hscope w hw => session_bind ?_
      refine (inFrame ?_ hw rfl).bind fun s => .leaveFunction _ _ s
      refine .bind .session fun st => .bind (.evalReport _ _ _) fun _ => ?_
      exact .ask (.body ⟨f.unit, loaded.program⟩ root scope) hscope

theorem call (callee : Value) (args : List Value) (callNode : Option Nat) :
    Steps R fun ev => Eval.call ev callee args callNode := by
  cases callee with
  | function f => exact .ask (.call f args callNode) trivial
  | native n =>
    unfold Eval.call
    dsimp only
    cases n.arity with
    | none =>
      refine .bind (.evalReport _ _ _) fun _ => .bind (.native n args) fun r => ?_
      cases r with
      | ok v => exact .pure _
      | error v => exact .bind (.toException v) fun x => .pure _
    | some arity =>
      dsimp only
      split
      · exact .bind (.faultException _) fun x => .pure _
      refine .bind (.evalReport _ _ _) fun _ => .bind (.native n args) fun r => ?_
      cases r with
      | ok v => exact .pure _
      | error v => exact .bind (.toException v) fun x => .pure _
  | _ => exact .bind .store fun s => .bind (.faultException _) fun x => .pure _

theorem leaveCallback (r : Except EvalError Signal) : Steps R fun _ => Eval.leaveCallback r := by
  cases r with
  | error e =>
    refine .bind .store fun s => .bind ?_ fun _ => .throw _
    exact .of_step fun w hw => ⟨_, _, rfl, R.aside hw rfl rfl rfl rfl rfl⟩
  | ok s =>
    cases s with
    | normal v => exact .pure _
    | _ => exact .throw _

/-- The callbacks of rules. -/
theorem callback (callee : Value) (args : List Value) :
    Steps R fun ev => Eval.callback ev callee args :=
  .bind (.attempt (.call callee args none)) .leaveCallback

end Steps

/-! ### Steps that may leave the normal course -/

/-- What two operands give may be a new container. -/
theorem Store.advances_binary (natives : String → HostNative) (s : Store) (op : BinaryOp)
    (left right : Value) : s.Advances natives (Operators.binary s op left right).2 := by
  have hsame : s.Advances natives s := .of_graphs rfl
  unfold Operators.binary
  split
  · exact hsame
  · exact hsame
  · exact hsame
  · exact hsame
  · exact hsame
  · exact hsame
  · split
    · exact hsame
    · exact hsame
    · split
      · exact .alloc (Container.frozen_ofElements _)
      · exact hsame
    · split <;> exact hsame

/-- A step that has a course from every world of the regime. -/
def Moves (R : Regime) {α : Type} (step : Evaluator → Step α) : Prop :=
  ∀ w, R.inv w → Course R w fun ev => step ev w

namespace Moves

variable {α β : Type}

theorem pure (x : α) : Moves R fun _ => (Pure.pure x : Step α) :=
  fun _ hw => .done (R.refl hw)

theorem throw (s : Signal) : Moves R fun _ => (MonadExcept.throw s : Step α) :=
  fun _ hw => .done (R.refl hw)

theorem fatal (e : EvalError) : Moves R fun _ => (Step.fatal e : Step α) :=
  fun _ hw => .done (R.refl hw)

theorem lift {action : Evaluator → Eval α} (h : Steps R action) :
    Moves R fun ev => Step.lift (action ev) := by
  intro w hw
  refine .of_eq (h.bind (fun x => .pure (Except.ok x : Except Signal α)) w hw) fun ev => ?_
  exact congrFun (map_eq_pure_bind Except.ok (action ev)) w

theorem bind {a : Evaluator → Step α} {f : Evaluator → α → Step β} (ha : Moves R a)
    (hf : ∀ x, Moves R fun ev => f ev x) : Moves R fun ev => a ev >>= f ev := by
  intro w hw
  let next (ev : Evaluator) (r : Except Signal α) : Eval (Except Signal β) :=
    ExceptT.bindCont (f ev) r
  have hnext (r : Except Signal α) : Steps R fun ev => next ev r := by
    cases r with
    | error s => exact .pure _
    | ok x => exact hf x
  exact (ha w hw).bind hnext

theorem map (f : α → β) {a : Evaluator → Step α} (ha : Moves R a) :
    Moves R fun ev => f <$> a ev := by
  simp only [map_eq_pure_bind]
  exact ha.bind fun x => .pure (f x)

theorem store : Moves R fun _ => Step.store := .lift .store

theorem session : Moves R fun _ => Step.session := .lift .session

theorem report (level : Level) (message : String) (fields : Store → List (String × String)) :
    Moves R fun _ => Step.report level message fields := .lift (.evalReport level message fields)

theorem ofSignal (s : Signal) : Moves R fun _ => Step.ofSignal s := by
  cases s with
  | normal v => exact .pure v
  | _ => exact .throw _

theorem fault (f : Fault) : Moves R fun _ => (Step.fault f : Step α) :=
  .bind (.lift (.faultException f)) fun _ => .throw _

theorem ofFault (r : Except Fault α) : Moves R fun _ => Step.ofFault r := by
  cases r with
  | ok a => exact .pure a
  | error f => exact .fault f

theorem ofBinding (r : Except BindingError α) : Moves R fun _ => Step.ofBinding r := by
  cases r with
  | ok a => exact .pure a
  | error cause =>
    cases cause with
    | unbound name => exact .fault _
    | immutable name => exact .fault _
    | _ => exact .fatal _

theorem ofSpec (r : Except SpecError α) : Moves R fun _ => Step.ofSpec r := by
  cases r with
  | ok a => exact .pure a
  | error cause => exact .fault _

theorem container (v : Value) : Moves R fun _ => Step.container v := by
  cases v with
  | graph g => exact .pure g
  | _ => exact .bind .store fun s => .fault _

/-! ### Children -/

section

variable {code : Code} {n : Nat} {scope : ScopeId} {o : Op}

theorem child (code : Code) (n : Nat) (r : Role) : Moves R fun _ => Step.child code n r := by
  unfold Step.child
  split
  · exact .pure _
  · exact .fatal _

/-- What comes after a child was found. -/
theorem child_bind (r : Role) {f : Evaluator → Nat → Step α}
    (hf : ∀ c, (r, c) ∈ code.program.graph.ties n → Moves R fun ev => f ev c) :
    Moves R fun ev => Step.child code n r >>= f ev := by
  unfold Step.child
  split
  · next c hc =>
    have hfound : Moves R fun ev => (Pure.pure c : Step Nat) >>= f ev := by
      simpa only [pure_bind] using hf c (Program.mem_ties_of_child? hc)
    exact hfound
  · exact fun w hw => .of_eq (.done (R.refl hw)) fun _ => rfl

theorem node (h : R.Allows (.node code n scope)) : Moves R fun ev => Step.node ev code n scope :=
  .bind (.lift (.ask (.node code n scope) h)) .ofSignal

theorem nodes {cs : List (Role × Nat)} (h : ∀ c ∈ cs, R.Allows (.node code c.2 scope)) :
    Moves R fun ev => Step.nodes ev code scope cs := by
  induction cs with
  | nil => exact .pure _
  | cons c cs ih =>
    refine .bind (.node (h c List.mem_cons_self)) fun v => .bind (ih fun c hc => ?_) fun vs => .pure _
    exact h c (List.mem_cons_of_mem _ hc)

section

variable (h : R.Allows (.node code n scope)) (ho : code.program.op? n = some o)

include h ho

theorem role (r : Role) (hshares : o.Shares r) : Moves R fun ev => Step.role ev code n r scope :=
  .child_bind r fun _ hc => .node (h.child ho hshares hc)

theorem role? (r : Role) (hshares : o.Shares r) :
    Moves R fun ev => Step.role? ev code n r scope := by
  unfold Step.role?
  split
  · next c hc =>
    exact .bind (.node (h.child ho hshares (Program.mem_ties_of_child? hc))) fun v => .pure _
  · exact .pure _

theorem family (r : Role) (hshares : ∀ r', r'.sameFamily r = true → o.Shares r') :
    Moves R fun ev => Step.family ev code n r scope := by
  refine .nodes fun c hc => ?_
  exact h.child ho (hshares c.1 (List.mem_filter.1 hc).2) (Program.mem_ties_of_indexed hc)

end

end

/-! ### Changes under rules -/

theorem takeFatal : Moves R fun _ => Step.lift Eval.takeFatal := by
  refine .lift (.bind .session fun st => .bind ?_ fun _ => .pure _)
  exact .of_step fun w hw => ⟨_, _, rfl, R.aside hw rfl rfl rfl rfl rfl⟩

theorem mutationFailed (e : MutationError String) :
    Moves R fun _ => (Step.mutationFailed e : Step α) := by
  refine .bind .store fun s => .bind (.report _ _ _) fun _ => ?_
  cases e with
  | transformRaised rule raised => exact .throw _
  | aborted message => exact .bind .takeFatal fun kept => .fatal _
  | _ => exact .fault _

theorem governed {change : Evaluator → Act Session (MutationError String) α} (h : Steps R change) :
    Moves R fun ev => Step.governed (change ev) := by
  refine .bind (.lift h.attempt) fun r => ?_
  cases r with
  | ok a => exact .pure a
  | error e => exact .mutationFailed e

theorem change (g : GraphId) (m : Mutation) :
    Moves R fun ev => Step.governed (Engine.apply (Eval.callback ev) g m) :=
  .governed (Engine.steps_apply Steps.callback g m)

theorem setIndex (target index value : Value) :
    Moves R fun ev => Step.setIndex ev target index value := by
  refine .bind (.container target) fun g => .bind .store fun s => ?_
  dsimp only
  cases (s.get g).kind with
  | list =>
    exact .bind (.ofFault _) fun i => .bind (.map _ (.change g _)) fun _ => .pure _
  | map => exact .bind (.ofFault _) fun k => .bind (.map _ (.change g _)) fun _ => .pure _
  | user name => exact .bind (.fault _) fun _ => .pure _

theorem removeAt (target index : Value) : Moves R fun ev => Step.removeAt ev target index := by
  refine .bind (.container target) fun g => .bind .store fun s => ?_
  dsimp only
  split
  all_goals
    refine .bind (.map _ (.ofFault _)) fun member => .bind (.change g _) fun applied => ?_
    cases applied <;> exact .pure _

theorem addMember (target value : Value) (parent : Option Value) (link : Option String) :
    Moves R fun ev => Step.addMember ev target value parent link := by
  refine .bind (.container target) fun g => ?_
  dsimp only
  split
  · refine .bind .store fun s => .bind (.ofFault _) fun handle => .bind (.pure _) fun parent => ?_
    refine .bind (.change g _) fun applied => ?_
    cases applied <;> exact .pure _
  · refine .bind (.pure _) fun parent => .bind (.change g _) fun applied => ?_
    cases applied <;> exact .pure _

theorem link (target source end_ : Value) (name : String) (data : Option Value) :
    Moves R fun ev => Step.link ev target source end_ name data :=
  .bind (.container target) fun g => .bind .store fun _ => .bind (.ofFault _) fun _ =>
    .bind .store fun _ => .bind (.ofFault _) fun _ => .bind (.map _ (.change g _)) fun _ => .pure _

theorem addRule (target : Value) (spec : RuleSpec) (args : List Value) :
    Moves R fun ev => Step.addRule ev target spec args :=
  .bind (.container target) fun g => .bind (.ofSpec _) fun rule => .bind (.report _ _ _) fun _ =>
    .bind (.governed (Engine.steps_addRule Steps.callback g rule)) fun _ => .pure _

theorem defineRuleset (name : String) (specs : List RuleSpec) (args : List Value) :
    Moves R fun _ => Step.defineRuleset name specs args := by
  refine .bind (.ofSpec _) fun rules => .bind (.report _ _ _) fun _ => .bind ?_ fun _ => .pure _
  exact .lift (.of_step fun w hw => ⟨_, _, rfl, R.aside hw rfl rfl rfl rfl rfl⟩)

theorem applyRuleset (target : Value) (name : String) :
    Moves R fun ev => Step.applyRuleset ev target name := by
  refine .bind (.container target) fun g => .bind .session fun st => ?_
  cases st.rulesets.get? name with
  | none => exact .fault _
  | some set =>
    exact .bind (.governed (Engine.steps_applyRuleset Steps.callback g set)) fun _ => .pure _

/-! ### Operations -/

theorem literalKeys (entries : List (Literal × Value)) :
    Moves R fun _ => Step.literalKeys entries := by
  induction entries with
  | nil => exact .pure _
  | cons entry entries ih =>
    exact .bind .store fun s => .bind (.ofFault _) fun key => .bind ih fun others => .pure _

theorem whileLoop {condition : Evaluator → Step Value} {body : Evaluator → Eval Signal}
    (hcondition : Moves R condition) (hbody : Steps R body) (fuel : Nat) :
    Moves R fun ev => Step.whileLoop (condition ev) (body ev) fuel := by
  induction fuel with
  | zero => exact .lift .outOfFuel
  | succ fuel ih =>
    refine .bind hcondition fun c => .bind .store fun s => ?_
    split
    · refine .bind (.lift hbody) fun signal => ?_
      cases signal with
      | normal v => exact ih
      | continuing => exact ih
      | breaking => exact .pure _
      | _ => exact .throw _
    · exact .pure _

theorem items (v : Value) : Moves R fun _ => Step.items v := by
  cases v with
  | int n => exact .pure _
  | str t => exact .pure _
  | graph g =>
    refine .bind .store fun s => ?_
    dsimp only
    cases (s.get g).kind <;> exact .pure _
  | _ => exact .bind .store fun s => .fault _

theorem eachLoop (scope : ScopeId) (name : String) {body : Evaluator → ScopeId → Eval Signal}
    (hbody : ∀ inner, R.own inner → Steps R fun ev => body ev inner) (fuel : Nat)
    (items : Step.Items) :
    Moves R fun ev => Step.eachLoop scope name (body ev) fuel items := by
  induction fuel generalizing items with
  | zero => exact .lift .outOfFuel
  | succ fuel ih =>
    unfold Step.eachLoop
    cases items.next? with
    | none => exact .pure _
    | some x =>
      refine .bind (.lift (.inScope scope .loop [(name, x.1)] hbody)) fun signal => ?_
      cases signal with
      | normal v => exact ih x.2
      | continuing => exact ih x.2
      | breaking => exact .pure _
      | _ => exact .throw _

theorem withPath (exception : Value) (path : List CallSite) :
    Steps R fun _ => Step.withPath exception path := by
  unfold Step.withPath
  split
  · exact .newException _ _ _ _
  · exact .pure _

theorem handle (code : Code) (n : Nat) (scope : ScopeId) (handler : Nat)
    (catchName : Option String) (raised : Raised) :
    Steps R fun ev => Step.handle ev code n handler catchName scope raised :=
  .bind .session fun _ => .bind (withPath _ _) fun _ => .bind (.evalReport _ _ _) fun _ =>
    .inScope _ _ _ fun inner hinner => .ask (.node code handler inner) (Or.inl hinner)

section

variable {code : Code} {n : Nat} {scope : ScopeId}

theorem guarded {catchName : Option String} (h : R.Allows (.node code n scope))
    (ho : code.program.op? n = some (.guarded catchName)) :
    Moves R fun ev => Step.guarded ev code n catchName scope := by
  refine .child_bind .body fun body hbody => ?_
  refine .bind (.lift (.ask (.node code body scope) (h.child (r := .body) ho nofun hbody)))
    fun first => ?_
  dsimp only
  split
  all_goals
    refine .bind (by first | exact .lift (handle code n scope _ catchName _) | exact .pure _)
      fun signal => ?_
    split
    · exact .ofSignal signal
    · next finalizer hfinalizer =>
      have hlater : R.Allows (.node code finalizer scope) :=
        h.child (r := .finalizer) ho nofun (Program.mem_ties_of_child? hfinalizer)
      refine .bind (.lift (.ask (.node code finalizer scope) hlater)) fun after => ?_
      split
      · exact .ofSignal signal
      · exact .throw _

theorem logical {o : LogicalOp} (h : R.Allows (.node code n scope))
    (ho : code.program.op? n = some (.logical o)) :
    Moves R fun ev => Step.logical ev code n o scope := by
  refine .bind (.role h ho .left trivial) fun left => .bind .store fun s => ?_
  cases o
  all_goals
    dsimp only
    split
    · exact .pure _
    · exact .bind (.role h ho .right trivial) fun right => .bind .store fun s => .pure _

end

theorem closure (code : Code) (scope : ScopeId) (f : FunctionId) :
    Moves R fun _ => Step.closure code f scope := by
  unfold Step.closure
  split
  · exact .fatal _
  · exact .bind (.lift (.onScopes (R.createClosure _ _ _))) fun made =>
      .bind (.lift (.ofBinding _)) fun closure => .pure _

theorem define {scope : ScopeId} (hscope : R.own scope) (name : String) (value : Value)
    (mutable : Bool) : Moves R fun _ => Step.define scope name value mutable :=
  .bind (.lift (.onScopes fun hw => R.define _ _ _ hw hscope)) fun r =>
    .bind (.map _ (.ofBinding r)) fun _ => .pure _

theorem assign (scope : ScopeId) (name : String) (value : Value) :
    Moves R fun _ => Step.assign scope name value :=
  .bind (.lift (.onScopes (R.assign _ _ _))) fun r => .bind (.map _ (.ofBinding r)) fun _ => .pure _

theorem raiseValue (n : Nat) (v : Value) : Moves R fun _ => Step.raiseValue n v :=
  .bind (.lift (.toException v)) fun _ => .bind (.report _ _ _) fun _ => .throw _

theorem call (callee : Value) (args : List Value) (n : Nat) :
    Moves R fun ev => Step.call ev callee args n :=
  .bind (.lift (.call callee args (some n))) .ofSignal

/-- The statements of a block may define variables in the scope of the block. -/
theorem block (code : Code) (n : Nat) (scope : ScopeId) :
    Moves R fun ev => Step.block ev code n scope :=
  .bind (.lift (.inScope scope .block [] fun _ hinner => .statements code hinner _)) .ofSignal

theorem binary (op : BinaryOp) (left right : Value) :
    Moves R fun _ => Step.binary op left right := by
  intro w hw
  have hresult := R.withStore hw (Store.advances_binary w.natives w.store op left right)
  exact .of_eq ((Moves.ofFault (Operators.binary w.store op left right).1 _ (R.holds hresult)).after
    hresult) fun _ => rfl

/-- An operation evaluates children in the scope of the node, or in scopes that it opens. -/
theorem op (fuel : Nat) {code : Code} {n : Nat} {scope : ScopeId} {o : Op}
    (h : R.Allows (.node code n scope)) (ho : code.program.op? n = some o) :
    Moves R fun ev => Step.op ev fuel code n scope o := by
  have hrole (r : Role) (hshares : o.Shares r) : Moves R fun ev => Step.role ev code n r scope :=
    .role h ho r hshares
  have hrole? (r : Role) (hshares : o.Shares r) : Moves R fun ev => Step.role? ev code n r scope :=
    .role? h ho r hshares
  have hfamily (r : Role) (hshares : ∀ r, o.Shares r) :
      Moves R fun ev => Step.family ev code n r scope := .family h ho r fun r' _ => hshares r'
  cases o with
  | literal l => exact .pure _
  | list =>
    exact .bind (hfamily _ fun _ => trivial) fun vs => .lift (.alloc (Container.frozen_ofElements vs))
  | map keys =>
    exact .bind (hfamily _ fun _ => trivial) fun _ => .bind (.literalKeys _) fun entries =>
      .lift (.alloc (Container.frozen_ofEntries entries))
  | var name => exact .bind .session fun st => .ofBinding _
  | define name mutable =>
    exact .bind (hrole _ trivial) fun v => .define (h.own_of_define ho) name v mutable
  | assign name => exact .bind (hrole _ trivial) fun v => .assign scope name v
  | binary o =>
    exact .bind (hrole _ trivial) fun l => .bind (hrole _ trivial) fun r => .binary o l r
  | unary o => exact .bind (hrole _ trivial) fun v => .bind .store fun s => .ofFault _
  | logical o => exact .logical h ho
  | call =>
    exact .bind (hrole _ (Or.inl rfl)) fun callee => .bind (.family h ho _ fun _ => Or.inr)
      fun args => .call callee args n
  | function f => exact .closure code scope f
  | leave => exact .bind (hrole? _ trivial) fun v => .throw _
  | branch =>
    refine .bind (hrole _ trivial) fun c => .bind .store fun s => ?_
    split
    · exact hrole _ trivial
    · exact .bind (hrole? _ trivial) fun v => .pure _
  | loop =>
    exact .child_bind _ fun body hbody => .whileLoop (hrole _ trivial)
      (.ask (.node code body scope) (h.child ho trivial hbody)) fuel
  | each name =>
    exact .bind (hrole _ rfl) fun target => .bind (.child code n _) fun body =>
      .bind (.items target) fun items => .eachLoop scope name
        (fun inner hinner => .ask (.node code body inner) (Or.inl hinner)) fuel items
  | breakLoop => exact .throw _
  | continueLoop => exact .throw _
  | raise => exact .bind (hrole _ trivial) fun v => .raiseValue n v
  | guarded name => exact .guarded h ho
  | block => exact .block code n scope
  | index =>
    exact .bind (hrole _ trivial) fun t => .bind (hrole _ trivial) fun i => .bind .store fun s =>
      .ofFault _
  | setIndex =>
    exact .bind (hrole _ trivial) fun t => .bind (hrole _ trivial) fun i =>
      .bind (hrole _ trivial) fun v => .setIndex t i v
  | append =>
    exact .bind (hrole _ trivial) fun t => .bind (hrole _ trivial) fun v =>
      .bind (.container t) fun g => .bind (.map _ (.change g _)) fun _ => .pure _
  | removeAt =>
    exact .bind (hrole _ trivial) fun t => .bind (hrole _ trivial) fun i => .removeAt t i
  | addRule spec =>
    exact .bind (hrole _ trivial) fun t => .bind (hfamily _ fun _ => trivial) fun args =>
      .addRule t spec args
  | defineRuleset name specs =>
    exact .bind (hfamily _ fun _ => trivial) fun args => .defineRuleset name specs args
  | applyRuleset name => exact .bind (hrole _ trivial) fun t => .applyRuleset t name
  | freeze =>
    exact .bind (hrole _ trivial) fun t => .bind (.container t) fun g =>
      .bind (.governed (Engine.steps_freeze g)) fun _ => .pure _
  | newGraph kind => exact .lift (.alloc rfl)
  | addMember name =>
    exact .bind (hrole _ trivial) fun t => .bind (hrole _ trivial) fun v =>
      .bind (hrole? _ trivial) fun p => .addMember t v p name
  | link name =>
    exact .bind (hrole _ trivial) fun t => .bind (hrole _ trivial) fun l =>
      .bind (hrole _ trivial) fun r => .bind (hrole? _ trivial) fun d => .link t l r name d

end Moves

namespace Steps

theorem toSignal {step : Evaluator → Step Value} (h : Moves R step) :
    Steps R fun ev => (step ev).toSignal := by
  intro w hw
  refine Course.bind (h w hw) fun r => ?_
  cases r <;> exact .pure _

theorem record (code : Code) (n : Nat) (o : Op) (s : Signal) :
    Steps R fun _ => Eval.record code n o s := by
  refine .of_step fun w hw => ⟨_, w.recorded code n o s, rfl, ?_⟩
  obtain ⟨trace, hquiet⟩ := w.recorded_eq_quiet code n o s
  rw [hquiet]
  exact R.aside hw rfl rfl rfl rfl rfl

/-- Evaluating a node asks for other ones. -/
theorem node (fuel : Nat) {code : Code} {n : Nat} {scope : ScopeId}
    (h : R.Allows (.node code n scope)) : Steps R fun ev => Eval.node ev fuel code n scope := by
  unfold Eval.node
  split
  · exact .throw _
  · next o ho =>
    exact .bind (.evalReport _ _ _) fun _ => .bind (.toSignal (.op fuel h ho)) fun s =>
      .bind (.record _ _ _ _) fun _ => .pure _

/-! ### Runs and calls of the host -/

theorem leaveUnit (site : CallSite) (s : Signal) : Steps R fun _ => Eval.leaveUnit site s := by
  cases s with
  | normal v => exact .pure _
  | returning v => exact .pure _
  | raised r => exact .bind (.evalReport _ _ _) fun _ => .throw _
  | _ => exact .throw _

theorem runBy (hfree : R.Free) (id : UnitId) : Steps R fun ev => Eval.runBy ev id := by
  refine .bind (.unit id) fun loaded => ?_
  cases (loaded.program.function? mainId).bind (·.body) with
  | none => exact .throw _
  | some root =>
    refine fun w hw => session_bind ?_
    have hbody : R.Allows (.body ⟨id, loaded.program⟩ root loaded.scope) := hfree.own _
    exact (inFrame (.ask _ hbody) hw rfl).bind fun s => .leaveUnit _ s

theorem callBy (callee : Value) (args : List Value) :
    Steps R fun ev => Eval.callBy ev callee args := by
  refine .bind (.call callee args none) fun s => ?_
  cases s with
  | normal v => exact .pure _
  | _ => exact .throw _

end Steps

end GraphLang
