import GraphLang.Proofs.Bridge.Engine

/-!
# Calls across a bridge

Natives, functions and callbacks that are called alike come to corresponding results. Procedures of
the host are left out, as they may look at the numbers of closures.
-/

namespace GraphLang

variable {B C : Bridge} {ε α β : Type} {F : Span ε} {A : Span α} {D : Span β}

/-! ### Natives -/

/-- Both natives give corresponding results, or raise corresponding values. -/
def Native.Answers : Span (Except Value Value) :=
  fun B => Outcomes (Value.Across B) (Value.Across B)

namespace Native

theorem tracks_nativeFault (f : Fault) :
    Act.Tracks B F Answers (Act.nativeFault f) (Act.nativeFault f) :=
  .bind (.faultException f) fun _ _ _ hx => .pure fun hCE => .error (hx.mono hCE)

theorem tracks_nativeAlloc {c c' : Container} (hc : c.Across B c') (hneat : c.Neat) :
    Act.Tracks B F Answers (do return .ok (← Act.alloc c)) (do return .ok (← Act.alloc c')) :=
  .bind (.alloc hc hneat) fun _ _ _ hx => .pure fun hCE => .ok (hx.mono hCE)

theorem tracks_call {n : Native} (hn : ∀ name arity, n ≠ .host name arity)
    {args args' : List Value} (hargs : Span.each Value.Across B args args') :
    Act.Tracks B F Answers (n.call args) (n.call args') := by
  refine .bind .store fun {C} hBC s s' hs => ?_
  have hargs := Value.grows_across.each hBC hargs
  have hgiven {args args' : List Value} (hargs : Span.each Value.Across C args args') :
      (args.headD .nil).Across C (args'.headD .nil) := by
    cases hargs with
    | nil => exact .nil
    | cons hv => exact hv
  have hfirst := hgiven hargs
  have hsecond := hgiven (List.forall₂_drop 1 hargs)
  have hlist {vs : List Value} (hvs : ∀ v ∈ vs, v.Across C v) :
      Act.Tracks C F Answers (do return .ok (← Act.alloc (.ofElements vs)))
        (do return .ok (← Act.alloc (.ofElements vs))) :=
    tracks_nativeAlloc (.ofElements (List.forall₂_same.2 hvs)) (.ofElements vs)
  have htype := hs.typeOf hfirst
  dsimp only
  generalize args.headD .nil = v, args'.headD .nil = v' at hfirst htype
  cases n with
  | print =>
    have hline : args'.map s'.display = args.map s.display := hargs.map_eq fun hv => hs.display hv
    dsimp only
    rw [hline]
    refine .bind .say fun _ _ _ _ => ?_
    refine .bind (.modify fun _ w w' hw => ?_) fun _ _ _ _ => .pure fun _ => .ok .nil
    exact ⟨hw.store, congrArg (Array.push · _) hw.output, hw.verbosity, hw.events, hw.control⟩
  | len =>
    cases hfirst with
    | graph hg =>
      dsimp only
      rw [(hs.container hg).size]
      exact .pure fun _ => .ok (.int _)
    | str t => exact .pure fun _ => .ok (.int _)
    | _ => exact tracks_nativeFault _
  | str =>
    dsimp only
    rw [hs.display hfirst]
    exact .pure fun _ => .ok (.str _)
  | typeOf =>
    dsimp only [Store.typeName]
    rw [htype]
    exact .pure fun _ => .ok (.str _)
  | range =>
    cases hfirst with
    | int n =>
      refine hlist fun v hv => ?_
      obtain ⟨i, -, rfl⟩ := List.mem_map.1 hv
      exact .int _
    | _ =>
      dsimp only
      rw [htype]
      exact tracks_nativeFault _
  | keys =>
    cases hfirst with
    | graph hg =>
      have hc := hs.container hg
      dsimp only
      rw [hc.kind, hc.keys, htype]
      split
      · refine hlist fun v hv => ?_
        obtain ⟨key, -, rfl⟩ := List.mem_map.1 hv
        exact .key key
      · exact tracks_nativeFault _
    | _ => exact tracks_nativeFault _
  | exception =>
    cases hfirst with
    | str kind =>
      dsimp only
      rw [hs.display hsecond]
      exact .bind (.newException _ _ hsecond _) fun _ _ _ hx =>
        .pure fun hCE => .ok (hx.mono hCE)
    | _ =>
      dsimp only
      rw [htype]
      exact tracks_nativeFault _
  | isFrozen =>
    cases hfirst with
    | graph hg =>
      dsimp only
      rw [(hs.container hg).frozen]
      exact .pure fun _ => .ok (.bool _)
    | _ => exact .pure fun _ => .ok (.bool false)
  | host name arity => exact absurd rfl (hn name arity)

end Native

/-! ### Scopes and frames -/

namespace Eval

theorem tracks_ofBinding {r r' : Except BindingError α} (hr : Outcomes Eq (A B) r r')
    (hA : A.Grows) : Act.Tracks B EvalError.Across A (ofBinding r) (ofBinding r') := by
  cases hr with
  | ok ha => exact .pure fun hBC => hA hBC ha
  | error he =>
    subst he
    exact .throw fun _ => .plain (by simp)

theorem tracks_ofAttempt {r r' : Except EvalError α} (hr : Outcomes (EvalError.Across B) (A B) r r')
    (hA : A.Grows) : Act.Tracks B EvalError.Across A (ofAttempt r) (ofAttempt r') := by
  cases hr with
  | ok ha => exact .pure fun hBC => hA hBC ha
  | error he => exact .throw fun hBC => EvalError.grows_across hBC he

/-- A step on the scopes whose failure ends the evaluation. -/
theorem tracks_bindingStep {step step' : Scopes → Except BindingError α × Scopes} (hA : A.Grows)
    (h : ∀ {C}, B ≤ C → ∀ {s s' : Scopes}, s.Across C s' → Scopes.Leads C A (step s) (step' s')) :
    Act.Tracks B EvalError.Across A (onScopes step >>= ofBinding)
      (onScopes step' >>= ofBinding) :=
  .bind (tracks_onScopes h) fun _ _ _ hr => tracks_ofBinding hr hA

/-- Names with corresponding values. -/
def Locals : Span (List (String × Value)) :=
  Span.each fun B x x' => x'.1 = x.1 ∧ x.2.Across B x'.2

theorem grows_locals : Span.Grows Locals := fun h _ _ hlocals =>
  hlocals.imp fun _ _ hx => ⟨hx.1, hx.2.mono h⟩

theorem locals_zip (names : List String) {vs vs' : List Value}
    (hvs : Span.each Value.Across B vs vs') : Locals B (names.zip vs) (names.zip vs') := by
  induction hvs generalizing names with
  | nil => cases names <;> exact .nil
  | cons hv _ ih =>
    cases names with
    | nil => exact .nil
    | cons name names => exact .cons ⟨rfl, hv⟩ (ih names)

theorem grows_joins (k : NodeKind) : Span.Grows fun B => B.joins k := fun h _ _ => h.1

variable {scope scope' : ScopeId}

theorem tracks_popScope (hscope : B.joins .scope scope scope') :
    Act.Tracks B EvalError.Across Span.same (popScope scope) (popScope scope') :=
  tracks_bindingStep Span.grows_same fun hBC _ _ hs => hs.pop (Bridge.joins_mono hBC hscope)

theorem tracks_defineLocals (hscope : B.joins .scope scope scope')
    {locals locals' : List (String × Value)} (hlocals : Locals B locals locals') :
    Act.Tracks B EvalError.Across Span.same (defineLocals scope locals)
      (defineLocals scope' locals') := by
  induction locals generalizing B locals' with
  | nil =>
    cases hlocals
    exact .pure fun _ => rfl
  | cons x locals ih =>
    cases hlocals with
    | @cons _ x' _ _ hx hlocals =>
      obtain ⟨name, value⟩ := x
      obtain ⟨name', value'⟩ := x'
      obtain ⟨rfl, hvalue⟩ := hx
      have hdefine : Act.Tracks B EvalError.Across (fun B => B.joins .var)
          (onScopes (·.define scope name' value true) >>= ofBinding)
          (onScopes (·.define scope' name' value' true) >>= ofBinding) :=
        tracks_bindingStep (grows_joins .var) fun hBC _ _ hs =>
          hs.define (Bridge.joins_mono hBC hscope) name' (hvalue.mono hBC) true
      have hlocal : Act.Tracks B EvalError.Across Span.same (defineLocal scope name' value)
          (defineLocal scope' name' value') := hdefine.map fun _ _ _ _ => rfl
      exact .bind hlocal fun hBC _ _ _ =>
        ih (Bridge.joins_mono hBC hscope) (grows_locals hBC hlocals)

/-- Actions in new scopes come to related results if they do so in scopes that are joined. -/
theorem tracks_inScope (hA : A.Grows) (hscope : B.joins .scope scope scope') (kind : ScopeKind)
    {locals locals' : List (String × Value)} (hlocals : Locals B locals locals')
    {body body' : ScopeId → Eval α}
    (hbody : ∀ {C}, B ≤ C → ∀ {n n'}, C.joins .scope n n' →
      Act.Tracks C EvalError.Across A (body n) (body' n')) :
    Act.Tracks B EvalError.Across A (inScope scope kind locals body)
      (inScope scope' kind locals' body') := by
  have hpush : Act.Tracks B EvalError.Across (fun B => B.joins .scope) (pushScope scope kind)
      (pushScope scope' kind) :=
    tracks_bindingStep (grows_joins .scope) fun hBC _ _ hs =>
      hs.push (Bridge.joins_mono hBC hscope) kind
  have henter : Act.Tracks B EvalError.Across (fun B => B.joins .scope)
      (enterScope scope kind locals) (enterScope scope' kind locals') :=
    .bind hpush fun hBC _ _ hn => .bind (tracks_defineLocals hn (grows_locals hBC hlocals))
      fun hCE _ _ _ => .pure fun hEF => Bridge.joins_mono (le_trans hCE hEF) hn
  refine .bind henter fun hBC _ _ hn => .bind (hbody hBC hn).attempt fun hCE _ _ hr => ?_
  exact .bind (tracks_popScope (Bridge.joins_mono hCE hn)) fun hEF _ _ _ =>
    tracks_ofAttempt (hr.mono (EvalError.grows_across hEF) (hA hEF)) hA

theorem tracks_inFrame (hA : A.Grows) (site : CallSite) {body body' : Eval α}
    (hbody : Act.Tracks B EvalError.Across A body body') :
    Act.Tracks B EvalError.Across A (inFrame site body) (inFrame site body') := by
  refine .bind (tracks_modifySession fun {C} _ st st' hst => ?_) fun hBC _ _ _ => ?_
  · exact { hst with
      frames := congrArg (site :: ·) hst.frames
      nextFrame := congrArg (· + 1) hst.nextFrame }
  refine .bind (hbody.mono hBC).attempt fun _ _ _ hr => ?_
  refine .bind (tracks_modifySession fun {C} _ st st' hst => ?_) fun hEF _ _ _ => ?_
  · exact { hst with frames := congrArg List.tail hst.frames }
  · exact tracks_ofAttempt (hr.mono (EvalError.grows_across hEF) (hA hEF)) hA

theorem tracks_unit (id : UnitId) :
    Act.Tracks B EvalError.Across LoadedUnit.Across (unit id) (unit id) := by
  refine .bind tracks_session fun {C} _ st st' hst => ?_
  obtain ⟨hu, hu'⟩ | ⟨u, u', hu, hu', hacross⟩ := (hst.units id).none_or_some <;> rw [hu, hu']
  · exact .throw fun _ => .plain (by simp)
  · exact .pure fun hCE => LoadedUnit.grows_across hCE hacross

end Eval

/-! ### Functions -/

/-- The evaluator comes to corresponding signals in scopes that are joined. -/
structure Evaluator.Blind (ev : Evaluator) : Prop where
  node : ∀ {B : Bridge} {scope scope' : ScopeId} (code : Code) (n : Nat),
    B.joins .scope scope scope' →
    Act.Tracks B EvalError.Across Signal.Across (ev.node code n scope) (ev.node code n scope')
  body : ∀ {B : Bridge} {scope scope' : ScopeId} (code : Code) (root : Nat),
    B.joins .scope scope scope' →
    Act.Tracks B EvalError.Across Signal.Across (ev.body code root scope)
      (ev.body code root scope')
  call : ∀ {B : Bridge} {f : FunctionValue} {c : ClosureId} {args args' : List Value}
    (callNode : Option Nat), B.joins .closure f.closure c → Span.each Value.Across B args args' →
    Act.Tracks B EvalError.Across Signal.Across (ev.call f args callNode)
      (ev.call { f with closure := c } args' callNode)

namespace Eval

variable {ev : Evaluator} {scope scope' : ScopeId} {args args' : List Value}

theorem tracks_statements (hev : ev.Blind) (code : Code) (hscope : B.joins .scope scope scope')
    (nodes : List (Role × Nat)) :
    Act.Tracks B EvalError.Across Signal.Across (statements ev code scope nodes)
      (statements ev code scope' nodes) := by
  induction nodes generalizing B with
  | nil => exact .pure fun _ => .normal .nil
  | cons n nodes ih =>
    refine .bind (hev.node code n.2 hscope) fun hBC s s' hs => ?_
    cases hs with
    | normal => exact ih (Bridge.joins_mono hBC hscope)
    | returning hv => exact .pure fun hCE => .returning (hv.mono hCE)
    | breaking => exact .pure fun _ => .breaking
    | continuing => exact .pure fun _ => .continuing
    | raised hr => exact .pure fun hCE => .raised (Raised.grows_across hCE hr)

theorem tracks_body (hev : ev.Blind) (code : Code) (root : Nat)
    (hscope : B.joins .scope scope scope') :
    Act.Tracks B EvalError.Across Signal.Across (body ev code root scope)
      (body ev code root scope') := by
  unfold body
  split
  · exact tracks_statements hev code hscope _
  · exact hev.node code root hscope

theorem tracks_leaveFunction (site : CallSite) (name : String) {s s' : Signal}
    (hs : s.Across B s') :
    Act.Tracks B EvalError.Across Signal.Across (leaveFunction site name s)
      (leaveFunction site name s') := by
  cases hs with
  | normal hv | returning hv => exact .pure fun hBC => .normal (hv.mono hBC)
  | raised hr => exact .pure fun hBC => .raised (Raised.grows_across hBC (hr.leave site))
  | breaking | continuing => exact .throw fun _ => .plain (by simp)

/-- A value that is raised. -/
theorem tracks_raised {action action' : Eval Value}
    (h : Act.Tracks B EvalError.Across Value.Across action action') :
    Act.Tracks B EvalError.Across Signal.Across (do return .raised (.new (← action)))
      (do return .raised (.new (← action'))) :=
  .bind h fun _ _ _ hx => .pure fun hCE => .raised (.new (hx.mono hCE))

theorem tracks_callFunction (hev : ev.Blind) {f : FunctionValue} {c : ClosureId}
    (hc : B.joins .closure f.closure c) (hargs : Span.each Value.Across B args args')
    (callNode : Option Nat) :
    Act.Tracks B EvalError.Across Signal.Across (callFunction ev f args callNode)
      (callFunction ev { f with closure := c } args' callNode) := by
  refine .bind tracks_session fun {C} hBC st st' hst => ?_
  dsimp only
  rw [hst.config, hst.frames]
  split
  · exact .bind .say fun _ _ _ _ => .throw fun _ => .plain (by simp)
  refine .bind (tracks_unit f.unit) fun {E} hCE loaded loaded' hloaded => ?_
  rw [hloaded.program, hargs.length_eq]
  cases loaded.program.function? f.function with
  | none => exact .throw fun _ => .plain (by simp)
  | some d =>
    dsimp only
    split
    · exact tracks_raised (.faultException _)
    cases d.body with
    | none => exact .throw fun _ => .plain (by simp)
    | some root =>
      refine .bind tracks_session fun {G} hEG st st' hst => ?_
      have hBG := le_trans (le_trans hBC hCE) hEG
      refine .bind (tracks_ofBinding (hst.scopes.closureScope (Bridge.joins_mono hBG hc))
        (grows_joins .scope)) fun {H} hGH scope scope' hscope => ?_
      have hlocals := locals_zip d.params (Value.grows_across.each (le_trans hBG hGH) hargs)
      refine tracks_inScope Signal.grows_across hscope .function hlocals fun {I} _ n n' hn => ?_
      refine .bind tracks_session fun {J} hIJ st st' hst => ?_
      rw [hst.nextFrame]
      refine .bind (tracks_inFrame Signal.grows_across _ ?_) fun _ s s' hs =>
        tracks_leaveFunction _ _ hs
      refine .bind tracks_session fun {K} hJK st st' hst => ?_
      rw [hst.frames]
      exact .bind .say fun hKL _ _ _ =>
        hev.body _ root (Bridge.joins_mono (le_trans (le_trans hIJ hJK) hKL) hn)

/-! ### Calls of values -/

theorem tracks_toException {v v' : Value} (hv : v.Across B v') :
    Act.Tracks B EvalError.Across Value.Across (Step.toException v) (Step.toException v') := by
  have hnew : Act.Tracks B EvalError.Across Value.Across
      (do Act.newException "Error" ((← Act.store).display v) v [])
      (do Act.newException "Error" ((← Act.store).display v') v' []) := by
    refine .bind .store fun hBC s s' hs => ?_
    have hv := hv.mono hBC
    rw [hs.display hv]
    exact .newException _ _ hv _
  have hkept := hv
  cases hv with
  | exception => exact .pure fun hBC => hkept.mono hBC
  | _ => exact hnew

theorem tracks_callNative {n : Native} (hn : ∀ name arity, n ≠ .host name arity)
    (hargs : Span.each Value.Across B args args') :
    Act.Tracks B EvalError.Across Signal.Across
      (do
        report .debug "native call" fun _ => [("native", Text.quoted n.name)]
        match ← n.call args with
        | .ok v => return Signal.normal v
        | .error v => return Signal.raised (.new (← Step.toException v)) : Eval Signal)
      (do
        report .debug "native call" fun _ => [("native", Text.quoted n.name)]
        match ← n.call args' with
        | .ok v => return Signal.normal v
        | .error v => return Signal.raised (.new (← Step.toException v)) : Eval Signal) := by
  refine .bind .say fun hBC _ _ _ => ?_
  refine .bind (Native.tracks_call hn (Value.grows_across.each hBC hargs)) fun _ r r' hr => ?_
  cases hr with
  | ok hv => exact .pure fun hCE => .normal (hv.mono hCE)
  | error hv => exact tracks_raised (tracks_toException hv)

theorem tracks_call (hev : ev.Blind) {callee callee' : Value} (hcallee : callee.Across B callee')
    (hargs : Span.each Value.Across B args args') (callNode : Option Nat) :
    Act.Tracks B EvalError.Across Signal.Across (call ev callee args callNode)
      (call ev callee' args' callNode) := by
  have hother : Act.Tracks B EvalError.Across Signal.Across
      (do
        let exception ← Act.faultException (.notCallable ((← Act.store).typeOf callee))
        return Signal.raised (.new exception) : Eval Signal)
      (do
        let exception ← Act.faultException (.notCallable ((← Act.store).typeOf callee'))
        return Signal.raised (.new exception) : Eval Signal) := by
    refine .bind .store fun hBC s s' hs => ?_
    rw [hs.typeOf (hcallee.mono hBC)]
    exact tracks_raised (.faultException _)
  cases hcallee with
  | function hc => exact hev.call callNode hc hargs
  | @native n hn =>
    unfold call
    dsimp only
    rw [hargs.length_eq]
    cases n.arity with
    | none => exact tracks_callNative hn hargs
    | some arity =>
      dsimp only
      split
      · exact tracks_raised (.faultException _)
      · exact tracks_callNative hn hargs
  | _ => exact hother

/-- Rules call values alike. An error that ends a callback is kept aside on both sides. -/
theorem blind_callback (hev : ev.Blind) : (callback ev).Blind where
  tracks hcallee hargs := by
    refine .bind (tracks_call hev hcallee hargs none).attempt fun {C} _ r r' hr => ?_
    cases hr with
    | ok hs =>
      cases hs with
      | normal hv => exact .pure fun hCE => hv.mono hCE
      | raised hr => exact .throw fun hCE => .raised (Raised.grows_across hCE hr)
      | returning | breaking | continuing => exact .throw fun _ => .fatal _
    | error he =>
      refine .bind .store fun hCE s s' hs => ?_
      have he := EvalError.grows_across hCE he
      rw [hs.message he]
      refine .bind (.modify fun hEF w w' hw => ?_) fun _ _ _ _ => .throw fun _ => .fatal _
      exact hw.withControl { hw.control with
        pendingFatal := .some (EvalError.grows_across hEF he) }

end Eval

end GraphLang
