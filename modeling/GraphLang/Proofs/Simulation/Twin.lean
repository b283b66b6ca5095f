import GraphLang.Proofs.Loading
import GraphLang.Proofs.Scopes.Alike
import GraphLang.Proofs.Simulation.Host
import GraphLang.Proofs.Simulation.Node

/-!
# Two programs side by side

Two evaluators run two programs that correspond, each as the only unit. Their worlds differ at most
in the programs, in what closures have captured, and in events and traces. Whatever can be called
is a native of the prelude or a closure whose scope is there, of a function that both programs
have.
-/

namespace GraphLang

/-- Two programs, and what corresponds in them. -/
structure Pairing where
  /-- The first program. -/
  first : Program
  /-- The second program. -/
  second : Program
  /-- The programs may be malformed. -/
  loose : Prop
  /-- The nodes correspond. They stand inside a loop where `loop` holds, and may come to a value
  where `falls` does. -/
  nodes (loop falls : Prop) (n n' : Nat) : Prop
  /-- The bodies correspond. -/
  bodies (root root' : Nat) : Prop
  /-- The function is as good in one program as in the other. -/
  shared (f : FunctionId) : Prop
  /-- A shared function has the same name and parameters in both programs, and corresponding bodies.
  Where the programs may be malformed, both may lack the function, or its body. -/
  function {f : FunctionId} : shared f →
    loose ∧ first.function? f = none ∧ second.function? f = none ∨
    ∃ d d', first.function? f = some d ∧ second.function? f = some d' ∧ d'.name = d.name ∧
      d'.params = d.params ∧
      (loose ∧ d.body = none ∧ d'.body = none ∨
        ∃ root root', d.body = some root ∧ d'.body = some root' ∧ bodies root root')

namespace Pairing

variable (T : Pairing)

/-- What may be called: natives of the prelude, and closures of shared functions. -/
def Callable (s : Scopes) : Value → Prop
  | .function f => f.unit = 0 ∧ T.shared f.function ∧ ∃ scope, s.closureScope f.closure = .ok scope
  | .native n => ∀ name arity, n ≠ .host name arity
  | _ => False

/-- The worlds correspond: they run the two programs in the same module scope. -/
structure Related (module : ScopeId) (w w' : Machine) : Prop where
  agree : Agree w w'
  unit : w.control.units = #[⟨T.first, module⟩]
  unit' : w'.control.units = #[⟨T.second, module⟩]
  module : w.control.scopes.isScope module = true
  alike : w.control.scopes.Alike w'.control.scopes
  full : Scopes.Full (T.Callable w.control.scopes) none w.control.scopes
  full' : Scopes.Full (T.Callable w.control.scopes) none w'.control.scopes
  store : w.store.Holds (T.Callable w.control.scopes)
  rulesets : ∀ set ∈ w.control.rulesets, ∀ r ∈ set.rules, r.Holds (T.Callable w.control.scopes)

/-- No scope and no closure is lost. -/
structure Grown (w v : Machine) : Prop where
  isScope : ∀ {n}, w.control.scopes.isScope n = true → v.control.scopes.isScope n = true
  closureScope : ∀ {c scope}, w.control.scopes.closureScope c = .ok scope →
    v.control.scopes.closureScope c = .ok scope

/-- The simulation of the first program by the second one. -/
def simulation (module : ScopeId) : Simulation where
  rel := T.Related module
  step := Grown
  callee w := T.Callable w.control.scopes
  live w scope := w.control.scopes.isScope scope = true
  loose := T.loose
  escape _ _ := False
  lockstep := False
  nodes code code' loop falls n n' :=
    code = ⟨0, T.first⟩ ∧ code' = ⟨0, T.second⟩ ∧ T.nodes loop falls n n'
  bodies code code' root root' :=
    code = ⟨0, T.first⟩ ∧ code' = ⟨0, T.second⟩ ∧ T.bodies root root'
  makes code code' f := code = ⟨0, T.first⟩ ∧ code' = ⟨0, T.second⟩ ∧ T.shared f

variable {T} {module : ScopeId} {u v w w' : Machine}

theorem Grown.refl (w : Machine) : Grown w w := ⟨id, id⟩

theorem Grown.trans (h : Grown u v) (h' : Grown v w) : Grown u w :=
  ⟨h'.isScope ∘ h.isScope, h'.closureScope ∘ h.closureScope⟩

theorem Grown.withScopes {s : Scopes} (h : w.control.scopes.Keeps s) : Grown w (w.withScopes s) :=
  ⟨h.isScope, h.closureScope⟩

theorem Callable.mono {s s' : Scopes}
    (h : ∀ {c scope}, s.closureScope c = .ok scope → s'.closureScope c = .ok scope) {x : Value}
    (hx : T.Callable s x) : T.Callable s' x := by
  cases x with
  | function f =>
    obtain ⟨hunit, hshared, scope, hscope⟩ := hx
    exact ⟨hunit, hshared, scope, h hscope⟩
  | native n => exact hx
  | _ => exact hx

namespace Related

theorem quiet (h : T.Related module w w') (events : Array Event) (trace : Array TraceEntry)
    (events' : Array Event) (trace' : Array TraceEntry) :
    T.Related module (w.quiet events trace) (w'.quiet events' trace') := by
  obtain ⟨⟨hstore, houtput, hnatives, hsets, hframes, hnext, hlimit, hset, hset'⟩, hunit, hunit',
    hmodule, halike, hfull, hfull', hholds, hrules⟩ := h
  exact ⟨⟨hstore, houtput, hnatives, hsets, hframes, hnext, hlimit, hset, hset'⟩, hunit, hunit',
    hmodule, halike, hfull, hfull', hholds, hrules⟩

/-- New scopes that are alike and lose nothing. -/
theorem withScopes (h : T.Related module w w') {s s' : Scopes} (halike : s.Alike s')
    (hscope : s.isScope module = true)
    (hgrown : ∀ {c scope}, w.control.scopes.closureScope c = .ok scope →
      s.closureScope c = .ok scope)
    (hfull : Scopes.Full (T.Callable w.control.scopes) none s)
    (hfull' : Scopes.Full (T.Callable w.control.scopes) none s') :
    T.Related module (w.withScopes s) (w'.withScopes s') := by
  have hmono : ∀ x, T.Callable w.control.scopes x → T.Callable s x :=
    fun _ => Callable.mono hgrown
  obtain ⟨⟨hstore, houtput, hnatives, hsets, hframes, hnext, hlimit, hset, hset'⟩, hunit, hunit',
    -, -, -, -, hholds, hrules⟩ := h
  exact ⟨⟨hstore, houtput, hnatives, hsets, hframes, hnext, hlimit, hset, hset'⟩, hunit, hunit',
    hscope, halike, hfull.mono hmono, hfull'.mono hmono, hholds.mono hmono,
    fun set hset r hr => (hrules set hset r hr).mono hmono⟩

theorem framed (h : T.Related module w w') (site : CallSite) :
    T.Related module (w.framed site) (w'.framed site) := by
  obtain ⟨⟨hstore, houtput, hnatives, hsets, hframes, hnext, hlimit, hset, hset'⟩, hunit, hunit',
    hmodule, halike, hfull, hfull', hholds, hrules⟩ := h
  refine ⟨⟨hstore, houtput, hnatives, hsets, ?_, ?_, hlimit, hset, hset'⟩, hunit, hunit',
    hmodule, halike, hfull, hfull', hholds, hrules⟩
  · exact congrArg (site :: ·) hframes
  · exact congrArg (· + 1) hnext

theorem unframed (h : T.Related module w w') : T.Related module w.unframed w'.unframed := by
  obtain ⟨⟨hstore, houtput, hnatives, hsets, hframes, hnext, hlimit, hset, hset'⟩, hunit, hunit',
    hmodule, halike, hfull, hfull', hholds, hrules⟩ := h
  exact ⟨⟨hstore, houtput, hnatives, hsets, congrArg List.tail hframes, hnext, hlimit, hset, hset'⟩,
    hunit, hunit', hmodule, halike, hfull, hfull', hholds, hrules⟩

end Related

/-! ### Opening and leaving scopes -/

theorem exists_defineLocals {P : Value → Prop} {scope : ScopeId} {locals : List (String × Value)}
    (halike : w.control.scopes.Alike w'.control.scopes)
    (hfull : Scopes.Full P none w.control.scopes) (hfull' : Scopes.Full P none w'.control.scopes)
    (hscope : w.control.scopes.isScope scope = true) (hopen : w.control.scopes.Open scope)
    (hlocals : ∀ x ∈ locals, x.2.Holds P) :
    ∃ s s', Eval.defineLocals scope locals w = some (.ok (), w.withScopes s) ∧
      Eval.defineLocals scope locals w' = some (.ok (), w'.withScopes s') ∧
      w.control.scopes.Keeps s ∧ s.Alike s' ∧ s.Full P none ∧ s'.Full P none := by
  induction locals generalizing w w' with
  | nil => exact ⟨_, _, rfl, rfl, .refl hfull.tidy, halike, hfull, hfull'⟩
  | cons x locals ih =>
    obtain ⟨var, s₁, hdefine, hopen₁⟩ :=
      Scopes.define_of_open hfull.tidy hscope hopen x.1 x.2
    have hx := hlocals x (by simp)
    obtain ⟨hresult, halike₁⟩ := halike.define hfull hfull' scope x.1 x.2 true
    have hkeeps := Scopes.Keeps.define hfull.tidy scope x.1 x.2 true
    have hfull₁ := hfull.define scope x.1 hx true
    have hfull₁' := hfull'.define scope x.1 hx true
    rw [hdefine] at hresult halike₁ hkeeps hfull₁
    obtain ⟨s, s', hrun, hrun', hkeeps', hdone⟩ := @ih (w.withScopes s₁)
      (w'.withScopes (w'.control.scopes.define scope x.1 x.2 true).2)
      halike₁ hfull₁ hfull₁' (hkeeps.isScope hscope) hopen₁
      fun y hy => hlocals y (List.mem_cons_of_mem x hy)
    refine ⟨s, s', ?_, ?_, hkeeps.trans hkeeps', hdone⟩
    · unfold Eval.defineLocals
      rw [Act.run_bind, Eval.run_defineLocal, hdefine]
      exact hrun
    · unfold Eval.defineLocals
      rw [Act.run_bind, Eval.run_defineLocal, hresult]
      exact hrun'

/-- The same scope with the same locals is opened in both worlds. -/
theorem Related.enter (h : T.Related module w w') {parent : ScopeId}
    (hparent : w.control.scopes.isScope parent = true) (kind : ScopeKind)
    {locals : List (String × Value)}
    (hlocals : ∀ x ∈ locals, x.2.Holds (T.Callable w.control.scopes)) :
    ∃ scope s s', Eval.enterScope parent kind locals w = some (.ok scope, w.withScopes s) ∧
      Eval.enterScope parent kind locals w' = some (.ok scope, w'.withScopes s') ∧
      T.Related module (w.withScopes s) (w'.withScopes s') ∧ w.control.scopes.Opens scope s := by
  have hparent' : w'.control.scopes.isScope parent = true := by rwa [h.alike.isScope]
  have hopens := Scopes.Opens.withScope h.full.tidy hparent kind
  have hempty : Scopes.Open ⟨Scopes.withScope w.control.scopes.graph parent kind,
      w.control.scopes.declared⟩ (w.control.scopes.graph.addNode (.scope kind true)).1 := by
    intro name var hvar
    rw [hopens.declared_eq_none h.full.tidy] at hvar
    cases hvar
  have halike₀ : (w.withScopes ⟨Scopes.withScope w.control.scopes.graph parent kind,
      w.control.scopes.declared⟩).control.scopes.Alike
      (w'.withScopes ⟨Scopes.withScope w'.control.scopes.graph parent kind,
        w'.control.scopes.declared⟩).control.scopes :=
    h.alike.withScope h.full h.full' hparent kind
  obtain ⟨s, s', hrun, hrun', hkeeps, halike, hfull, hfull'⟩ := exists_defineLocals halike₀
    (Scopes.Full.withScope h.full hparent kind)
    (Scopes.Full.withScope h.full' hparent' kind) hopens.opened hempty hlocals
  have hopens' := hopens.trans hkeeps
  refine ⟨_, s, s', ?_, ?_, h.withScopes halike (hopens'.isScope h.module) hopens'.closureScope
    hfull hfull', hopens'⟩
  · unfold Eval.enterScope
    rw [Act.run_bind, Eval.run_pushScope, Scopes.push_of_isScope hparent]
    change (Eval.defineLocals _ locals >>= _) _ = _
    rw [Act.run_bind, hrun]
    rfl
  · unfold Eval.enterScope
    rw [Act.run_bind, Eval.run_pushScope, Scopes.push_of_isScope hparent',
      h.alike.graph.fst_addNode]
    change (Eval.defineLocals _ locals >>= _) _ = _
    rw [Act.run_bind, hrun']
    rfl

theorem Related.left (h : T.Related module w w') {scope : ScopeId}
    (hscope : w.control.scopes.isScope scope = true) :
    Eval.popScope scope w' = some (.ok (), w'.left scope) ∧
      T.Related module (w.left scope) (w'.left scope) := by
  have hscope' : w'.control.scopes.isScope scope = true := by rwa [h.alike.isScope]
  have hpop := Scopes.pop_of_isScope hscope
  have hpop' := Scopes.pop_of_isScope hscope'
  refine ⟨by rw [Eval.run_popScope, hpop']; rfl, ?_⟩
  unfold World.left
  rw [hpop, hpop']
  refine h.withScopes (h.alike.leave h.full scope) ?_ (Scopes.closureScope_leave scope)
    (Scopes.Full.leave h.full scope) (Scopes.Full.leave h.full' scope)
  rw [Scopes.isScope_leave]
  exact h.module

/-! ### The laws of corresponding programs

The primitive steps keep the worlds of two corresponding programs related, and on the way nothing
can go wrong but what a program can catch. -/

theorem same {f : FunctionId} (hf : T.shared f) :
    (T.simulation module).Same ⟨0, T.first⟩ ⟨0, T.second⟩ f := by
  unfold Simulation.Same
  obtain ⟨hloose, hd, hd'⟩ | ⟨d, d', hd, hd', hname, hparams, hbodies⟩ := T.function hf
  · rw [hd, hd']
    exact hloose
  · rw [hd, hd']
    refine ⟨hname, hparams, ?_⟩
    obtain ⟨hloose, hbody, hbody'⟩ | ⟨root, root', hbody, hbody', hroots⟩ := hbodies
    · rw [hbody, hbody']
      exact hloose
    · rw [hbody, hbody']
      exact ⟨rfl, rfl, hroots⟩

/-- A step on scopes that are alike. -/
theorem scopeStep {α : Type} (hrel : T.Related module w w')
    {f f' : Scopes → Except BindingError α × Scopes} {good : α → Machine → Prop}
    {bad : BindingError → Prop}
    (hsame : (f' w'.control.scopes).1 = (f w.control.scopes).1)
    (halike : (f w.control.scopes).2.Alike (f' w'.control.scopes).2)
    (hkeeps : w.control.scopes.Keeps (f w.control.scopes).2)
    (hfull : Scopes.Full (T.Callable w.control.scopes) none (f w.control.scopes).2)
    (hfull' : Scopes.Full (T.Callable w.control.scopes) none (f' w'.control.scopes).2)
    (hgood : ∀ a, (f w.control.scopes).1 = .ok a → good a (w.withScopes (f w.control.scopes).2))
    (hbad : ∀ e, (f w.control.scopes).1 = .error e → bad e) :
    (T.simulation module).ScopeStep w w' f f' good bad :=
  ⟨hsame, hrel.withScopes halike (hkeeps.isScope hrel.module) hkeeps.closureScope hfull hfull',
    .withScopes hkeeps, hgood, hbad⟩

/-- A call frame can always be opened and left. -/
theorem framing (hrel : T.Related module w w') (site : CallSite) :
    (T.simulation module).Framing w w' site where
  rel := hrel.framed site
  live := id
  step h := ⟨h.isScope, h.closureScope⟩
  unframed _ := Related.unframed
  callee _ _ := id
  escape _ := False.elim

theorem lawful (T : Pairing) (module : ScopeId) : (T.simulation module).Lawful where
  step_refl := .refl
  step_trans := .trans
  step_withFatal _ h := ⟨h.isScope, h.closureScope⟩
  callee_step h _ := Callable.mono h.closureScope
  live_step h := h.isScope
  agree h := h.agree
  store h := h.store
  rulesets h := h.rulesets
  noted := by
    intro w w' level target message fields hrel
    obtain ⟨events, hquiet⟩ := w.noted_eq_quiet level target message fields
    obtain ⟨events', hquiet'⟩ := w'.noted_eq_quiet level target message fields
    rw [hquiet, hquiet']
    exact ⟨hrel.quiet _ _ _ _, id, id⟩
  recorded := by
    intro w w' code code' n o s _ hrel
    obtain ⟨trace, hquiet⟩ := w.recorded_eq_quiet code n o s
    obtain ⟨trace', hquiet'⟩ := w'.recorded_eq_quiet code' n o s
    rw [hquiet, hquiet']
    exact ⟨hrel.quiet _ _ _ _, id, id⟩
  withStore := by
    rintro w w' s ⟨⟨-, houtput, hnatives, hsets, hframes, hnext, hlimit, hset, hset'⟩, hunit, hunit',
      hmodule, halike, hfull, hfull', -, hrules⟩ hs
    exact ⟨⟨⟨rfl, houtput, hnatives, hsets, hframes, hnext, hlimit, hset, hset'⟩, hunit, hunit',
      hmodule, halike, hfull, hfull', hs, hrules⟩, id, id⟩
  printed := by
    rintro w w' line ⟨⟨hstore, houtput, hnatives, hsets, hframes, hnext, hlimit, hset, hset'⟩, hunit,
      hunit', hmodule, halike, hfull, hfull', hholds, hrules⟩
    exact ⟨⟨⟨hstore, congrArg (·.push line) houtput, hnatives, hsets, hframes, hnext, hlimit, hset,
      hset'⟩, hunit, hunit', hmodule, halike, hfull, hfull', hholds, hrules⟩, id, id⟩
  withRulesets := by
    rintro w w' sets ⟨⟨hstore, houtput, hnatives, -, hframes, hnext, hlimit, hset, hset'⟩, hunit,
      hunit', hmodule, halike, hfull, hfull', hholds, -⟩ hsets
    exact ⟨⟨⟨hstore, houtput, hnatives, rfl, hframes, hnext, hlimit, hset, hset'⟩, hunit, hunit',
      hmodule, halike, hfull, hfull', hholds, hsets⟩, id, id⟩
  host _ hcallee _ := absurd rfl (hcallee _ _)
  get := by
    intro w w' scope name hrel hlive
    refine ⟨hrel.alike.get hrel.full hlive name, fun v hv => ?_, fun e he => ?_⟩
    · obtain ⟨v', hv', hholds⟩ | herror := hrel.full.get hlive name
      · rw [hv] at hv'
        cases hv'
        exact hholds
      · rw [hv] at herror
        cases herror
    · obtain ⟨v', hv', -⟩ | herror := hrel.full.get hlive name
      · rw [he] at hv'
        cases hv'
      · rw [he] at herror
        cases herror
        exact Or.inr (Or.inl ⟨name, rfl⟩)
  define := by
    intro w w' scope value name mutable hrel hlive hvalue
    obtain ⟨hsame, halike⟩ := hrel.alike.define hrel.full hrel.full' scope name value mutable
    refine scopeStep hrel hsame halike (.define hrel.full.tidy scope name value mutable)
      (hrel.full.define scope name hvalue mutable) (hrel.full'.define scope name hvalue mutable)
      (fun _ _ => trivial) fun e he => ?_
    exact Or.inr (Or.inr ⟨name, hrel.full.tidy.define_error hlive he⟩)
  assign := by
    intro w w' scope value name hrel hlive hvalue
    obtain ⟨hsame, halike⟩ := hrel.alike.assign hrel.full hrel.full' hlive name value
    refine scopeStep hrel hsame halike (.assign hrel.full.tidy scope name value)
      (hrel.full.assign scope name hvalue) (hrel.full'.assign scope name hvalue)
      (fun _ _ => trivial) fun e he => ?_
    rcases hrel.full.tidy.assign_error hlive he with rfl | rfl
    · exact Or.inr (Or.inl ⟨name, rfl⟩)
    · exact Or.inr (Or.inr ⟨name, rfl⟩)
  makes_same := by
    rintro code code' f ⟨rfl, rfl, hf⟩
    exact ⟨rfl, same hf⟩
  closure := by
    rintro w w' scope code code' f d ⟨rfl, rfl, hf⟩ hd hrel hlive
    have hlive' : w'.control.scopes.isScope scope = true := by rwa [hrel.alike.isScope]
    have hvars {s : Scopes} (hs : s.Tidy) (names : List String) :
        ∀ var ∈ s.visible scope names, ∃ name, s.variableName? var = some name :=
      fun _ => Scopes.exists_variable_of_visible hs
    obtain ⟨hkeeps, hmade⟩ := Scopes.Keeps.withClosure hrel.full.tidy hlive
      (hvars hrel.full.tidy (T.first.freeVariables f)) d.name
    have hrun := Scopes.createClosure_of_isScope hlive d.name (T.first.freeVariables f)
    have hrun' := Scopes.createClosure_of_isScope hlive' d.name (T.second.freeVariables f)
    refine scopeStep hrel ?_ ?_ ?_ ?_ ?_ ?_ ?_
    · dsimp only
      rw [hrun, hrun', hrel.alike.graph.fst_addNode]
    · dsimp only
      rw [hrun, hrun']
      exact hrel.alike.withClosure hrel.full hrel.full' hlive d.name (hvars hrel.full.tidy _)
        (hvars hrel.full'.tidy _)
    · dsimp only
      rw [hrun]
      exact hkeeps
    · dsimp only
      rw [hrun]
      exact Scopes.Full.withClosure hrel.full hlive (hvars hrel.full.tidy _) d.name
    · dsimp only
      rw [hrun']
      exact Scopes.Full.withClosure hrel.full' hlive' (hvars hrel.full'.tidy _) d.name
    · dsimp only
      rw [hrun]
      rintro c ⟨⟩
      exact ⟨rfl, hf, scope, hmade⟩
    · dsimp only
      rw [hrun]
      rintro e ⟨⟩
  finds := by
    rintro w w' f hrel ⟨hunit, hshared, -⟩
    unfold Simulation.Finds
    rw [hrel.unit, hrel.unit', hunit]
    exact same hshared
  closureScope := by
    rintro w w' f hrel ⟨-, -, scope, hscope⟩
    refine ⟨hrel.alike.closureScope_eq hrel.full f.closure,
      fun _ => Scopes.isScope_of_closureScope, fun e he => ?_⟩
    rw [hscope] at he
    cases he
  enter := by
    intro w w' parent locals kind hrel hlive hlocals
    obtain ⟨scope, s, s', hrun, hrun', hrel', hopens⟩ := hrel.enter hlive kind hlocals
    refine ⟨scope, _, _, hrun, hrun', hrel', hopens.opened, fun u hu => ?_⟩
    have hscope : u.control.scopes.isScope scope = true := hu.isScope hopens.opened
    have hpop := Scopes.pop_of_isScope hscope
    have hcontrol : (u.left scope).control.scopes =
        ⟨u.control.scopes.graph.modifyNode scope ScopeNode.leave, u.control.scopes.declared⟩ :=
      congrArg Prod.snd hpop
    refine ⟨by rw [Eval.run_popScope, hpop]; rfl, ⟨fun {n} hn => ?_, fun {c inner} hc => ?_⟩,
      fun u' huu' => huu'.left hscope, fun x hx => ?_, fun _ => False.elim⟩
    · rw [hcontrol, Scopes.isScope_leave]
      exact hu.isScope (hopens.isScope hn)
    · rw [hcontrol]
      exact Scopes.closureScope_leave scope (hu.closureScope (hopens.closureScope hc))
    · refine Callable.mono (fun hc => ?_) hx
      rw [hcontrol]
      exact Scopes.closureScope_leave scope hc
  frame site hrel _ := framing hrel site
  escape_rejected _ := False.elim
  escape_settled := False.elim

end Pairing

end GraphLang
