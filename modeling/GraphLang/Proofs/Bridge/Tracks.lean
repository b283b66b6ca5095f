import GraphLang.Proofs.Bridge.Scopes
import GraphLang.Proofs.Bridge.Store
import GraphLang.Proofs.Simulation.Rules

/-!
# Runs across a bridge

An action on the one side tracks an action on the other side if both come to related results
wherever they are run in corresponding worlds, now and across any larger bridge. Sequences, attempts
and primitive actions track each other, so whole programs do.
-/

namespace GraphLang

variable {B C : Bridge} {ε ε' α β : Type} {F : Span ε} {F' : Span ε'} {A : Span α} {D : Span β}

/-! ### Worlds -/

/-- The same program in scopes that are joined. -/
structure LoadedUnit.Across (B : Bridge) (u u' : LoadedUnit) : Prop where
  program : u'.program = u.program
  scope : B.joins .scope u.scope u'.scope

/-- The evaluators are in corresponding states. -/
structure Session.Across (B : Bridge) (st st' : Session) : Prop where
  config : st'.config = st.config
  scopes : st.scopes.Across B st'.scopes
  prelude : B.joins .scope st.prelude st'.prelude
  units : Entrywise (LoadedUnit.Across B) st.units st'.units
  rulesets : Span.each Ruleset.Across B st.rulesets st'.rulesets
  frames : st'.frames = st.frames
  nextFrame : st'.nextFrame = st.nextFrame
  trace : st'.trace = st.trace
  pendingFatal : Span.maybe EvalError.Across B st.pendingFatal st'.pendingFatal

/-- The worlds correspond: nobody who looks at what was written and reported can tell them apart. -/
structure World.Across (B : Bridge) (w w' : Machine) : Prop where
  store : w.store.Across B w'.store
  output : w'.output = w.output
  verbosity : w'.verbosity = w.verbosity
  events : w'.events = w.events
  control : w.control.Across B w'.control

theorem LoadedUnit.grows_across : Span.Grows LoadedUnit.Across :=
  fun h _ _ hu => ⟨hu.program, Bridge.joins_mono h hu.scope⟩

/-- New scopes across a larger bridge. -/
theorem Session.Across.withScopes {st st' : Session} (h : st.Across B st') (hBC : B ≤ C)
    {s s' : Scopes} (hs : s.Across C s') :
    Session.Across C { st with scopes := s } { st' with scopes := s' } where
  config := h.config
  scopes := hs
  prelude := B.joins_mono hBC h.prelude
  units := h.units.mono fun hu => LoadedUnit.grows_across hBC hu
  rulesets := Ruleset.grows_across.each hBC h.rulesets
  frames := h.frames
  nextFrame := h.nextFrame
  trace := h.trace
  pendingFatal := EvalError.grows_across.maybe hBC h.pendingFatal

namespace World.Across

variable {w w' : Machine}

theorem withControl (h : w.Across B w') {st st' : Session} (hst : st.Across B st') :
    World.Across B { w with control := st } { w' with control := st' } :=
  ⟨h.store, h.output, h.verbosity, h.events, hst⟩

/-- New stores, with containers that both runs know from now on. -/
theorem withStore (h : w.Across B w') {more : GraphId → Prop} {s s' : Store}
    (hs : s.Across (B.share more) s') : (w.withStore s).Across (B.share more) (w'.withStore s') :=
  ⟨hs, h.output, h.verbosity, h.events,
    h.control.withScopes (B.le_share more) (h.control.scopes.mono (B.le_share more) id)⟩

/-- New stores with the same containers. -/
theorem setStore (h : w.Across B w') {s s' : Store} (hs : s.Across B s') :
    (w.withStore s).Across B (w'.withStore s') :=
  ⟨hs, h.output, h.verbosity, h.events, h.control⟩

/-- New scopes, with nodes that are joined from now on. -/
theorem withScopes (h : w.Across B w') (hBC : B ≤ C) (hshares : ∀ {g}, C.shares g → B.shares g)
    {s s' : Scopes} (hs : s.Across C s') : (w.withScopes s).Across C (w'.withScopes s') :=
  ⟨h.store.mono hBC hshares, h.output, h.verbosity, h.events, h.control.withScopes hBC hs⟩

theorem noted (h : w.Across B w') (level : Level) (target message : String)
    {fields fields' : Store → List (String × String)}
    (hfields : fields' w'.store = fields w.store) :
    (w.noted level target message fields).Across B (w'.noted level target message fields') := by
  unfold World.noted
  rw [h.verbosity, hfields, h.events]
  split
  · exact ⟨h.store, h.output, rfl, rfl, h.control⟩
  · exact h

end World.Across

/-! ### Runs -/

/-- Both runs are stuck, or come to related results in worlds that correspond across a larger
bridge. -/
inductive Follows (B : Bridge) (F : Span ε) (A : Span α) :
    Option (Except ε α × Machine) → Option (Except ε α × Machine) → Prop
  | stuck : Follows B F A none none
  | ends {C : Bridge} {r r' : Except ε α} {w w' : Machine} (hBC : B ≤ C)
    (hr : Outcomes (F C) (A C) r r') (hw : w.Across C w') :
    Follows B F A (some (r, w)) (some (r', w'))

theorem Follows.ok {x x' : α} {w w' : Machine} (hw : w.Across B w') (hx : A B x x') :
    Follows B F A (some (.ok x, w)) (some (.ok x', w')) := .ends le_rfl (.ok hx) hw

theorem Follows.error {e e' : ε} {w w' : Machine} (hw : w.Across B w') (he : F B e e') :
    Follows B F A (some (.error e, w)) (some (.error e', w')) := .ends le_rfl (.error he) hw

theorem Follows.weaken {x x' : Option (Except ε α × Machine)} (h : Follows C F A x x')
    (hBC : B ≤ C) : Follows B F A x x' := by
  cases h with
  | stuck => exact .stuck
  | ends hCD hr hw => exact .ends (le_trans hBC hCD) hr hw

/-- A sequence goes on in the worlds that its first actions came to. -/
theorem Follows.bind {a a' : Act Session ε α} {f f' : α → Act Session ε β} {w w' : Machine}
    (ha : Follows B F A (a w) (a' w'))
    (hf : ∀ {C}, B ≤ C → ∀ {x x'}, A C x x' → ∀ {u u'}, u.Across C u' →
      Follows C F D (f x u) (f' x' u')) :
    Follows B F D ((a >>= f) w) ((a' >>= f') w') := by
  rw [Act.run_bind, Act.run_bind]
  generalize a w = y, a' w' = y' at ha
  cases ha with
  | stuck => exact .stuck
  | ends hBC hr hu =>
    cases hr with
    | ok hx => exact (hf hBC hx hu).weaken hBC
    | error he => exact .ends hBC (.error he) hu

theorem Follows.map {a a' : Act Session ε α} {f f' : α → β} {w w' : Machine}
    (ha : Follows B F A (a w) (a' w'))
    (hf : ∀ {C}, B ≤ C → ∀ {x x'}, A C x x' → D C (f x) (f' x')) :
    Follows B F D ((f <$> a) w) ((f' <$> a') w') := by
  rw [map_eq_pure_bind, map_eq_pure_bind]
  exact .bind ha fun hBC _ _ hx _ _ hu => .ok hu (hf hBC hx)

/-! ### Actions -/

/-- The actions come to related results wherever they are run in corresponding worlds. -/
structure Act.Tracks (B : Bridge) (F : Span ε) (A : Span α) (a a' : Act Session ε α) : Prop where
  follows : ∀ {C}, B ≤ C → ∀ {w w'}, w.Across C w' → Follows C F A (a w) (a' w')

namespace Act.Tracks

variable {a a' : Act Session ε α}

theorem mono (h : Tracks B F A a a') (hBC : B ≤ C) : Tracks C F A a a' :=
  ⟨fun hCD => h.follows (le_trans hBC hCD)⟩

theorem pure {x x' : α} (h : ∀ {C}, B ≤ C → A C x x') :
    Tracks B F A (Pure.pure x) (Pure.pure x') :=
  ⟨fun hBC _ _ hw => .ok hw (h hBC)⟩

theorem throw {e e' : ε} (h : ∀ {C}, B ≤ C → F C e e') :
    Tracks B F A (MonadExcept.throw e) (MonadExcept.throw e') :=
  ⟨fun hBC _ _ hw => .error hw (h hBC)⟩

theorem outOfFuel : Tracks B F A Act.outOfFuel Act.outOfFuel := ⟨fun _ _ _ _ => .stuck⟩

theorem breakDown : Tracks B F A Act.breakDown Act.breakDown := ⟨fun _ _ _ _ => .stuck⟩

theorem bind {f f' : α → Act Session ε β} (ha : Tracks B F A a a')
    (hf : ∀ {C}, B ≤ C → ∀ {x x'}, A C x x' → Tracks C F D (f x) (f' x')) :
    Tracks B F D (a >>= f) (a' >>= f') :=
  ⟨fun hBC _ _ hw => .bind (ha.follows hBC hw) fun hCE _ _ hx _ _ hu =>
    (hf (le_trans hBC hCE) hx).follows le_rfl hu⟩

theorem map {f f' : α → β} (ha : Tracks B F A a a')
    (hf : ∀ {C}, B ≤ C → ∀ {x x'}, A C x x' → D C (f x) (f' x')) :
    Tracks B F D (f <$> a) (f' <$> a') :=
  ⟨fun hBC _ _ hw => .map (ha.follows hBC hw) fun hCE => hf (le_trans hBC hCE)⟩

/-- An attempt never fails: it gives what the action came to. -/
theorem attempt (ha : Tracks B F A a a') :
    Tracks B F' (fun C => Outcomes (F C) (A C)) (Act.attempt a) (Act.attempt a') := by
  refine ⟨fun {C} hBC {w w'} hw => ?_⟩
  rw [Act.run_attempt, Act.run_attempt]
  generalize hx : a w = x, hx' : a' w' = x'
  have hfollows := ha.follows hBC hw
  rw [hx, hx'] at hfollows
  cases hfollows with
  | stuck => exact .stuck
  | ends hCD hr hu => exact .ends hCD (.ok hr) hu

/-- A list of actions in turn. -/
theorem forM {f f' : α → Act Session ε PUnit} {xs xs' : List α} (hxs : A.each B xs xs')
    (hf : ∀ {C}, B ≤ C → ∀ {x x'}, A B x x' → Tracks C F Span.same (f x) (f' x')) :
    Tracks B F Span.same (xs.forM f) (xs'.forM f') := by
  suffices hall : ∀ {C}, B ≤ C → Tracks C F Span.same (xs.forM f) (xs'.forM f') from hall le_rfl
  induction hxs with
  | nil => exact fun _ => .pure fun _ => rfl
  | cons hx _ ih => exact fun hBC => .bind (hf hBC hx) fun hCE _ _ _ => ih (le_trans hBC hCE)

/-! ### Primitive actions -/

theorem store : Tracks B F Store.Across Act.store Act.store :=
  ⟨fun _ _ _ hw => .ok hw hw.store⟩

theorem container {g : GraphId} (hg : B.shares g) :
    Tracks B F Container.Across (Act.container g) (Act.container g) :=
  ⟨fun hBC _ _ hw => .ok hw (hw.store.container (B.shares_mono hBC hg))⟩

theorem report {level : Level} {target message : String}
    {fields fields' : Store → List (String × String)}
    (h : ∀ {C}, B ≤ C → ∀ {s s' : Store}, s.Across C s' → fields' s' = fields s) :
    Tracks B F Span.same (Act.report level target message fields)
      (Act.report level target message fields') :=
  ⟨fun hBC _ _ hw => .ok (hw.noted level target message (h hBC hw.store)) rfl⟩

/-- The same event without a look at the store. -/
theorem say {level : Level} {target message : String} {fields : List (String × String)} :
    Tracks B F Span.same (Act.report level target message fun _ => fields)
      (Act.report level target message fun _ => fields) :=
  .report fun _ _ _ _ => rfl

theorem modify {f f' : Machine → Machine}
    (h : ∀ {C}, B ≤ C → ∀ {w w' : Machine}, w.Across C w' → (f w).Across C (f' w')) :
    Tracks B F Span.same (modify f : Act Session ε PUnit) (modify f') :=
  ⟨fun hBC _ _ hw => .ok (h hBC hw) rfl⟩

theorem onStore {step step' : Store → α × Store}
    (h : ∀ {C}, B ≤ C → ∀ {s s' : Store}, s.Across C s' → Store.Leads C A (step s) (step' s')) :
    Tracks B F A (Act.onStore step) (Act.onStore step') := by
  refine ⟨fun {C} hBC {w w'} hw => ?_⟩
  obtain ⟨more, hresult, hstore⟩ := h hBC hw.store
  exact .ends (C.le_share more) (.ok hresult) (hw.withStore hstore)

theorem alloc {c c' : Container} (hc : c.Across B c') (hneat : c.Neat) :
    Tracks B F Value.Across (Act.alloc c) (Act.alloc c') := by
  have hadded : Tracks B F (fun C g g' => g' = g ∧ C.shares g) (Act.onStore (·.alloc c))
      (Act.onStore (·.alloc c')) :=
    .onStore fun hBC _ _ hs => hs.alloc (Container.grows_across hBC hc) hneat
  refine .bind hadded fun _ g g' hg => .pure fun hCE => ?_
  rw [hg.1]
  exact .graph (Bridge.shares_mono hCE hg.2)

theorem newException (kind message : String) {v v' : Value} (hv : v.Across B v')
    (path : List CallSite) : Tracks B F Value.Across (Act.newException kind message v path)
      (Act.newException kind message v' path) :=
  .onStore fun hBC _ _ hs => hs.newException kind message (hv.mono hBC) path

theorem faultException (f : Fault) :
    Tracks B F Value.Across (Act.faultException f) (Act.faultException f) :=
  .newException _ _ .nil _

end Act.Tracks

/-! ### Actions of the evaluator -/

namespace Eval

open Act

theorem tracks_session : Tracks B EvalError.Across Session.Across session session :=
  ⟨fun _ _ _ hw => .ok hw hw.control⟩

theorem tracks_modifySession {f f' : Session → Session}
    (h : ∀ {C}, B ≤ C → ∀ {st st' : Session}, st.Across C st' → (f st).Across C (f' st')) :
    Tracks B EvalError.Across Span.same (modifySession f) (modifySession f') :=
  .modify fun hBC _ _ hw => hw.withControl (h hBC hw.control)

theorem tracks_onScopes {step step' : Scopes → Except BindingError α × Scopes}
    (h : ∀ {C}, B ≤ C → ∀ {s s' : Scopes}, s.Across C s' → Scopes.Leads C A (step s) (step' s')) :
    Tracks B EvalError.Across (fun C => Outcomes Eq (A C)) (onScopes step) (onScopes step') := by
  refine ⟨fun {C} hBC {w w'} hw => ?_⟩
  obtain ⟨E, hCE, hshares, hresult, hscopes⟩ := h hBC hw.control.scopes
  exact .ends hCE (.ok hresult) (hw.withScopes hCE hshares hscopes)

end Eval

end GraphLang
