import GraphLang.Proofs.Course.Order

/-!
# Exceptions that leave a question

An action asks the evaluator about places, one after the other. Between its questions it keeps the
open calls and loses no scope, so whatever scope it works in, it can go on there. An exception that
leaves a question is shown in what the action comes to: most actions end with it at once.
-/

namespace GraphLang

open Eval

variable {ε ε' α β : Type} {scope : ScopeId} {u v w : Machine} {ev : Evaluator} {p q : Place}

/-! ### Worlds between two questions -/

/-- The second world has the call frames of the first one, and all of its scopes. -/
structure Stays (w v : Machine) : Prop where
  /-- The same calls are open. -/
  frames : v.control.frames = w.control.frames
  /-- The scopes are tidy. -/
  tidy : v.control.scopes.Tidy
  /-- No scope is lost. -/
  isScope : ∀ {n}, w.control.scopes.isScope n = true → v.control.scopes.isScope n = true

/-- Nodes can be evaluated in the scope. -/
structure LiveAt (scope : ScopeId) (w : Machine) : Prop where
  /-- The scopes are tidy. -/
  tidy : w.control.scopes.Tidy
  /-- The scope is one of them. -/
  isScope : w.control.scopes.isScope scope = true

/-- The place can be asked about. -/
def Eval.Place.Live (w : Machine) : Place → Prop
  | .node _ _ scope | .body _ _ scope => LiveAt scope w
  | .call _ _ _ => w.control.scopes.Tidy

namespace Stays

theorem refl (h : w.control.scopes.Tidy) : Stays w w := ⟨rfl, h, id⟩

theorem trans (h : Stays w v) (h' : Stays v u) : Stays w u :=
  ⟨h'.frames.trans h.frames, h'.tidy, h'.isScope ∘ h.isScope⟩

/-- A change of anything but scopes and call frames. -/
theorem of_eq (h : w.control.scopes.Tidy) (hscopes : v.control.scopes = w.control.scopes)
    (hframes : v.control.frames = w.control.frames) : Stays w v := by
  refine ⟨hframes, ?_, ?_⟩
  · rwa [hscopes]
  · intro n hn
    rwa [hscopes]

theorem withScopes {s : Scopes} (hs : Scopes.Keeps w.control.scopes s) :
    Stays w (w.withScopes s) := ⟨rfl, hs.tidy, hs.isScope⟩

theorem noted (h : w.control.scopes.Tidy) (level : Level) (target message : String)
    (fields : Store → List (String × String)) :
    Stays w (w.noted level target message fields) := by
  refine .of_eq h ?_ ?_ <;> rw [World.noted_control]

/-- A scope is left. -/
theorem left (h : w.control.scopes.Tidy) (scope : ScopeId) : Stays w (w.left scope) := by
  by_cases hscope : w.control.scopes.isScope scope = true
  · have hpop := Scopes.pop_of_isScope hscope
    refine ⟨rfl, ?_, fun {n} hn => ?_⟩
    · show (w.control.scopes.pop scope).2.Tidy
      rw [hpop]
      exact h.leave scope
    · show (w.control.scopes.pop scope).2.isScope n = true
      rw [hpop, Scopes.isScope_leave]
      exact hn
  · have hpop : (w.control.scopes.pop scope).2 = w.control.scopes := by
      rw [Scopes.pop, if_neg hscope]
    exact .of_eq h hpop rfl

end Stays

theorem LiveAt.stays (h : LiveAt scope w) (hv : Stays w v) : LiveAt scope v :=
  ⟨hv.tidy, hv.isScope h.isScope⟩

theorem LiveAt.refl (h : LiveAt scope w) : Stays w w := .refl h.tidy

/-- Whatever the evaluator comes to, it keeps the open calls and loses no scope. -/
def Evaluator.Calm (ev : Evaluator) : Prop :=
  ∀ {p w r v}, p.Live w → ev.at p w = some (r, v) → Stays w v

/-- Without fuel an evaluator comes to nothing. -/
theorem calm_eval_zero : (eval 0).Calm := by
  intro p w r v _ hrun
  cases p <;> cases hrun

/-! ### Questions -/

open Classical in
/-- The evaluator, but with an answer of its own at the moment of `p` and `v`. -/
noncomputable def Evaluator.answering (ev : Evaluator) (p : Place) (v : Machine)
    (a : Option Answer) : Evaluator where
  node code n scope w := if moment p v (.node code n scope) w then a else ev.node code n scope w
  body code root scope w :=
    if moment p v (.body code root scope) w then a else ev.body code root scope w
  call f args callNode w :=
    if moment p v (.call f args callNode) w then a else ev.call f args callNode w

/-- The action asks the evaluator about the place in the world `v`: with some answer there it ends,
and without one it does not. -/
def Asks (action : Evaluator → Act Session ε α) (ev : Evaluator) (w : Machine) (p : Place)
    (v : Machine) : Prop :=
  (∃ a, action (ev.answering p v (some a)) w ≠ none) ∧ action (ev.answering p v none) w = none

namespace Evaluator

open Classical in
theorem answering_at (ev : Evaluator) (p : Place) (v : Machine) (a : Option Answer) (q : Place)
    (w : Machine) :
    (ev.answering p v a).at q w = if moment p v q w then a else ev.at q w := by
  cases q <;> rfl

theorem answering_self (ev : Evaluator) (p : Place) (v : Machine) (a : Option Answer) :
    (ev.answering p v a).at p v = a := by
  rw [answering_at, if_pos ⟨rfl, rfl⟩]

/-- Without an answer at a moment, an evaluator comes to less. -/
theorem below_answering (ev : Evaluator) (p : Place) (v : Machine) (a : Option Answer) :
    (ev.answering p v none).Below (ev.answering p v a) := by
  intro q w
  rw [answering_at, answering_at]
  split
  · exact Or.inl rfl
  · exact Or.inr rfl

theorem answering_below (ev : Evaluator) (p : Place) (v : Machine) :
    (ev.answering p v none).Below ev := by
  intro q w
  rw [answering_at]
  split
  · exact Or.inl rfl
  · exact Or.inr rfl

end Evaluator

namespace Asks

variable {a : Evaluator → Act Session ε α} {f : Evaluator → α → Act Session ε β}

/-- An action without questions asks nothing. -/
theorem not_const {a : Act Session ε α} : ¬Asks (fun _ => a) ev w p v :=
  fun ⟨⟨_, hends⟩, hstuck⟩ => hends hstuck

/-- What is asked depends only on when the action gets stuck. -/
theorem of_none_iff {b : Evaluator → Act Session ε' β} (h : ∀ ev, a ev w = none ↔ b ev u = none)
    (hasks : Asks a ev w p v) : Asks b ev u p v := by
  obtain ⟨⟨c, hends⟩, hstuck⟩ := hasks
  exact ⟨⟨c, fun hnone => hends ((h _).2 hnone)⟩, (h _).1 hstuck⟩

theorem congr {b : Evaluator → Act Session ε α} (h : ∀ ev, a ev w = b ev u)
    (hasks : Asks a ev w p v) : Asks b ev u p v :=
  hasks.of_none_iff fun ev => by rw [h]

/-- An action that ends without an answer at a moment ends in the same way with any. -/
theorem run_eq (ha : Steps Regime.onward a) {r : Except ε α × Machine}
    (hrun : a (ev.answering p v none) w = some r) {ev' : Evaluator}
    (hbelow : (ev.answering p v none).Below ev') : a ev' w = some r := by
  rcases (ha w trivial).ends_of_below Regime.free_onward hbelow with hnone | hsame
  · rw [hrun] at hnone
    cases hnone
  · rw [← hrun]
    exact hsame.symm

/-- A sequence asks in its first action, or in what comes after it. -/
theorem of_bind (ha : Steps Regime.onward a) (h : Asks (fun ev => a ev >>= f ev) ev w p v) :
    Asks a ev w p v ∨ ∃ x u, a ev w = some (.ok x, u) ∧ Asks (fun ev => f ev x) ev u p v := by
  obtain ⟨⟨b, hends⟩, hstuck⟩ := h
  dsimp only at hends hstuck
  rw [Act.run_bind] at hends hstuck
  cases hfirst : a (ev.answering p v none) w with
  | none =>
    refine Or.inl ⟨⟨b, fun hnone => hends ?_⟩, hfirst⟩
    rw [hnone]
  | some y =>
    obtain ⟨r, u⟩ := y
    have hsame := run_eq ha hfirst (ev.below_answering p v (some b))
    rw [hfirst] at hstuck
    rw [hsame] at hends
    cases r with
    | error e => cases hstuck
    | ok x => exact Or.inr ⟨x, u, run_eq ha hfirst (ev.answering_below p v), ⟨b, hends⟩, hstuck⟩

/-- After an action without questions, a sequence asks in what comes next. -/
theorem of_const_bind {a : Act Session ε α} (ha : Steps Regime.onward fun _ => a)
    (h : Asks (fun ev => a >>= f ev) ev w p v) :
    ∃ x u, a w = some (.ok x, u) ∧ Asks (fun ev => f ev x) ev u p v :=
  (of_bind ha h).resolve_left not_const

theorem of_attempt
    (h : Asks (fun ev => (Act.attempt (a ev) : Act Session ε' (Except ε α))) ev w p v) :
    Asks a ev w p v :=
  h.of_none_iff fun ev => by rw [Act.run_attempt, Option.map_eq_none_iff]

theorem at_iff : Asks (fun ev => ev.at q) ev w p v ↔ q = p ∧ w = v := by
  unfold Asks
  simp only [Evaluator.answering_at]
  constructor
  · rintro ⟨⟨b, hends⟩, hstuck⟩
    by_contra hno
    rw [if_neg (show ¬moment p v q w from hno)] at hends hstuck
    exact hends hstuck
  · rintro ⟨rfl, rfl⟩
    exact ⟨⟨(.ok .done, w), by rw [if_pos ⟨rfl, rfl⟩]; exact Option.some_ne_none _⟩,
      by rw [if_pos ⟨rfl, rfl⟩]⟩

/-- From the start of an action to every question of it. -/
theorem onward (ha : Steps Regime.onward a) (hev : ev.Honors Regime.onward)
    (h : Asks a ev w p v) : Onward w v := by
  obtain ⟨⟨b, hends⟩, hstuck⟩ := h
  have hhonors : (ev.answering p v none).Honors Regime.onward := by
    intro q x r u hallows hx hrun
    rw [Evaluator.answering_at] at hrun
    split at hrun
    · cases hrun
    · exact hev q x r u hallows hx hrun
  have hmeets (q : Place) (x : Machine) :
      (ev.answering p v (some b)).at q x = (ev.answering p v none).at q x ∨ Onward x v := by
    rw [Evaluator.answering_at, Evaluator.answering_at]
    split
    · next hat =>
      rw [hat.2]
      exact Or.inr (.refl v)
    · exact Or.inl rfl
  refine ((ha w trivial).meets Regime.free_onward hhonors hmeets).resolve_left fun hsame => hends ?_
  exact hsame.trans hstuck

end Asks

/-! ### Actions that go on in their scope -/

/-- The action keeps the open calls and loses no scope, and where it asks about a place, it does so
too. -/
structure Settles (scope : ScopeId) (action : Evaluator → Act Session ε α) : Prop where
  /-- It asks for what it needs of the evaluator. -/
  steps : Steps Regime.onward action
  /-- It stays until it ends. -/
  stays : ∀ {ev w r v}, ev.Calm → LiveAt scope w → action ev w = some (r, v) → Stays w v
  /-- It stays until it asks. -/
  asks : ∀ {ev w p v}, ev.Calm → LiveAt scope w → Asks action ev w p v → Stays w v ∧ p.Live v

namespace Settles

variable {a : Evaluator → Act Session ε α} {f : Evaluator → α → Act Session ε β}

/-- An action without questions. -/
theorem of_const {a : Act Session ε α} (hsteps : Steps Regime.onward fun _ => a)
    (h : ∀ {w r v}, LiveAt scope w → a w = some (r, v) → Stays w v) :
    Settles scope fun _ => a :=
  ⟨hsteps, fun _ => h, fun _ _ hasks => absurd hasks Asks.not_const⟩

theorem pure (x : α) : Settles scope fun _ => (Pure.pure x : Act Session ε α) :=
  .of_const (.pure x) (by rintro w r v h ⟨⟩; exact h.refl)

theorem throw (e : ε) : Settles scope fun _ => (MonadExcept.throw e : Act Session ε α) :=
  .of_const (.throw e) (by rintro w r v h ⟨⟩; exact h.refl)

theorem outOfFuel : Settles scope fun _ => (Act.outOfFuel : Act Session ε α) :=
  .of_const .outOfFuel (by rintro w r v h ⟨⟩)

theorem store : Settles scope fun _ => (Act.store : Act Session ε Store) :=
  .of_const .store (by rintro w r v h ⟨⟩; exact h.refl)

theorem container (g : GraphId) :
    Settles scope fun _ => (Act.container g : Act Session ε Container) :=
  .of_const (.container g) (by rintro w r v h ⟨⟩; exact h.refl)

theorem report (level : Level) (target message : String)
    (fields : Store → List (String × String)) :
    Settles scope fun _ => (Act.report level target message fields : Act Session ε Unit) :=
  .of_const (.report _ _ _ _) (by rintro w r v h ⟨⟩; exact .noted h.tidy _ _ _ _)

theorem alloc {c : Container} (hc : c.frozen = false) :
    Settles scope fun _ => (Act.alloc c : Act Session ε Value) :=
  .of_const (.alloc hc) (by rintro w r v h ⟨⟩; exact .of_eq h.tidy rfl rfl)

theorem newException (kind message : String) (payload : Value) (path : List CallSite) :
    Settles scope fun _ => (Act.newException kind message payload path : Act Session ε Value) :=
  .of_const (.newException _ _ _ _) (by rintro w r v h ⟨⟩; exact .of_eq h.tidy rfl rfl)

theorem faultException (fault : Fault) :
    Settles scope fun _ => (Act.faultException fault : Act Session ε Value) := .newException _ _ _ _

theorem bind (ha : Settles scope a) (hf : ∀ x, Settles scope fun ev => f ev x) :
    Settles scope fun ev => a ev >>= f ev where
  steps := ha.steps.bind fun x => (hf x).steps
  stays := by
    intro ev w r v hev hw hrun
    rw [Act.run_bind] at hrun
    cases hfirst : a ev w with
    | none =>
      rw [hfirst] at hrun
      cases hrun
    | some y =>
      obtain ⟨z, u⟩ := y
      have hu := ha.stays hev hw hfirst
      rw [hfirst] at hrun
      cases z with
      | error e =>
        cases hrun
        exact hu
      | ok x => exact hu.trans ((hf x).stays hev (hw.stays hu) hrun)
  asks := by
    intro ev w p v hev hw hasks
    rcases Asks.of_bind ha.steps hasks with hfirst | ⟨x, u, hrun, hnext⟩
    · exact ha.asks hev hw hfirst
    · have hu := ha.stays hev hw hrun
      obtain ⟨hv, hlive⟩ := (hf x).asks hev (hw.stays hu) hnext
      exact ⟨hu.trans hv, hlive⟩

theorem map (g : α → β) (ha : Settles scope a) : Settles scope fun ev => g <$> a ev := by
  simp only [map_eq_pure_bind]
  exact ha.bind fun x => .pure (g x)

theorem attempt (ha : Settles scope a) :
    Settles scope fun ev => (Act.attempt (a ev) : Act Session ε' (Except ε α)) where
  steps := ha.steps.attempt
  stays := by
    intro ev w r v hev hw hrun
    obtain ⟨y, hy, heq⟩ := Option.map_eq_some_iff.1 hrun
    cases heq
    exact ha.stays hev hw hy
  asks hev hw hasks := ha.asks hev hw (hasks.of_attempt)

theorem forM {f : Evaluator → α → Act Session ε PUnit} (xs : List α)
    (h : ∀ x, Settles scope fun ev => f ev x) : Settles scope fun ev => xs.forM (f ev) := by
  induction xs with
  | nil => exact .pure _
  | cons x xs ih => exact (h x).bind fun _ => ih

/-- A question. -/
theorem ask (hp : ∀ {w}, LiveAt scope w → p.Live w) : Settles scope fun ev => ev.at p where
  steps := .ask p (Regime.free_onward.allows p)
  stays hev hw hrun := hev (hp hw) hrun
  asks := by
    intro ev w q v _ hw hasks
    obtain ⟨rfl, rfl⟩ := Asks.at_iff.1 hasks
    exact ⟨hw.refl, hp hw⟩

end Settles

/-! ### Exceptions in flight -/

/-- An exception leaves a place: the place, the world in which it was asked about, what is in
flight, and the world in which it leaves. -/
structure Flight where
  /-- The place. -/
  place : Place
  /-- The world of the question. -/
  start : Machine
  /-- The exception in flight. -/
  raised : Raised
  /-- The world in which it leaves. -/
  landed : Machine

/-- The evaluator comes to the exception at the place. -/
def Flight.By (q : Flight) (ev : Evaluator) : Prop :=
  ev.at q.place q.start = some (.ok (.raised q.raised), q.landed)

/-- Where an exception leaves a question of the action, the action ends, and `shown` says what it
comes to. -/
structure Conveys (scope : ScopeId) (shown : Flight → Except ε α → Machine → Prop)
    (action : Evaluator → Act Session ε α) : Prop extends Settles scope action where
  /-- What the action comes to. -/
  shows : ∀ {ev w} {q : Flight}, ev.Calm → LiveAt scope w →
    Asks action ev w q.place q.start → q.By ev → ∃ r v, action ev w = some (r, v) ∧ shown q r v

namespace Conveys

variable {a : Evaluator → Act Session ε α} {f : Evaluator → α → Act Session ε β}
  {shown : Flight → Except ε α → Machine → Prop} {shown' : Flight → Except ε β → Machine → Prop}

/-- From an action without questions no exception comes. -/
theorem of_const {a : Act Session ε α} (h : Settles scope fun _ => a) :
    Conveys scope shown fun _ => a :=
  ⟨h, fun _ _ hasks => absurd hasks Asks.not_const⟩

theorem mono {weaker : Flight → Except ε α → Machine → Prop} (ha : Conveys scope shown a)
    (h : ∀ {q r v}, shown q r v → weaker q r v) : Conveys scope weaker a where
  toSettles := ha.toSettles
  shows := by
    intro ev w q hev hw hasks hq
    obtain ⟨r, v, hrun, hshown⟩ := ha.shows hev hw hasks hq
    exact ⟨r, v, hrun, h hshown⟩

/-- A sequence passes on what its first action fails with, and goes on where that shows the
exception in a result. -/
theorem bind (ha : Conveys scope shown a) (hf : ∀ x, Conveys scope shown' fun ev => f ev x)
    (herror : ∀ {q e v}, shown q (.error e) v → shown' q (.error e) v)
    (hok : ∀ {q x v}, shown q (.ok x) v → ∀ ev, ∃ r u, f ev x v = some (r, u) ∧ shown' q r u) :
    Conveys scope shown' fun ev => a ev >>= f ev where
  toSettles := ha.toSettles.bind fun x => (hf x).toSettles
  shows := by
    intro ev w q hev hw hasks hq
    rw [Act.run_bind]
    rcases Asks.of_bind ha.steps hasks with hfirst | ⟨x, u, hrun, hnext⟩
    · obtain ⟨r, v, hrun, hshown⟩ := ha.shows hev hw hfirst hq
      rw [hrun]
      cases r with
      | error e => exact ⟨.error e, v, rfl, herror hshown⟩
      | ok x => exact hok hshown ev
    · rw [hrun]
      exact (hf x).shows hev (hw.stays (ha.stays hev hw hrun)) hnext hq

/-- A sequence whose first action has no questions. -/
theorem const_bind {a : Act Session ε α} (ha : Settles scope fun _ => a)
    (hf : ∀ x, Conveys scope shown' fun ev => f ev x) :
    Conveys scope shown' fun ev => a >>= f ev := by
  have hconst : Conveys scope (fun _ _ _ => False) fun _ => a := .of_const ha
  exact hconst.bind hf False.elim False.elim

theorem attempt (ha : Conveys scope shown a) :
    Conveys scope (fun q r v => ∃ r', r = .ok r' ∧ shown q r' v)
      fun ev => (Act.attempt (a ev) : Act Session ε' (Except ε α)) where
  toSettles := ha.toSettles.attempt
  shows := by
    intro ev w q hev hw hasks hq
    obtain ⟨r, v, hrun, hshown⟩ := ha.shows hev hw (hasks.of_attempt) hq
    refine ⟨.ok r, v, ?_, r, rfl, hshown⟩
    rw [Act.run_attempt, hrun]
    rfl

/-- A question shows what leaves it. -/
theorem ask (hp : ∀ {w}, LiveAt scope w → p.Live w) :
    Conveys scope (fun q r v => r = .ok (.raised q.raised) ∧ v = q.landed ∧ q.place = p)
      fun ev => ev.at p where
  toSettles := .ask hp
  shows := by
    intro ev w q _ _ hasks hq
    obtain ⟨hplace, hstart⟩ := Asks.at_iff.1 hasks
    refine ⟨_, _, ?_, rfl, rfl, hplace.symm⟩
    rw [hplace, hstart]
    exact hq

end Conveys

end GraphLang
