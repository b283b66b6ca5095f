import GraphLang.Eval.Host
import GraphLang.Proofs.Bridge.Node

/-!
# A host across a bridge

A host that holds no values gives an evaluator orders with programs, names and numbers of units in
them, and is told what they come to in snapshots and texts. In corresponding worlds the same orders
have the same reports.
-/

namespace GraphLang

variable {B C : Bridge}

/-! ### What a host can do -/

namespace Eval

theorem tracks_relay (e : Event) : Act.Tracks B EvalError.Across Span.same (relay e) (relay e) :=
  .say

theorem tracks_prepare (p : Program) :
    Act.Tracks B EvalError.Across Span.same (prepare p) (prepare p) := by
  refine .bind tracks_session fun {C} _ st st' hst => ?_
  rw [hst.config]
  split
  · obtain ⟨changes, optimized, events⟩ := p.optimize
    have hrelays : Act.Tracks C EvalError.Across Span.same (events.forM relay)
        (events.forM relay) := by
      have hsame : Span.same.each C events events := List.forall₂_same.2 fun _ _ => rfl
      refine .forM hsame fun _ e e' he => ?_
      cases he
      exact tracks_relay e
    exact .bind hrelays fun _ _ _ _ => .bind .say fun _ _ _ _ => .pure fun _ => rfl
  · exact .pure fun _ => rfl

theorem tracks_load (p : Program) : Act.Tracks B EvalError.Across Span.same (load p) (load p) := by
  unfold load
  cases p.validate with
  | error n => exact .breakDown
  | ok errors =>
    cases errors with
    | cons e errors =>
      exact .bind (tracks_relay _) fun _ _ _ _ => .throw fun _ => .plain (by simp)
    | nil =>
      refine .bind (tracks_prepare p) fun _ program program' hprogram => ?_
      subst hprogram
      refine .bind tracks_session fun {C} _ st st' hst => ?_
      have hpush : Act.Tracks C EvalError.Across (fun B => B.joins .scope)
          (pushScope st.prelude .module) (pushScope st'.prelude .module) :=
        tracks_bindingStep (grows_joins .scope) fun hBC _ _ hs =>
          hs.push (Bridge.joins_mono hBC hst.prelude) .module
      refine .bind hpush fun {E} _ scope scope' hscope => ?_
      refine .bind tracks_session fun {G} hEG st st' hst => ?_
      dsimp only
      rw [hst.units.size_eq]
      refine .bind (tracks_modifySession fun {H} hGH st st' hst => ?_) fun _ _ _ _ =>
        .bind .say fun _ _ _ _ => .pure fun _ => rfl
      have hloaded : LoadedUnit.Across H ⟨program, scope⟩ ⟨program, scope'⟩ :=
        ⟨rfl, Bridge.joins_mono (le_trans hEG hGH) hscope⟩
      exact { hst with units := hst.units.push hloaded }

theorem tracks_leaveUnit (site : CallSite) {s s' : Signal} (hs : s.Across B s') :
    Act.Tracks B EvalError.Across Value.Across (leaveUnit site s) (leaveUnit site s') := by
  cases hs with
  | normal hv | returning hv => exact .pure fun hBC => hv.mono hBC
  | raised hr =>
    have hleft := hr.leave site
    refine .bind (.report fun hBC t t' ht => ?_) fun {C} hBC _ _ _ => .throw fun hCE => ?_
    · rw [ht.display (hleft.exception.mono hBC)]
    · rw [hleft.path]
      exact .uncaught (hleft.exception.mono (le_trans hBC hCE))
  | breaking | continuing => exact .throw fun _ => .plain (by simp)

theorem tracks_run (fuel : Nat) (id : UnitId) :
    Act.Tracks B EvalError.Across Value.Across (run fuel id) (run fuel id) := by
  refine .bind (tracks_unit id) fun {C} _ loaded loaded' hloaded => ?_
  rw [hloaded.program]
  cases (loaded.program.function? mainId).bind (·.body) with
  | none => exact .throw fun _ => .plain (by simp)
  | some root =>
    refine .bind tracks_session fun {E} hCE st st' hst => ?_
    dsimp only
    rw [hst.nextFrame]
    have hbody := (blind_eval fuel).body ⟨id, loaded.program⟩ root
      (Bridge.joins_mono hCE hloaded.scope)
    exact .bind (tracks_inFrame Signal.grows_across _ hbody) fun _ _ _ hs => tracks_leaveUnit _ hs

theorem tracks_importName (into source : UnitId) (name : String) :
    Act.Tracks B EvalError.Across Span.same (importName into source name)
      (importName into source name) := by
  refine .bind (tracks_unit into) fun {C} _ target target' htarget => ?_
  refine .bind (tracks_unit source) fun {E} hCE origin origin' horigin => ?_
  refine .bind tracks_session fun {G} hEG st st' hst => ?_
  have hfound := hst.scopes.contents (Bridge.joins_mono hEG horigin.scope) name
  obtain ⟨hx, hx'⟩ | ⟨x, x', hx, hx', hvar⟩ := hfound.none_or_some <;> rw [hx, hx']
  · exact .throw fun _ => .plain (by simp)
  · have hscope := Bridge.joins_mono (le_trans hCE hEG) htarget.scope
    exact tracks_bindingStep Span.grows_same fun hGH _ _ hs =>
      hs.importVar (Bridge.joins_mono hGH hscope) (Bridge.joins_mono hGH hvar)

theorem tracks_lookup (id : UnitId) (name : String) :
    Act.Tracks B EvalError.Across (fun C => Outcomes Eq (Value.Across C)) (lookup id name)
      (lookup id name) :=
  .bind (tracks_unit id) fun _ _ _ hloaded => .bind tracks_session fun hCE _ _ hst =>
    .pure fun hEG => (hst.scopes.get (Bridge.joins_mono hCE hloaded.scope) name).mono (fun h => h)
      fun hv => hv.mono hEG

end Eval

/-! ### Orders and reports -/

/-- What a host that holds no values asks of an evaluator. -/
inductive Order where
  /-- To load a program. -/
  | load (p : Program)
  /-- To run a unit, in so many nested steps at most. -/
  | run (fuel : Nat) (id : UnitId)
  /-- To let a unit see a name of another one. -/
  | importName (into source : UnitId) (name : String)
  /-- To show the value of a name of a unit. -/
  | lookup (id : UnitId) (name : String)

/-- What an order came to, as far as a host can see it. -/
inductive Reply where
  /-- A program was loaded under a number. -/
  | loaded (id : UnitId)
  /-- A name was imported. -/
  | imported
  /-- A value, by its snapshot and its text. -/
  | shown (snapshot : Json) (text : String)
  /-- An error, by its kind, its text and its call path, with the snapshot of the exception if it is
  one that nobody caught. -/
  | failed (code message : String) (path : List CallSite) (exception : Option Json)

/-- What a host is told about an order: its answer, and all that was written, reported and traced
by then. -/
structure Report where
  /-- The answer. -/
  answer : Reply
  /-- The lines written so far. -/
  output : Array String
  /-- The events kept so far. -/
  events : Array Event
  /-- The trace so far. -/
  trace : Array TraceEntry

namespace Reply

/-- A value as a host sees it. -/
def ofValue (s : Store) (v : Value) : Reply := .shown ((View.anonymous s).one v) (s.display v)

/-- An error as a host sees it. -/
def ofError (s : Store) (e : EvalError) : Reply :=
  .failed e.code (e.message s) e.path <|
    match e with
    | .uncaught exception _ => some ((View.anonymous s).one exception)
    | _ => none

/-- What an order came to, as a host sees it. -/
def ofResult (s : Store) : Except EvalError Reply → Reply
  | .ok answer => answer
  | .error e => .ofError s e

end Reply

namespace Order

/-- Carries out an order. -/
def carryOut : Order → Eval Reply
  | .load p => do return .loaded (← Eval.load p)
  | .run fuel id => do
    let v ← Eval.run fuel id
    return .ofValue (← Act.store) v
  | .importName into source name => do
    Eval.importName into source name
    return .imported
  | .lookup id name => do
    let v ← Eval.ofBinding (← Eval.lookup id name)
    return .ofValue (← Act.store) v

/-- Carries out an order and reports what it came to. There is no report where a run takes more than
the fuel of the order. -/
def report (o : Order) (w : Machine) : Option (Report × Machine) :=
  (o.carryOut w).map fun (result, v) =>
    (⟨.ofResult v.store result, v.output, v.events, v.control.trace⟩, v)

/-- The reports on one order after the other. -/
def reports : List Order → Machine → Option (List Report)
  | [], _ => some []
  | o :: orders, w =>
    (o.report w).bind fun (report, v) => (reports orders v).map (report :: ·)

end Order

namespace Reply

variable {s s' : Store}

theorem ofValue_across (h : s.Across B s') {v v' : Value} (hv : v.Across B v') :
    ofValue s' v' = ofValue s v := by
  rw [ofValue, ofValue, h.one hv, h.display hv]

theorem ofError_across (h : s.Across B s') {e e' : EvalError} (he : e.Across B e') :
    ofError s' e' = ofError s e := by
  have hmessage := h.message he
  unfold ofError
  rw [hmessage]
  cases he with
  | plain hplain =>
    cases e with
    | uncaught exception path => exact absurd rfl (hplain exception path)
    | _ => rfl
  | uncaught hx =>
    dsimp only
    rw [h.one hx]
    rfl

theorem ofResult_across (h : s.Across B s') {r r' : Except EvalError Reply}
    (hr : Outcomes (EvalError.Across B) Eq r r') : ofResult s' r' = ofResult s r := by
  cases hr with
  | ok hsame => exact hsame.symm
  | error he => exact ofError_across h he

end Reply

namespace Order

theorem tracks_carryOut (o : Order) :
    Act.Tracks B EvalError.Across Span.same o.carryOut o.carryOut := by
  have hshown {C : Bridge} {v v' : Value} (hv : v.Across C v') :
      Act.Tracks C EvalError.Across Span.same (do return Reply.ofValue (← Act.store) v)
        (do return Reply.ofValue (← Act.store) v') :=
    .bind .store fun hCE _ _ hs => .pure fun _ => (Reply.ofValue_across hs (hv.mono hCE)).symm
  cases o with
  | load p => exact .bind (Eval.tracks_load p) fun _ _ _ hid => .pure fun _ => congrArg _ hid
  | run fuel id => exact .bind (Eval.tracks_run fuel id) fun _ _ _ hv => hshown hv
  | importName into source name =>
    exact .bind (Eval.tracks_importName into source name) fun _ _ _ _ => .pure fun _ => rfl
  | lookup id name =>
    exact .bind (Eval.tracks_lookup id name) fun _ _ _ hr =>
      .bind (Eval.tracks_ofBinding hr Value.grows_across) fun _ _ _ hv => hshown hv

/-- In corresponding worlds an order has the same report, or none, and leads to corresponding
worlds. -/
theorem report_across {w w' : Machine} (h : w.Across B w') (o : Order) :
    (o.report w = none ∧ o.report w' = none) ∨ ∃ C report v v', o.report w = some (report, v) ∧
      o.report w' = some (report, v') ∧ v.Across C v' := by
  have hfollows := (tracks_carryOut o).follows le_rfl h
  unfold report
  generalize o.carryOut w = x, o.carryOut w' = x' at hfollows
  cases hfollows with
  | stuck => exact Or.inl ⟨rfl, rfl⟩
  | @ends C r r' v v' hBC hr hv =>
    refine Or.inr ⟨C, _, v, v', rfl, ?_, hv⟩
    dsimp only [Option.map_some]
    rw [Reply.ofResult_across hv.store hr, hv.output, hv.events, hv.control.trace]

/-- A host cannot tell corresponding worlds apart, whatever orders it gives. -/
theorem reports_across {w w' : Machine} (h : w.Across B w') (orders : List Order) :
    reports orders w' = reports orders w := by
  induction orders generalizing B w w' with
  | nil => rfl
  | cons o orders ih =>
    rw [reports, reports]
    obtain ⟨hstuck, hstuck'⟩ | ⟨C, report, v, v', hv, hv', hacross⟩ := report_across h o
    · rw [hstuck, hstuck']
    · rw [hv, hv', Option.bind_some, Option.bind_some]
      dsimp only
      rw [ih hacross]

end Order

end GraphLang
