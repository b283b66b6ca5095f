import GraphLang.Proofs.Bridge.Calls

/-!
# Nodes across a bridge

Every operation comes to corresponding signals in scopes that are joined. By induction on the fuel
so do all nodes, bodies and functions.
-/

namespace GraphLang

variable {B C : Bridge} {α β : Type} {A : Span α} {D : Span β}

/-! ### Steps -/

namespace Step

/-- Both steps come to related values, or leave the normal course with corresponding signals. -/
def Comes (A : Span α) : Span (Except Signal α) := fun B => Outcomes (Signal.Across B) (A B)

/-- The steps come to related results wherever they are taken in corresponding worlds. -/
structure Tracks (B : Bridge) (A : Span α) (a a' : Step α) : Prop where
  run : Act.Tracks (α := Except Signal α) B EvalError.Across (Comes A) a a'

namespace Tracks

variable {a a' : Step α}

theorem pure {x x' : α} (h : ∀ {C}, B ≤ C → A C x x') :
    Tracks B A (Pure.pure x) (Pure.pure x') := ⟨.pure fun hBC => .ok (h hBC)⟩

/-- A signal leaves the normal course. -/
theorem throw {s s' : Signal} (h : ∀ {C}, B ≤ C → s.Across C s') :
    Tracks B A (MonadExcept.throw s) (MonadExcept.throw s') := ⟨.pure fun hBC => .error (h hBC)⟩

theorem fatal {e e' : EvalError} (h : ∀ {C}, B ≤ C → e.Across C e') :
    Tracks B A (Step.fatal e) (Step.fatal e') :=
  ⟨⟨fun hBC _ _ hw => .error hw (h hBC)⟩⟩

theorem bind {f f' : α → Step β} (ha : Tracks B A a a')
    (hf : ∀ {C}, B ≤ C → ∀ {x x'}, A C x x' → Tracks C D (f x) (f' x')) :
    Tracks B D (a >>= f) (a' >>= f') := by
  refine ⟨⟨fun {C} hBC {w w'} hw => ?_⟩⟩
  rw [Step.run_bind, Step.run_bind]
  have hfollows := ha.run.follows hBC hw
  generalize a w = y, a' w' = y' at hfollows
  cases hfollows with
  | stuck => exact .stuck
  | ends hCE hr hu =>
    cases hr with
    | error he => exact .ends hCE (.error he) hu
    | ok hcomes =>
      cases hcomes with
      | ok hx => exact ((hf (le_trans hBC hCE) hx).run.follows le_rfl hu).weaken hCE
      | error hs => exact .ends hCE (.ok (.error hs)) hu

theorem lift {a a' : Eval α} (ha : Act.Tracks B EvalError.Across A a a') :
    Tracks B A (Step.lift a) (Step.lift a') := by
  have hvalue : Act.Tracks B EvalError.Across (fun C => Outcomes (Signal.Across C) (A C))
      (Except.ok <$> a) (Except.ok <$> a') := ha.map fun _ _ _ hx => .ok hx
  exact ⟨hvalue⟩

/-- A step whose value is not looked at. -/
theorem discard_bind {f f' : PUnit → Step β} (ha : Tracks B A a a')
    (hf : ∀ {C}, B ≤ C → Tracks C D (f ⟨⟩) (f' ⟨⟩)) :
    Tracks B D (discard a >>= f) (discard a' >>= f') := by
  have hdiscard (a : Step α) (f : PUnit → Step β) : (discard a >>= f) = a >>= fun _ => f ⟨⟩ := by
    simp only [discard, Functor.discard, map_const, Function.comp_apply, map_eq_pure_bind,
      bind_assoc, pure_bind, Function.const_apply]
  rw [hdiscard, hdiscard]
  exact .bind ha fun hBC _ _ _ => hf hBC

theorem store : Tracks B Store.Across Step.store Step.store := .lift .store

theorem session : Tracks B Session.Across Step.session Step.session := .lift Eval.tracks_session

theorem report {level : Level} {message : String}
    {fields fields' : Store → List (String × String)}
    (h : ∀ {C}, B ≤ C → ∀ {s s' : Store}, s.Across C s' → fields' s' = fields s) :
    Tracks B Span.same (Step.report level message fields) (Step.report level message fields') :=
  .lift (.report h)

/-- The same event without a look at the store. -/
theorem say {level : Level} {message : String} {fields : List (String × String)} :
    Tracks B Span.same (Step.report level message fun _ => fields)
      (Step.report level message fun _ => fields) :=
  .report fun _ _ _ _ => rfl

theorem ofSignal {s s' : Signal} (hs : s.Across B s') :
    Tracks B Value.Across (Step.ofSignal s) (Step.ofSignal s') := by
  cases hs with
  | normal hv => exact .pure fun hBC => hv.mono hBC
  | returning hv => exact .throw fun hBC => .returning (hv.mono hBC)
  | breaking => exact .throw fun _ => .breaking
  | continuing => exact .throw fun _ => .continuing
  | raised hr => exact .throw fun hBC => .raised (Raised.grows_across hBC hr)

theorem raise {v v' : Value} (hv : v.Across B v') : Tracks B A (Step.raise v) (Step.raise v') :=
  .throw fun hBC => .raised (.new (hv.mono hBC))

theorem fault (f : Fault) : Tracks B A (Step.fault f) (Step.fault f) :=
  .bind (.lift (.faultException f)) fun _ _ _ hv => .raise hv

theorem ofFault {r r' : Except Fault α} (hr : Outcomes Eq (A B) r r') (hA : A.Grows) :
    Tracks B A (Step.ofFault r) (Step.ofFault r') := by
  cases hr with
  | ok hx => exact .pure fun hBC => hA hBC hx
  | error he =>
    subst he
    exact .fault _

/-- The same outcome. -/
theorem ofSame (r : Except Fault α) :
    Tracks B Span.same (Step.ofFault r) (Step.ofFault r) := by
  cases r with
  | ok x => exact .pure fun _ => rfl
  | error f => exact .fault f

theorem ofSpec {r r' : Except SpecError α} (hr : Outcomes Eq (A B) r r') (hA : A.Grows) :
    Tracks B A (Step.ofSpec r) (Step.ofSpec r') := by
  cases hr with
  | ok hx => exact .pure fun hBC => hA hBC hx
  | error he =>
    subst he
    exact .fault _

theorem ofBinding {r r' : Except BindingError α} (hr : Outcomes Eq (A B) r r') (hA : A.Grows) :
    Tracks B A (Step.ofBinding r) (Step.ofBinding r') := by
  cases hr with
  | ok hx => exact .pure fun hBC => hA hBC hx
  | @error e e' he =>
    subst he
    cases e with
    | unbound name => exact .fault _
    | immutable name => exact .fault _
    | _ => exact .fatal fun _ => .plain (by simp)

end Tracks

/-! ### Children -/

variable {ev : Evaluator} {code : Code} {n : Nat} {scope scope' : ScopeId}

theorem tracks_child (code : Code) (n : Nat) (role : Role) :
    Tracks B Span.same (child code n role) (child code n role) := by
  unfold child
  split
  · exact .pure fun _ => rfl
  · exact .fatal fun _ => .plain (by simp)

theorem tracks_node (hev : ev.Blind) (code : Code) (n : Nat)
    (hscope : B.joins .scope scope scope') :
    Tracks B Value.Across (node ev code n scope) (node ev code n scope') :=
  .bind (.lift (hev.node code n hscope)) fun _ _ _ hs => .ofSignal hs

theorem tracks_role (hev : ev.Blind) (code : Code) (n : Nat) (r : Role)
    (hscope : B.joins .scope scope scope') :
    Tracks B Value.Across (role ev code n r scope) (role ev code n r scope') := by
  refine .bind (tracks_child code n r) fun hBC c c' hc => ?_
  subst hc
  exact tracks_node hev code c (Bridge.joins_mono hBC hscope)

theorem tracks_role? (hev : ev.Blind) (code : Code) (n : Nat) (r : Role)
    (hscope : B.joins .scope scope scope') :
    Tracks B (Span.maybe Value.Across) (role? ev code n r scope) (role? ev code n r scope') := by
  unfold role?
  split
  · exact .bind (tracks_node hev code _ hscope) fun _ _ _ hv => .pure fun hCE => .some (hv.mono hCE)
  · exact .pure fun _ => .none

theorem tracks_nodes (hev : ev.Blind) (code : Code) (hscope : B.joins .scope scope scope')
    (children : List (Role × Nat)) :
    Tracks B (Span.each Value.Across) (nodes ev code scope children)
      (nodes ev code scope' children) := by
  induction children generalizing B with
  | nil => exact .pure fun _ => .nil
  | cons c children ih =>
    refine .bind (tracks_node hev code c.2 hscope) fun hBC _ _ hv => ?_
    refine .bind (ih (Bridge.joins_mono hBC hscope)) fun hCE _ _ hvs => ?_
    exact .pure fun hEF => .cons (hv.mono (le_trans hCE hEF)) (Value.grows_across.each hEF hvs)

theorem tracks_family (hev : ev.Blind) (code : Code) (n : Nat) (r : Role)
    (hscope : B.joins .scope scope scope') :
    Tracks B (Span.each Value.Across) (family ev code n r scope) (family ev code n r scope') :=
  tracks_nodes hev code hscope _

/-- Both runs know the container. -/
def Known : Span GraphId := fun B g g' => g' = g ∧ B.shares g

theorem tracks_container {v v' : Value} (hv : v.Across B v') :
    Tracks B Known (container v) (container v') := by
  have hother : Tracks B Known
      (do fault (.notContainer ((← Step.store).typeOf v)))
      (do fault (.notContainer ((← Step.store).typeOf v'))) := by
    refine .bind .store fun hBC s s' hs => ?_
    rw [hs.typeOf (hv.mono hBC)]
    exact .fault _
  cases hv with
  | graph hg => exact .pure fun hBC => ⟨rfl, Bridge.shares_mono hBC hg⟩
  | _ => exact hother

/-! ### Governed changes -/

theorem tracks_mutationFailed {e e' : MutationError String} (he : e.Across B e') :
    Tracks B A (mutationFailed e) (mutationFailed e') := by
  refine .bind .store fun {C} hBC s s' hs => ?_
  have htext : e'.message s' id = e.message s id := hs.mutationMessage (by
    cases he with
    | plain h => exact .plain h
    | raised hr => exact .raised (Raised.grows_across hBC hr))
  dsimp only
  rw [htext]
  refine .bind .say fun {E} hCE _ _ _ => ?_
  cases he with
  | raised hr =>
    exact .throw fun hEF => .raised (Raised.grows_across (le_trans (le_trans hBC hCE) hEF) hr)
  | plain hplain =>
    cases e with
    | transformRaised rule raised => exact absurd rfl (hplain rule raised)
    | aborted text =>
      have htake : Act.Tracks E EvalError.Across (Span.maybe EvalError.Across) Eval.takeFatal
          Eval.takeFatal := by
        refine .bind Eval.tracks_session fun _ st st' hst => ?_
        refine .bind (Eval.tracks_modifySession fun _ st st' hst => ?_) fun hEF _ _ _ => ?_
        · exact { hst with pendingFatal := .none }
        · exact .pure fun hFG => EvalError.grows_across.maybe (le_trans hEF hFG) hst.pendingFatal
      refine .bind (.lift htake) fun _ kept kept' hkept => ?_
      cases hkept with
      | none => exact .fatal fun _ => .plain (by simp)
      | some he => exact .fatal fun hFG => EvalError.grows_across hFG he
    | _ => exact .fault _

theorem tracks_governed {change change' : Act Session (MutationError String) α} (hA : A.Grows)
    (h : Act.Tracks B MutationError.Across A change change') :
    Tracks B A (governed change) (governed change') := by
  refine .bind (.lift h.attempt) fun _ r r' hr => ?_
  cases hr with
  | ok hx => exact .pure fun hCE => hA hCE hx
  | error he => exact tracks_mutationFailed he

/-! ### Loops -/

theorem tracks_whileLoop {condition condition' : Step Value} {body body' : Eval Signal}
    (hcondition : Tracks B Value.Across condition condition')
    (hbody : Act.Tracks B EvalError.Across Signal.Across body body') (fuel : Nat) :
    Tracks B Value.Across (whileLoop condition body fuel) (whileLoop condition' body' fuel) := by
  induction fuel generalizing B with
  | zero => exact .lift .outOfFuel
  | succ fuel ih =>
    refine .bind hcondition fun {C} hBC v v' hv => .bind .store fun {E} hCE s s' hs => ?_
    have hBE := le_trans hBC hCE
    rw [hs.isTruthy (hv.mono hCE)]
    split
    · refine .bind (.lift (hbody.mono hBE)) fun {G} hEG _ _ hsignal => ?_
      have hBG := le_trans hBE hEG
      have hrest : Tracks G Value.Across (whileLoop condition body fuel)
          (whileLoop condition' body' fuel) := ih ⟨hcondition.run.mono hBG⟩ (hbody.mono hBG)
      cases hsignal with
      | normal => exact hrest
      | continuing => exact hrest
      | breaking => exact .pure fun _ => .nil
      | returning hv => exact .throw fun hGH => .returning (hv.mono hGH)
      | raised hr => exact .throw fun hGH => .raised (Raised.grows_across hGH hr)
    · exact .pure fun _ => .nil

/-- Snapshots of corresponding values, or the same numbers. -/
inductive Items.Across (B : Bridge) : Items → Items → Prop
  | snapshot {vs vs' : List Value} (h : Span.each Value.Across B vs vs') :
    Across B (.snapshot vs) (.snapshot vs')
  | numbers (next bound : Int) : Across B (.numbers next bound) (.numbers next bound)

theorem Items.grows_across : Span.Grows Items.Across := by
  rintro B C h items items' hitems
  cases hitems with
  | snapshot hvs => exact .snapshot (Value.grows_across.each h hvs)
  | numbers next bound => exact .numbers next bound

theorem Items.Across.next? {items items' : Items} (h : items.Across B items') :
    Option.Rel (fun p p' => p.1.Across B p'.1 ∧ p.2.Across B p'.2) items.next? items'.next? := by
  cases h with
  | snapshot hvs =>
    cases hvs with
    | nil => exact .none
    | cons hv hvs => exact .some ⟨hv, .snapshot hvs⟩
  | numbers next bound =>
    dsimp only [Items.next?]
    split
    · exact .some ⟨.int _, .numbers _ _⟩
    · exact .none

theorem tracks_items {v v' : Value} (hv : v.Across B v') :
    Tracks B Items.Across (items v) (items v') := by
  have hsame {vs : List Value} (hvs : ∀ v ∈ vs, ∀ C, v.Across C v) :
      Tracks B Items.Across (pure (.snapshot vs)) (pure (.snapshot vs)) :=
    .pure fun _ => .snapshot (List.forall₂_same.2 fun v hv => hvs v hv _)
  have hother : Tracks B Items.Across
      (do fault (.notIterable ((← Step.store).typeOf v)))
      (do fault (.notIterable ((← Step.store).typeOf v'))) := by
    refine .bind .store fun hBC s s' hs => ?_
    rw [hs.typeOf (hv.mono hBC)]
    exact .fault _
  cases hv with
  | int n => exact .pure fun _ => .numbers _ _
  | str t =>
    refine hsame fun v hv C => ?_
    obtain ⟨c, -, rfl⟩ := List.mem_map.1 hv
    exact .str _
  | graph hg =>
    refine .bind .store fun hBC s s' hs => ?_
    have hc := hs.container (Bridge.shares_mono hBC hg)
    dsimp only
    rw [hc.kind, hc.keys, hc.members]
    split
    · exact .pure fun hCE => .snapshot (Value.grows_across.each hCE hc.elements)
    · refine .pure fun _ => .snapshot (List.forall₂_same.2 fun v hv => ?_)
      obtain ⟨key, -, rfl⟩ := List.mem_map.1 hv
      exact .key key
    · refine .pure fun _ => .snapshot (List.forall₂_same.2 fun v hv => ?_)
      obtain ⟨n, -, rfl⟩ := List.mem_map.1 hv
      exact .int _
  | _ => exact hother

theorem tracks_eachLoop (hscope : B.joins .scope scope scope') (name : String)
    {body : ScopeId → Eval Signal}
    (hbody : ∀ {C n n'}, C.joins .scope n n' →
      Act.Tracks C EvalError.Across Signal.Across (body n) (body n'))
    (fuel : Nat) {items items' : Items} (hitems : items.Across B items') :
    Tracks B Value.Across (eachLoop scope name body fuel items)
      (eachLoop scope' name body fuel items') := by
  induction fuel generalizing B items items' with
  | zero => exact .lift .outOfFuel
  | succ fuel ih =>
    unfold eachLoop
    obtain ⟨hx, hx'⟩ | ⟨⟨v, rest⟩, ⟨v', rest'⟩, hx, hx', hv, hrest⟩ :=
      hitems.next?.none_or_some <;> rw [hx, hx']
    · exact .pure fun _ => .nil
    have hlocals : Eval.Locals B [(name, v)] [(name, v')] := .cons ⟨rfl, hv⟩ .nil
    have hitem := Eval.tracks_inScope Signal.grows_across hscope .loop hlocals
      fun _ _ _ hn => hbody hn
    refine .bind (.lift hitem) fun {C} hBC _ _ hsignal => ?_
    have hagain : Tracks C Value.Across (eachLoop scope name body fuel rest)
        (eachLoop scope' name body fuel rest') :=
      ih (Bridge.joins_mono hBC hscope) (Items.grows_across hBC hrest)
    cases hsignal with
    | normal => exact hagain
    | continuing => exact hagain
    | breaking => exact .pure fun _ => .nil
    | returning hv => exact .throw fun hCE => .returning (hv.mono hCE)
    | raised hr => exact .throw fun hCE => .raised (Raised.grows_across hCE hr)

/-! ### Exceptions -/

theorem tracks_withPath {v v' : Value} (hv : v.Across B v') {path path' : List CallSite}
    (hpath : path' = path) :
    Act.Tracks B EvalError.Across Value.Across (withPath v path) (withPath v' path') := by
  subst hpath
  have hkept := hv
  cases hv with
  | exception hpayload => exact .newException _ _ hpayload _
  | _ => exact .pure fun hBC => hkept.mono hBC

/-- An exception leaves the innermost frame on its way to the handler. -/
theorem leave_innermost_across {r r' : Raised} (hr : r.Across B r') (frames : List CallSite) :
    Raised.Across B (match frames with | site :: _ => r.leave site | [] => r)
      (match frames with | site :: _ => r'.leave site | [] => r') := by
  split
  · exact hr.leave _
  · exact hr

theorem tracks_handle (hev : ev.Blind) (code : Code) (n handler : Nat)
    (catchName : Option String) (hscope : B.joins .scope scope scope') {r r' : Raised}
    (hr : r.Across B r') :
    Act.Tracks B EvalError.Across Signal.Across (handle ev code n handler catchName scope r)
      (handle ev code n handler catchName scope' r') := by
  refine .bind Eval.tracks_session fun {C} hBC st st' hst => ?_
  dsimp only
  rw [hst.frames]
  have hraised := leave_innermost_across (Raised.grows_across hBC hr) st.frames
  refine .bind (tracks_withPath hraised.exception hraised.path) fun {E} hCE v v' hv => ?_
  refine .bind (.report fun hEF s s' hs => ?_) fun {G} hEG _ _ _ => ?_
  · rw [hs.display (hv.mono hEF)]
  · have hscope := Bridge.joins_mono (le_trans hBC (le_trans hCE hEG)) hscope
    have hlocals : Eval.Locals G (catchName.toList.map fun name => (name, v))
        (catchName.toList.map fun name => (name, v')) :=
      (List.forall₂_same.2 fun _ _ => rfl : List.Forall₂ Eq _ _).map fun heq =>
        ⟨heq.symm, hv.mono hEG⟩
    exact Eval.tracks_inScope Signal.grows_across hscope .catch hlocals
      fun _ _ _ hinner => hev.node code handler hinner

theorem tracks_finalize (hev : ev.Blind) (code : Code) (n : Nat)
    (hscope : B.joins .scope scope scope') {s s' : Signal} (hs : s.Across B s') :
    Tracks B Value.Across
      (match code.program.child? n .finalizer with
        | none => ofSignal s
        | some finalizer => do
          let after ← lift (ev.node code finalizer scope)
          if after.isNormal then ofSignal s else throw after)
      (match code.program.child? n .finalizer with
        | none => ofSignal s'
        | some finalizer => do
          let after ← lift (ev.node code finalizer scope')
          if after.isNormal then ofSignal s' else throw after) := by
  cases code.program.child? n .finalizer with
  | none => exact .ofSignal hs
  | some finalizer =>
    refine .bind (.lift (hev.node code finalizer hscope)) fun hBC after after' hafter => ?_
    rw [hafter.isNormal]
    split
    · exact .ofSignal (Signal.grows_across hBC hs)
    · exact .throw fun hCE => Signal.grows_across hCE hafter

/-- An exception is handled, any other signal is passed on, and the closing part comes last. -/
theorem tracks_guarded (hev : ev.Blind) (code : Code) (n : Nat) (catchName : Option String)
    (hscope : B.joins .scope scope scope') :
    Tracks B Value.Across (guarded ev code n catchName scope)
      (guarded ev code n catchName scope') := by
  refine .bind (tracks_child code n .body) fun {C} hBC body _ hbody => ?_
  subst hbody
  have hscope := Bridge.joins_mono hBC hscope
  refine .bind (.lift (hev.node code body hscope)) fun {E} hCE s s' hs => ?_
  have hscope := Bridge.joins_mono hCE hscope
  have hdone := tracks_finalize hev code n hscope hs
  cases hs with
  | @raised r r' hr =>
    cases code.program.child? n .handler with
    | none => exact hdone
    | some handler =>
      refine .bind (.lift (tracks_handle hev code n handler catchName hscope hr))
        fun hEF _ _ hs => ?_
      exact tracks_finalize hev code n (Bridge.joins_mono hEF hscope) hs
  | _ => exact hdone

theorem tracks_raiseValue (n : Nat) {v v' : Value} (hv : v.Across B v') {A : Span Value} :
    Tracks B A (raiseValue n v) (raiseValue n v') := by
  refine .bind (.lift (Eval.tracks_toException hv)) fun hBC x x' hx => ?_
  refine .bind (.report fun hCE s s' hs => ?_) fun hCE _ _ _ => .raise (hx.mono hCE)
  rw [hs.display (hx.mono hCE)]

/-! ### Closures and variables -/

theorem tracks_closure (code : Code) (f : FunctionId) (hscope : B.joins .scope scope scope') :
    Tracks B Value.Across (closure code f scope) (closure code f scope') := by
  unfold closure
  cases code.program.function? f with
  | none => exact .fatal fun _ => .plain (by simp)
  | some d =>
    refine .bind (.lift (Eval.tracks_onScopes fun hBC s s' hs =>
      hs.createClosure (Bridge.joins_mono hBC hscope) d.name (code.program.freeVariables f)))
      fun _ made made' hmade => ?_
    refine .bind (.lift (Eval.tracks_ofBinding hmade (Eval.grows_joins .closure)))
      fun _ c c' hc => .pure fun hEF => ?_
    exact .function (f := ⟨code.unit, f, c, d.name, d.arity⟩) (Bridge.joins_mono hEF hc)

theorem tracks_define (hscope : B.joins .scope scope scope') (name : String) {v v' : Value}
    (hv : v.Across B v') (mutable : Bool) :
    Tracks B Value.Across (define scope name v mutable) (define scope' name v' mutable) := by
  refine .bind (.lift (Eval.tracks_onScopes fun hBC s s' hs =>
    hs.define (Bridge.joins_mono hBC hscope) name (hv.mono hBC) mutable)) fun _ r r' hr => ?_
  exact .discard_bind (.ofBinding hr (Eval.grows_joins .var)) fun _ => .pure fun _ => .nil

theorem tracks_assign (hscope : B.joins .scope scope scope') (name : String) {v v' : Value}
    (hv : v.Across B v') :
    Tracks B Value.Across (assign scope name v) (assign scope' name v') := by
  refine .bind (.lift (Eval.tracks_onScopes fun hBC s s' hs =>
    hs.assign (Bridge.joins_mono hBC hscope) name (hv.mono hBC))) fun hBC r r' hr => ?_
  exact .discard_bind (.ofBinding hr (Eval.grows_joins .var)) fun hCE =>
    .pure fun hEF => hv.mono (le_trans hBC (le_trans hCE hEF))

/-! ### Containers -/

theorem tracks_change (hev : ev.Blind) {g : GraphId} (hg : B.shares g) {m m' : Mutation}
    (hm : m.Across B m') :
    Tracks B Container.Applied.Across (governed (Engine.apply (Eval.callback ev) g m))
      (governed (Engine.apply (Eval.callback ev) g m')) :=
  tracks_governed Container.Applied.grows_across
    (Engine.tracks_apply (Eval.blind_callback hev) hg hm)

theorem tracks_setIndex (hev : ev.Blind) {target target' index index' value value' : Value}
    (htarget : target.Across B target') (hindex : index.Across B index')
    (hvalue : value.Across B value') :
    Tracks B Value.Across (setIndex ev target index value)
      (setIndex ev target' index' value') := by
  refine .bind (tracks_container htarget) fun {C} hBC g g' hg => ?_
  obtain ⟨rfl, hg⟩ := hg
  refine .bind .store fun {E} hCE s s' hs => ?_
  have hBE := le_trans hBC hCE
  have hg := Bridge.shares_mono hCE hg
  have hc := hs.container hg
  dsimp only
  rw [hc.kind]
  cases (s.get g').kind with
  | list =>
    dsimp only
    rw [hs.listIndex hc (hindex.mono hBE)]
    refine .bind (.ofSame _) fun hEF i i' hi => ?_
    subst hi
    exact .discard_bind (tracks_change hev (Bridge.shares_mono hEF hg)
      (.set i (hvalue.mono (le_trans hBE hEF)))) fun _ => .pure fun _ => .nil
  | map =>
    dsimp only
    rw [hs.mapKey (hindex.mono hBE)]
    refine .bind (.ofSame _) fun hEF key key' hkey => ?_
    subst hkey
    exact .discard_bind (tracks_change hev (Bridge.shares_mono hEF hg)
      (.put key (hvalue.mono (le_trans hBE hEF)))) fun _ => .pure fun _ => .nil
  | user name => exact .bind (.fault _ (A := Span.same)) fun _ _ _ _ => .pure fun _ => .nil

/-- A member that is removed under governance, where it is known what the index stands for. -/
theorem tracks_removing (hev : ev.Blind) {g : GraphId} (hg : B.shares g) (f : α → Target)
    (r : Except Fault α) : Tracks B Value.Across
      (do
        let member ← f <$> Step.ofFault r
        match ← governed (Engine.apply (Eval.callback ev) g (.remove member)) with
        | .value v => return v
        | _ => return .nil)
      (do
        let member ← f <$> Step.ofFault r
        match ← governed (Engine.apply (Eval.callback ev) g (.remove member)) with
        | .value v => return v
        | _ => return .nil) := by
  simp only [map_eq_pure_bind, bind_assoc, pure_bind]
  refine .bind (.ofSame r) fun hBC i i' hi => ?_
  subst hi
  refine .bind (tracks_change hev (Bridge.shares_mono hBC hg) (.remove (f i))) fun _ a a' ha => ?_
  cases ha with
  | value hv => exact .pure fun hCE => hv.mono hCE
  | node | edge => exact .pure fun _ => .nil

theorem tracks_removeAt (hev : ev.Blind) {target target' index index' : Value}
    (htarget : target.Across B target') (hindex : index.Across B index') :
    Tracks B Value.Across (removeAt ev target index) (removeAt ev target' index') := by
  refine .bind (tracks_container htarget) fun {C} hBC g g' hg => ?_
  obtain ⟨rfl, hg⟩ := hg
  refine .bind .store fun {E} hCE s s' hs => ?_
  have hindex := hindex.mono (le_trans hBC hCE)
  have hg := Bridge.shares_mono hCE hg
  have hc := hs.container hg
  dsimp only
  rw [hc.kind, hs.listIndex hc hindex, hs.mapKey hindex, hs.memberHandle hindex]
  cases (s.get g').kind with
  | list => exact tracks_removing hev hg _ _
  | map => exact tracks_removing hev hg _ _
  | user name => exact tracks_removing hev hg _ _

/-- A member that is added under governance, where it is known what to link it to. -/
theorem tracks_adding (hev : ev.Blind) {g : GraphId} (hg : B.shares g) {value value' : Value}
    (hvalue : value.Across B value') (parent : Option (Nat × String)) : Tracks B Value.Across
      (do
        match ← governed (Engine.apply (Eval.callback ev) g (.addMember value parent)) with
        | .node n => return Value.int (Int64.ofNat n)
        | _ => return Value.nil)
      (do
        match ← governed (Engine.apply (Eval.callback ev) g (.addMember value' parent)) with
        | .node n => return Value.int (Int64.ofNat n)
        | _ => return Value.nil) := by
  refine .bind (tracks_change hev hg (.addMember hvalue parent)) fun _ a a' ha => ?_
  cases ha with
  | node n => exact .pure fun _ => .int _
  | value | edge => exact .pure fun _ => .nil

theorem tracks_addMember (hev : ev.Blind) {target target' value value' : Value}
    (htarget : target.Across B target') (hvalue : value.Across B value')
    {parent parent' : Option Value} (hparent : Span.maybe Value.Across B parent parent')
    (link : Option String) :
    Tracks B Value.Across (addMember ev target value parent link)
      (addMember ev target' value' parent' link) := by
  refine .bind (tracks_container htarget) fun {C} hBC g g' hg => ?_
  obtain ⟨rfl, hg⟩ := hg
  have hvalue := hvalue.mono hBC
  cases hparent with
  | none => exact tracks_adding hev hg hvalue none
  | some hhandle =>
    cases link with
    | none => exact tracks_adding hev hg hvalue none
    | some name =>
      refine .bind .store fun {E} hCE s s' hs => ?_
      rw [hs.memberHandle (hhandle.mono (le_trans hBC hCE))]
      refine .bind (.ofSame _) fun hEF handle handle' hsame => ?_
      subst hsame
      have hCF := le_trans hCE hEF
      exact tracks_adding hev (Bridge.shares_mono hCF hg) (hvalue.mono hCF) (some (handle, name))

theorem tracks_link (hev : ev.Blind) {target target' source source' end_ end_' : Value}
    (htarget : target.Across B target') (hsource : source.Across B source')
    (hend : end_.Across B end_') (name : String) {data data' : Option Value}
    (hdata : Span.maybe Value.Across B data data') :
    Tracks B Value.Across (link ev target source end_ name data)
      (link ev target' source' end_' name data') := by
  refine .bind (tracks_container htarget) fun {C} hBC g g' hg => ?_
  obtain ⟨rfl, hg⟩ := hg
  refine .bind .store fun {E} hCE s s' hs => ?_
  rw [hs.memberHandle (hsource.mono (le_trans hBC hCE))]
  refine .bind (.ofSame _) fun {G} hEG i i' hi => ?_
  subst hi
  have hBG := le_trans (le_trans hBC hCE) hEG
  refine .bind .store fun {H} hGH s s' hs => ?_
  rw [hs.memberHandle (hend.mono (le_trans hBG hGH))]
  refine .bind (.ofSame _) fun {I} hHI j j' hj => ?_
  subst hj
  have hBI := le_trans (le_trans hBG hGH) hHI
  exact .discard_bind (tracks_change hev
    (Bridge.shares_mono (le_trans (le_trans (le_trans hCE hEG) hGH) hHI) hg)
    (.link i j name (Value.grows_across.maybe hBI hdata))) fun _ => .pure fun _ => .nil

/-! ### Rules -/

theorem tracks_addRule (hev : ev.Blind) {target target' : Value}
    (htarget : target.Across B target') (spec : RuleSpec) {args args' : List Value}
    (hargs : Span.each Value.Across B args args') :
    Tracks B Value.Across (addRule ev target spec args) (addRule ev target' spec args') := by
  refine .bind (tracks_container htarget) fun {C} hBC g g' hg => ?_
  obtain ⟨rfl, hg⟩ := hg
  have hrule := spec.instantiate_across (Value.grows_across.each hBC hargs)
  refine .bind (.ofSpec hrule Rule.grows_across) fun {E} hCE rule rule' hrule => ?_
  refine .bind (.report fun _ s s' _ => by rw [hrule.display s s']) fun {G} hEG _ _ _ => ?_
  refine .bind (tracks_governed Span.grows_same (Engine.tracks_addRule (Eval.blind_callback hev)
    (Bridge.shares_mono (le_trans hCE hEG) hg) (Rule.grows_across hEG hrule)))
    fun {H} hGH _ _ _ => .pure fun hHI => ?_
  exact htarget.mono (le_trans (le_trans hBC (le_trans hCE hEG)) (le_trans hGH hHI))

theorem define_across {sets sets' : Rulesets} (hsets : Span.each Ruleset.Across B sets sets')
    {set set' : Ruleset} (hset : set.Across B set') :
    Span.each Ruleset.Across B (sets.define set) (sets'.define set') := by
  have hany : sets'.any (·.name == set'.name) = sets.any (·.name == set.name) := by
    have hnames := hsets.map_eq (f := (·.name == set.name)) (g := (·.name == set'.name))
      fun hold => by rw [hold.name, hset.name]
    simpa using congrArg (List.any · id) hnames
  unfold Rulesets.define
  rw [hany]
  split
  · refine hsets.map fun {old old'} hold => ?_
    rw [hold.name, hset.name]
    split
    · exact hset
    · exact hold
  · exact List.rel_append hsets (.cons hset .nil)

theorem tracks_defineRuleset (name : String) (specs : List RuleSpec) {args args' : List Value}
    (hargs : Span.each Value.Across B args args') :
    Tracks B Value.Across (defineRuleset name specs args) (defineRuleset name specs args') := by
  refine .bind (.ofSpec (RuleSpec.instantiateAll_across specs hargs) Rule.grows_across.each)
    fun {C} hBC rules rules' hrules => ?_
  rw [hrules.length_eq]
  refine .bind .say fun {E} hCE _ _ _ => ?_
  refine .bind (.lift (Eval.tracks_modifySession fun {G} hEG st st' hst => ?_))
    fun _ _ _ _ => .pure fun _ => .nil
  exact { hst with
    rulesets := define_across hst.rulesets
      ⟨rfl, Rule.grows_across.each (le_trans hCE hEG) hrules⟩ }

theorem tracks_applyRuleset (hev : ev.Blind) {target target' : Value}
    (htarget : target.Across B target') (name : String) :
    Tracks B Value.Across (applyRuleset ev target name) (applyRuleset ev target' name) := by
  refine .bind (tracks_container htarget) fun {C} hBC g g' hg => ?_
  obtain ⟨rfl, hg⟩ := hg
  refine .bind .session fun {E} hCE st st' hst => ?_
  have hget : Option.Rel (Ruleset.Across E) (st.rulesets.get? name) (st'.rulesets.get? name) :=
    hst.rulesets.find? fun hset => by rw [hset.name]
  obtain ⟨hx, hx'⟩ | ⟨set, set', hx, hx', hset⟩ := hget.none_or_some <;> rw [hx, hx']
  · exact .fault _
  · refine .bind (tracks_governed Span.grows_same (Engine.tracks_applyRuleset
      (Eval.blind_callback hev) (Bridge.shares_mono hCE hg) hset)) fun hEF _ _ _ => ?_
    exact .pure fun hFG => htarget.mono (le_trans (le_trans hBC hCE) (le_trans hEF hFG))

/-! ### Operations -/

theorem tracks_logical (hev : ev.Blind) (code : Code) (n : Nat) (op : LogicalOp)
    (hscope : B.joins .scope scope scope') :
    Tracks B Value.Across (logical ev code n op scope) (logical ev code n op scope') := by
  refine .bind (tracks_role hev code n .left hscope) fun {C} hBC v v' hv => ?_
  refine .bind .store fun {E} hCE s s' hs => ?_
  rw [hs.isTruthy (hv.mono hCE)]
  have hdecided (decided : Bool) : Tracks E Value.Across
      (if decided then pure (Value.bool (s.isTruthy v)) else do
        let right ← role ev code n .right scope
        return Operators.logical (← Step.store) op v right)
      (if decided then pure (Value.bool (s.isTruthy v)) else do
        let right ← role ev code n .right scope'
        return Operators.logical (← Step.store) op v' right) := by
    cases decided with
    | true => exact .pure fun _ => .bool _
    | false =>
      refine .bind (tracks_role hev code n .right (Bridge.joins_mono (le_trans hBC hCE) hscope))
        fun {G} hEG x x' hx => ?_
      refine .bind .store fun hGH t t' ht => .pure fun hHI => ?_
      have hv := hv.mono (le_trans (le_trans hCE hEG) hGH)
      exact (ht.logical op hv (hx.mono hGH)).mono hHI
  exact hdecided _

theorem tracks_binary (op : BinaryOp) {left left' right right' : Value}
    (hleft : left.Across B left') (hright : right.Across B right') :
    Tracks B Value.Across (binary op left right) (binary op left' right') := by
  refine ⟨⟨fun {C} hBC {w w'} hw => ?_⟩⟩
  obtain ⟨more, hresult, hstore⟩ := hw.store.binary op (hleft.mono hBC) (hright.mono hBC)
  have hgive : Tracks (C.share more) Value.Across
      (ofFault (Operators.binary w.store op left right).1)
      (ofFault (Operators.binary w'.store op left' right').1) :=
    .ofFault hresult Value.grows_across
  exact (hgive.run.follows le_rfl (hw.withStore hstore)).weaken (C.le_share more)

theorem tracks_call (hev : ev.Blind) {callee callee' : Value} (hcallee : callee.Across B callee')
    {args args' : List Value} (hargs : Span.each Value.Across B args args') (n : Nat) :
    Tracks B Value.Across (call ev callee args n) (call ev callee' args' n) :=
  .bind (.lift (Eval.tracks_call hev hcallee hargs (some n))) fun _ _ _ hs => .ofSignal hs

theorem tracks_block (hev : ev.Blind) (code : Code) (n : Nat)
    (hscope : B.joins .scope scope scope') :
    Tracks B Value.Across (block ev code n scope) (block ev code n scope') :=
  .bind (.lift (Eval.tracks_inScope Signal.grows_across hscope .block .nil
    fun _ _ _ hinner => Eval.tracks_statements hev code hinner _)) fun _ _ _ hs => .ofSignal hs

/-- The same keys with corresponding values. -/
def Entries : Span (List (Key × Value)) := fun B => List.Forall₂ (Container.EntryAcross B)

theorem tracks_literalKeys (keys : List Literal) {vs vs' : List Value}
    (hvs : Span.each Value.Across B vs vs') :
    Tracks B Entries (literalKeys (keys.zip vs)) (literalKeys (keys.zip vs')) := by
  induction keys generalizing B vs vs' with
  | nil => exact .pure fun _ => .nil
  | cons l keys ih =>
    cases hvs with
    | nil => exact .pure fun _ => .nil
    | cons hv hvs =>
      refine .bind .store fun {C} hBC s s' hs => ?_
      rw [hs.mapKey (.literal l)]
      refine .bind (.ofSame _) fun {E} hCE key key' hkey => ?_
      subst hkey
      have hBE := le_trans hBC hCE
      refine .bind (ih (Value.grows_across.each hBE hvs)) fun {G} hEG _ _ hothers => ?_
      exact .pure fun hGH => .cons ⟨rfl, hv.mono (le_trans hBE (le_trans hEG hGH))⟩
        (hothers.imp fun _ _ he => ⟨he.1, he.2.mono hGH⟩)

/-- Every operation comes to corresponding values and signals in scopes that are joined. -/
theorem tracks_op (hev : ev.Blind) (fuel : Nat) (code : Code) (n : Nat)
    (hscope : B.joins .scope scope scope') (o : Op) :
    Tracks B Value.Across (op ev fuel code n scope o) (op ev fuel code n scope' o) := by
  have hrole {C : Bridge} (r : Role) (hBC : B ≤ C) :
      Tracks C Value.Across (role ev code n r scope) (role ev code n r scope') :=
    tracks_role hev code n r (Bridge.joins_mono hBC hscope)
  have hrole? {C : Bridge} (r : Role) (hBC : B ≤ C) :
      Tracks C (Span.maybe Value.Across) (role? ev code n r scope) (role? ev code n r scope') :=
    tracks_role? hev code n r (Bridge.joins_mono hBC hscope)
  have hfamily {C : Bridge} (r : Role) (hBC : B ≤ C) :
      Tracks C (Span.each Value.Across) (family ev code n r scope)
        (family ev code n r scope') :=
    tracks_family hev code n r (Bridge.joins_mono hBC hscope)
  cases o with
  | literal l => exact .pure fun _ => .literal l
  | list =>
    exact .bind (hfamily _ le_rfl) fun _ vs _ hvs =>
      .lift (.alloc (.ofElements hvs) (.ofElements vs))
  | map keys =>
    refine .bind (hfamily _ le_rfl) fun _ _ _ hvs => ?_
    exact .bind (tracks_literalKeys keys hvs) fun _ es _ hes =>
      .lift (.alloc (.ofEntries hes) (.ofEntries es))
  | var name =>
    exact .bind .session fun hBC st st' hst =>
      .ofBinding (hst.scopes.get (Bridge.joins_mono hBC hscope) name) Value.grows_across
  | define name mutable =>
    exact .bind (hrole _ le_rfl) fun hBC _ _ hv =>
      tracks_define (Bridge.joins_mono hBC hscope) name hv mutable
  | assign name =>
    exact .bind (hrole _ le_rfl) fun hBC _ _ hv =>
      tracks_assign (Bridge.joins_mono hBC hscope) name hv
  | binary op =>
    exact .bind (hrole _ le_rfl) fun hBC _ _ hv => .bind (hrole _ hBC) fun hCE _ _ hx =>
      tracks_binary op (hv.mono hCE) hx
  | unary op =>
    exact .bind (hrole _ le_rfl) fun _ _ _ hv => .bind .store fun hCE _ _ hs =>
      .ofFault (hs.unary op (hv.mono hCE)) Value.grows_across
  | logical op => exact tracks_logical hev code n op hscope
  | call =>
    exact .bind (hrole _ le_rfl) fun hBC _ _ hf => .bind (hfamily _ hBC) fun hCE _ _ hvs =>
      tracks_call hev (hf.mono hCE) hvs n
  | function f => exact tracks_closure code f hscope
  | leave =>
    refine .bind (hrole? _ le_rfl) fun _ x x' hx => .throw fun hCE => ?_
    cases hx with
    | none => exact .returning .nil
    | some hv => exact .returning (hv.mono hCE)
  | branch =>
    refine .bind (hrole _ le_rfl) fun hBC _ _ hc => .bind .store fun hCE s s' hs => ?_
    rw [hs.isTruthy (hc.mono hCE)]
    have hBE := le_trans hBC hCE
    split
    · exact hrole _ hBE
    · refine .bind (hrole? _ hBE) fun _ x x' hx => .pure fun hEF => ?_
      cases hx with
      | none => exact .nil
      | some hv => exact hv.mono hEF
  | loop =>
    refine .bind (tracks_child code n .body) fun hBC body body' hbody => ?_
    subst hbody
    exact tracks_whileLoop (hrole _ hBC) (hev.node code body (Bridge.joins_mono hBC hscope)) fuel
  | each name =>
    refine .bind (hrole _ le_rfl) fun hBC _ _ hv => ?_
    refine .bind (tracks_child code n .body) fun hCE body body' hbody => ?_
    subst hbody
    refine .bind (tracks_items (hv.mono hCE)) fun hEF _ _ hitems => ?_
    exact tracks_eachLoop (Bridge.joins_mono (le_trans (le_trans hBC hCE) hEF) hscope) name
      (fun hn => hev.node code body hn) fuel hitems
  | breakLoop => exact .throw fun _ => .breaking
  | continueLoop => exact .throw fun _ => .continuing
  | raise => exact .bind (hrole _ le_rfl) fun _ _ _ hv => tracks_raiseValue n hv
  | guarded catchName => exact tracks_guarded hev code n catchName hscope
  | block => exact tracks_block hev code n hscope
  | index =>
    exact .bind (hrole _ le_rfl) fun hBC _ _ hv => .bind (hrole _ hBC) fun hCE _ _ hx =>
      .bind .store fun hEF _ _ hs => .ofFault
        (hs.index (hv.mono (le_trans hCE hEF)) (hx.mono hEF)) Value.grows_across
  | setIndex =>
    exact .bind (hrole _ le_rfl) fun hBC _ _ hv => .bind (hrole _ hBC) fun hCE _ _ hx =>
      .bind (hrole _ (le_trans hBC hCE)) fun hEF _ _ hy =>
        tracks_setIndex hev (hv.mono (le_trans hCE hEF)) (hx.mono hEF) hy
  | append =>
    refine .bind (hrole _ le_rfl) fun hBC _ _ hv => .bind (hrole _ hBC) fun hCE _ _ hx => ?_
    refine .bind (tracks_container (hv.mono hCE)) fun hEF g g' hg => ?_
    obtain ⟨rfl, hg⟩ := hg
    exact .discard_bind (tracks_change hev hg (.insert (hx.mono hEF))) fun _ => .pure fun _ => .nil
  | removeAt =>
    exact .bind (hrole _ le_rfl) fun hBC _ _ hv => .bind (hrole _ hBC) fun hCE _ _ hx =>
      tracks_removeAt hev (hv.mono hCE) hx
  | addRule spec =>
    exact .bind (hrole _ le_rfl) fun hBC _ _ hv => .bind (hfamily _ hBC) fun hCE _ _ hvs =>
      tracks_addRule hev (hv.mono hCE) spec hvs
  | defineRuleset name specs =>
    exact .bind (hfamily _ le_rfl) fun _ _ _ hvs => tracks_defineRuleset name specs hvs
  | applyRuleset name =>
    exact .bind (hrole _ le_rfl) fun _ _ _ hv => tracks_applyRuleset hev hv name
  | freeze =>
    refine .bind (hrole _ le_rfl) fun hBC _ _ hv => ?_
    refine .bind (tracks_container hv) fun hCE g g' hg => ?_
    obtain ⟨rfl, hg⟩ := hg
    exact .bind (tracks_governed Span.grows_same (Engine.tracks_freeze hg)) fun hEF _ _ _ =>
      .pure fun hFG => hv.mono (le_trans hCE (le_trans hEF hFG))
  | newGraph kind => exact .lift (.alloc (.new _) (.new _))
  | addMember linkName =>
    exact .bind (hrole _ le_rfl) fun hBC _ _ hv => .bind (hrole _ hBC) fun hCE _ _ hx =>
      .bind (hrole? _ (le_trans hBC hCE)) fun hEF _ _ hparent =>
        tracks_addMember hev (hv.mono (le_trans hCE hEF)) (hx.mono hEF) hparent linkName
  | link name =>
    refine .bind (hrole _ le_rfl) fun hBC _ _ hv => .bind (hrole _ hBC) fun hCE _ _ hx => ?_
    have hBE := le_trans hBC hCE
    refine .bind (hrole _ hBE) fun hEF _ _ hy => .bind (hrole? _ (le_trans hBE hEF))
      fun hFG _ _ hdata => ?_
    exact tracks_link hev (hv.mono (le_trans hCE (le_trans hEF hFG)))
      (hx.mono (le_trans hEF hFG)) (hy.mono hFG) name hdata

end Step

/-! ### Nodes -/

namespace Eval

variable {ev : Evaluator} {scope scope' : ScopeId}

theorem tracks_record (code : Code) (n : Nat) (o : Op) {s s' : Signal} (hs : s.Across B s') :
    Act.Tracks B EvalError.Across Span.same (record code n o s) (record code n o s') := by
  refine .modify fun {C} hBC {w w'} hw => ?_
  have hvalue : ∀ {v v' : Value}, v.Across B v' → w'.store.display v' = w.store.display v :=
    fun hv => hw.store.display (hv.mono hBC)
  dsimp only
  rw [hw.control.config, hw.control.frames, hw.control.trace, hs.kind]
  split
  · refine hw.withControl { hw.control with config := rfl, frames := rfl, trace := ?_ }
    dsimp only
    congr 2
    cases hs with
    | normal hv | returning hv => exact congrArg some (hvalue hv)
    | raised hr => exact congrArg some (hvalue hr.exception)
    | breaking | continuing => rfl
  · exact hw

theorem tracks_node (hev : ev.Blind) (fuel : Nat) (code : Code) (n : Nat)
    (hscope : B.joins .scope scope scope') :
    Act.Tracks B EvalError.Across Signal.Across (node ev fuel code n scope)
      (node ev fuel code n scope') := by
  unfold node
  cases code.program.op? n with
  | none => exact .throw fun _ => .plain (by simp)
  | some o =>
    refine .bind .say fun {C} hBC _ _ _ => ?_
    have hop := Step.tracks_op hev fuel code n (Bridge.joins_mono hBC hscope) o
    have hsignal : Act.Tracks C EvalError.Across Signal.Across
        (Step.op ev fuel code n scope o).toSignal (Step.op ev fuel code n scope' o).toSignal := by
      refine .bind hop.run fun _ r r' hr => ?_
      cases hr with
      | ok hv => exact .pure fun hEF => .normal (hv.mono hEF)
      | error hs => exact .pure fun hEF => Signal.grows_across hEF hs
    exact .bind hsignal fun _ _ _ hs => .bind (tracks_record code n o hs) fun hEF _ _ _ =>
      .pure fun hFG => Signal.grows_across (le_trans hEF hFG) hs

/-- Whatever nodes, bodies and functions come to, they do so in scopes that are joined. -/
theorem blind_eval (fuel : Nat) : (eval fuel).Blind := by
  induction fuel with
  | zero => exact ⟨fun _ _ _ => .outOfFuel, fun _ _ _ => .outOfFuel, fun _ _ _ => .outOfFuel⟩
  | succ fuel ih =>
    exact ⟨fun code n hscope => tracks_node ih fuel code n hscope,
      fun code root hscope => tracks_body ih code root hscope,
      fun callNode hc hargs => tracks_callFunction ih hc hargs callNode⟩

end Eval

end GraphLang
