import GraphLang.Proofs.Rule.Failures
import GraphLang.Proofs.Simulation.Rules

/-!
# Stores side by side

What may be used stays so, corresponding worlds have the same containers, and new containers and
exceptions are the same ones in both.
-/

namespace GraphLang

namespace Simulation

variable {S : Simulation} {w w' : Machine}

theorem Lawful.fine_step (hS : S.Lawful) {v : Machine} (hstep : S.step w v) {x : Value}
    (hx : S.Fine w x) : S.Fine v x :=
  hx.mono (hS.callee_step hstep)

theorem Lawful.all_fine_step (hS : S.Lawful) {v : Machine} (hstep : S.step w v) {xs : List Value}
    (hxs : ∀ x ∈ xs, S.Fine w x) : ∀ x ∈ xs, S.Fine v x :=
  fun x hx => hS.fine_step hstep (hxs x hx)

theorem Lawful.rule_step (hS : S.Lawful) {v : Machine} (hstep : S.step w v) {r : Rule}
    (hr : r.Holds (S.callee w)) : r.Holds (S.callee v) :=
  hr.mono (hS.callee_step hstep)

theorem Lawful.container_step (hS : S.Lawful) {v : Machine} (hstep : S.step w v) {c : Container}
    (hc : c.Holds (S.callee w)) : c.Holds (S.callee v) :=
  hc.mono (hS.callee_step hstep)

/-- The containers of corresponding worlds are the same, and hold what may be used. -/
theorem Lawful.container (hS : S.Lawful) (hrel : S.rel w w') (g : GraphId) :
    w'.store.get g = w.store.get g ∧ (w.store.get g).Holds (S.callee w) :=
  ⟨by rw [(hS.agree hrel).store], (hS.store hrel).get g⟩

/-- Nothing is known about the result. -/
def Any {α : Type} : α → Machine → Prop := fun _ _ => True

section Rules

variable {α β ε : Type} {F : Failure ε}

theorem Matches.forM (hS : S.Lawful) {f f' : α → Act Session ε PUnit} {xs : List α}
    (h : ∀ x ∈ xs, ∀ v v', S.step w v → S.rel v v' → S.Matches F v Any (f x v) (f' x v'))
    (hrel : S.rel w w') : S.Matches F w Any (xs.forM f w) (xs.forM f' w') := by
  induction xs generalizing w w' with
  | nil => exact .ok hS hrel trivial
  | cons x xs ih =>
    refine .bind hS (h x List.mem_cons_self w w' (hS.step_refl w) hrel) ?_
    intro _ v v' hv hrel _
    exact ih (fun y hy u u' hu => h y (List.mem_cons_of_mem x hy) u u' (hS.step_trans hv hu)) hrel

theorem Matches.container_bind (hS : S.Lawful) {f f' : Container → Act Session ε β}
    {good : β → Machine → Prop} (hrel : S.rel w w') {g : GraphId}
    (h : S.Matches F w good (f (w.store.get g) w) (f' (w.store.get g) w')) :
    S.Matches F w good ((Act.container g >>= f) w) ((Act.container g >>= f') w') := by
  refine .seq hS rfl rfl (hS.step_refl w) ?_
  rwa [(hS.container hrel g).1]

/-- Both evaluators replace the store. -/
theorem Matches.setStore_bind (hS : S.Lawful) {a a' : Act Session ε α} {x : α} {s : Store}
    {f f' : α → Act Session ε β} {good : β → Machine → Prop} (hrel : S.rel w w')
    (ha : a w = some (.ok x, w.withStore s)) (ha' : a' w' = some (.ok x, w'.withStore s))
    (hs : s.Holds (S.callee w))
    (h : ∀ v v', S.step w v → S.rel v v' → S.Matches F v good (f x v) (f' x v')) :
    S.Matches F w good ((a >>= f) w) ((a' >>= f') w') := by
  obtain ⟨hrel', hstep⟩ := hS.withStore hrel hs
  exact .seq hS ha ha' hstep (h _ _ hstep hrel')

theorem Matches.setContainer (hS : S.Lawful) (hrel : S.rel w w') (g : GraphId) {c : Container}
    (hc : c.Holds (S.callee w)) :
    S.Matches F w Any (Act.setContainer g c w) (Act.setContainer g c w') := by
  obtain ⟨hrel', hstep⟩ := hS.withStore hrel ((hS.store hrel).set g hc)
  refine .of_some hstep ?_
  have hrun : (Act.setContainer g c : Act Session ε Unit) w' =
      some (.ok (), w'.withStore (w.store.set g c)) := by
    rw [← (hS.agree hrel).store]
    rfl
  rw [hrun]
  exact .ok hrel' trivial

theorem Matches.alloc (hS : S.Lawful) (hrel : S.rel w w') {c : Container}
    (hc : c.Holds (S.callee w)) :
    S.Matches F w (fun x v => S.Fine v x) (Act.alloc c w) (Act.alloc c w') := by
  obtain ⟨hrel', hstep⟩ := hS.withStore hrel ((hS.store hrel).alloc hc)
  refine .of_some hstep ?_
  have hrun : (Act.alloc c : Act Session ε Value) w' =
      some (.ok (.graph w.store.graphs.size), w'.withStore (w.store.alloc c).2) := by
    rw [← (hS.agree hrel).store]
    rfl
  rw [hrun]
  exact .ok hrel' trivial

theorem Matches.newException (hS : S.Lawful) (hrel : S.rel w w') (kind message : String)
    {payload : Value} (path : List CallSite) (hpayload : S.Fine w payload) :
    S.Matches F w (fun x v => S.Fine v x) (Act.newException kind message payload path w)
      (Act.newException kind message payload path w') := by
  obtain ⟨hrel', hstep⟩ := hS.withStore hrel
    ((hS.store hrel).newException kind message payload path)
  refine .of_some hstep ?_
  have hrun : (Act.newException kind message payload path : Act Session ε Value) w' =
      some (.ok (w.store.newException kind message payload path).1,
        w'.withStore (w.store.newException kind message payload path).2) := by
    rw [← (hS.agree hrel).store]
    rfl
  rw [hrun]
  exact .ok hrel' (hS.fine_step hstep hpayload)

end Rules

/-! ### Governed changes side by side

Rules call back into the evaluator. Where the callbacks of two evaluators correspond, so do all
governed changes: an error that ends a callback is kept aside and reaches the end of the change as
it is, whatever rule had called back. -/

/-- Callbacks of two evaluators correspond. -/
def Invokes (S : Simulation) (invoke invoke' : Invoke Session String) : Prop :=
  ∀ {callee args w w'}, S.rel w w' → S.Fine w callee → (∀ x ∈ args, S.Fine w x) →
    S.Matches S.interrupted w (fun x v => S.Fine v x) (invoke callee args w)
      (invoke' callee args w')

variable {invoke invoke' : Invoke Session String} {β : Type}

/-- After a callback, only the error that ended it is passed on without being looked at. -/
theorem Invokes.attempt_bind (hS : S.Lawful) (hinv : S.Invokes invoke invoke')
    {f f' : Except (InvokeError String) Value → Act Session (MutationError String) β}
    {good : β → Machine → Prop} {callee : Value} {args : List Value} (hrel : S.rel w w')
    (hcallee : S.Fine w callee) (hargs : ∀ x ∈ args, S.Fine w x)
    (hfatal : ∀ text v, f (.error (.fatal text)) v = some (.error (.aborted text), v))
    (hfatal' : ∀ text v, f' (.error (.fatal text)) v = some (.error (.aborted text), v))
    (hok : ∀ x v v', S.step w v → S.rel v v' → S.Fine v x →
      S.Matches S.refused v good (f (.ok x) v) (f' (.ok x) v'))
    (hraised : ∀ r v v', S.step w v → S.rel v v' → S.Fine v r.exception →
      S.Matches S.refused v good (f (.error (.raised r)) v) (f' (.error (.raised r)) v')) :
    S.Matches S.refused w good ((Act.attempt (invoke callee args) >>= f) w)
      ((Act.attempt (invoke' callee args) >>= f') w') := by
  refine .attempt_bind hS (hinv hrel hcallee hargs) hok ?_ ?_
  · intro e v v' hv hboth
    cases e with
    | raised r => exact hraised r v v' hv hboth.1 hboth.2
    | fatal text =>
      rw [hfatal, hfatal']
      exact .error hS hboth
  · rintro e v y hv ⟨text, rfl, hstray⟩
    rw [hfatal]
    exact .of_some (hS.step_refl v) (.lost ⟨text, rfl, hstray⟩)

/-- A predicate holds, or does not, or its error is passed on. -/
theorem Invokes.ask_bind (hS : S.Lawful) (hinv : S.Invokes invoke invoke')
    {f f' : Engine.Verdict String → Act Session (MutationError String) β}
    {good : β → Machine → Prop} {callee value : Value} (hrel : S.rel w w')
    (hcallee : S.Fine w callee) (hvalue : S.Fine w value)
    (hfatal : ∀ text v, f (.aborted text) v = some (.error (.aborted text), v))
    (hfatal' : ∀ text v, f' (.aborted text) v = some (.error (.aborted text), v))
    (hholds : ∀ v v', S.step w v → S.rel v v' →
      S.Matches S.refused v good (f .holds v) (f' .holds v'))
    (hrefused : ∀ reason v v', S.step w v → S.rel v v' →
      S.Matches S.refused v good (f (.refused reason) v) (f' (.refused reason) v')) :
    S.Matches S.refused w good ((Engine.ask invoke callee value >>= f) w)
      ((Engine.ask invoke' callee value >>= f') w') := by
  have hargs : ∀ x ∈ [value], S.Fine w x := by
    intro x hx
    rwa [List.mem_singleton.1 hx]
  unfold Engine.ask
  rw [bind_assoc, bind_assoc]
  refine hinv.attempt_bind hS hrel hcallee hargs ?_ ?_ ?_ ?_
  · intro text v
    simp only [pure_bind, hfatal]
  · intro text v
    simp only [pure_bind, hfatal']
  · intro x v v' hv hrel hx
    simp only [bind_assoc, pure_bind]
    refine .store_bind hS hrel ?_
    split
    · exact hholds v v' hv hrel
    · exact hrefused none v v' hv hrel
  · intro r v v' hv hrel hr
    simp only [bind_assoc, pure_bind]
    exact .store_bind hS hrel (hrefused _ v v' hv hrel)

theorem refuse {α : Type} (hS : S.Lawful) (hrel : S.rel w w') (v : Validation)
    (reason : Option Rejection) {good : α → Machine → Prop} :
    S.Matches S.refused w good (Engine.refuse v reason w) (Engine.refuse v reason w') := by
  refine .report_bind hS hrel fun u u' _ hrel => ?_
  exact .error hS hrel

theorem Invokes.validate (hS : S.Lawful) (hinv : S.Invokes invoke invoke') (hrel : S.rel w w')
    (g : GraphId) {v : Validation} {m : Mutation} (hv : (Rule.validate v).Holds (S.callee w))
    (hm : ∀ x, m.incoming? = some x → S.Fine w x) :
    S.Matches S.refused w Any (Engine.validate invoke g v m w)
      (Engine.validate invoke' g v m w') := by
  cases v with
  | predicate name callee =>
    unfold Engine.validate
    cases hx : m.incoming? with
    | none => exact .ok hS hrel trivial
    | some value =>
      have hcallee : S.Fine w callee := hv callee List.mem_cons_self
      refine hinv.ask_bind hS hrel hcallee (hm value hx) (fun _ _ => rfl) (fun _ _ => rfl) ?_ ?_
      · intro u u' _ hrel
        exact .ok hS hrel trivial
      · intro reason u u' _ hrel
        exact refuse hS hrel _ reason
  | _ =>
    refine .store_bind hS hrel ?_
    generalize Validation.check _ w.store (w.store.get g) m = verdict
    cases verdict with
    | ok _ => exact .ok hS hrel trivial
    | error reason => exact refuse hS hrel _ reason

theorem rejectMixed (hS : S.Lawful) (hrel : S.rel w w') (g : GraphId) (rule : Rule)
    (value : Value) :
    S.Matches S.refused w Any (Engine.rejectMixed g rule value w)
      (Engine.rejectMixed g rule value w') := by
  cases value with
  | graph inner =>
    refine .store_bind hS hrel ?_
    by_cases hsame : (inner == g || (w.store.get inner).frozen == (w.store.get g).frozen) = true
    · rw [if_pos hsame]
      exact .ok hS hrel trivial
    · rw [if_neg hsame]
      refine .report_bind hS hrel fun v v' _ hrel => ?_
      exact .error hS hrel
  | _ => exact .ok hS hrel trivial

theorem Invokes.consult (hS : S.Lawful) (hinv : S.Invokes invoke invoke') (hrel : S.rel w w')
    (g : GraphId) {m : Mutation} {rule : Rule} (hrule : rule.Holds (S.callee w))
    (hm : ∀ x, m.incoming? = some x → S.Fine w x) :
    S.Matches S.refused w Any (Engine.consult invoke g m rule w)
      (Engine.consult invoke' g m rule w') := by
  unfold Engine.consult
  split
  · exact hinv.validate hS hrel g hrule hm
  · cases m.incoming? with
    | some value => exact rejectMixed hS hrel g _ value
    | none => exact .ok hS hrel trivial
  · exact .ok hS hrel trivial

theorem Invokes.runTransform (hS : S.Lawful) (hinv : S.Invokes invoke invoke')
    (hrel : S.rel w w') {r : Transform} {value : Value}
    (hr : ∀ x ∈ r.callbacks, S.Fine w x) (hvalue : S.Fine w value) :
    S.Matches S.refused w (fun x v => S.Fine v x) (Engine.runTransform invoke r value w)
      (Engine.runTransform invoke' r value w') := by
  cases r with
  | custom name callee =>
    have hargs : ∀ x ∈ [value], S.Fine w x := by
      intro x hx
      rwa [List.mem_singleton.1 hx]
    refine hinv.attempt_bind hS hrel (hr callee List.mem_cons_self) hargs
      (fun _ _ => rfl) (fun _ _ => rfl) ?_ ?_
    · intro x v v' _ hrel hx
      exact .ok hS hrel hx
    · intro r v v' _ hrel hr
      refine .report_bind hS hrel fun u u' hu hrel => ?_
      exact .error hS ⟨hrel, hS.fine_step hu hr⟩
  | _ =>
    refine .store_bind hS hrel ?_
    generalize happly : Transform.apply _ w.store value = result
    cases result with
    | ok result => exact .ok hS hrel (Transform.holds_apply (hS.store hrel) hr hvalue happly)
    | error cause => exact .error hS hrel

theorem unfrozenCopy (hS : S.Lawful) (hrel : S.rel w w') {value : Value}
    (hvalue : S.Fine w value) :
    S.Matches S.refused w (fun x v => S.Fine v x) (Engine.unfrozenCopy value w)
      (Engine.unfrozenCopy value w') := by
  cases value with
  | graph g =>
    refine .store_bind hS hrel ?_
    obtain ⟨hcopy, hstore⟩ := (hS.store hrel).deepCopy (hS.container hrel g).2
    refine .setStore_bind hS hrel rfl rfl hstore fun v v' hv hrel => ?_
    exact .alloc hS hrel (hS.container_step hv hcopy)
  | _ => exact .ok hS hrel hvalue

theorem Invokes.transform (hS : S.Lawful) (hinv : S.Invokes invoke invoke') (hrel : S.rel w w')
    {rule : Rule} {value : Value} (hrule : rule.Holds (S.callee w)) (hvalue : S.Fine w value) :
    S.Matches S.refused w (fun x v => S.Fine v x) (Engine.transform invoke rule value w)
      (Engine.transform invoke' rule value w') := by
  cases rule with
  | validate v => exact .ok hS hrel hvalue
  | transform r => exact hinv.runTransform hS hrel hrule hvalue
  | conditional predicate whenTrue whenFalse =>
    have hargs : ∀ x ∈ [value], S.Fine w x := by
      intro x hx
      rwa [List.mem_singleton.1 hx]
    refine hinv.attempt_bind hS hrel (hrule predicate List.mem_cons_self) hargs
      (fun _ _ => rfl) (fun _ _ => rfl) ?_ ?_
    · intro x v v' hv hrel hx
      refine .store_bind hS hrel ?_
      have hvalue' := hS.fine_step hv hvalue
      by_cases htrue : v.store.isTruthy x = true
      · rw [if_pos htrue, if_pos htrue]
        refine hinv.runTransform hS hrel (hS.all_fine_step hv fun y hy => hrule y ?_) hvalue'
        exact List.mem_cons_of_mem predicate (List.mem_append_left _ hy)
      · rw [if_neg htrue, if_neg htrue]
        cases whenFalse with
        | none => exact .ok hS hrel hvalue'
        | some r =>
          refine hinv.runTransform hS hrel (hS.all_fine_step hv fun y hy => hrule y ?_) hvalue'
          exact List.mem_cons_of_mem predicate (List.mem_append_right _ hy)
    · intro r v v' _ hrel hr
      exact .store_bind hS hrel (.error hS ⟨hrel, hr⟩)
  | freeze f =>
    cases f with
    | rejectMixed => exact .ok hS hrel hvalue
    | copyElements => exact unfrozenCopy hS hrel hvalue

theorem Invokes.transformAll (hS : S.Lawful) (hinv : S.Invokes invoke invoke')
    (hrel : S.rel w w') {rules : List Rule} {value : Value}
    (hrules : ∀ r ∈ rules, r.Holds (S.callee w)) (hvalue : S.Fine w value) :
    S.Matches S.refused w (fun x v => S.Fine v x) (Engine.transformAll invoke rules value w)
      (Engine.transformAll invoke' rules value w') := by
  induction rules generalizing value w w' with
  | nil => exact .ok hS hrel hvalue
  | cons rule rules ih =>
    refine .bind hS (hinv.transform hS hrel (hrules rule List.mem_cons_self) hvalue) ?_
    intro x v v' hv hrel hx
    refine ih hrel (fun r hr => hS.rule_step hv (hrules r ?_)) hx
    exact List.mem_cons_of_mem rule hr

/-- A plain failure leaves corresponding worlds. -/
theorem refused_of_plain {e : MutationError String} (he : e.Plain) (hrel : S.rel w w') :
    S.refused.both e w w' := by
  cases e with
  | aborted => exact he.elim
  | transformRaised => exact he.elim
  | _ => exact hrel

theorem ofCheck {α : Type} (hS : S.Lawful) (hrel : S.rel w w')
    {x : Except (MutationError String) α} (hx : Container.Plainly x) :
    S.Matches S.refused w Any (Engine.ofCheck x w) (Engine.ofCheck x w') := by
  cases x with
  | ok a => exact .ok hS hrel trivial
  | error e => exact .error hS (refused_of_plain (hx e rfl) hrel)

/-- Both evaluators make the same write. -/
theorem write {α : Type} (hS : S.Lawful) (hrel : S.rel w w') (g : GraphId)
    {step : Container → Except ContainerError (α × Container)} {good : α → Machine → Prop}
    (hstep : ∀ a c, step (w.store.get g) = .ok (a, c) →
      c.Holds (S.callee w) ∧ ∀ v, S.step w v → good a v) :
    S.Matches S.refused w good (Engine.write g step w) (Engine.write g step w') := by
  refine .container_bind hS hrel ?_
  cases happly : step (w.store.get g) with
  | error cause => exact .error hS (refused_of_plain (MutationError.plain_ofContainer cause) hrel)
  | ok p =>
    obtain ⟨a, c⟩ := p
    obtain ⟨hc, hgood⟩ := hstep a c happly
    refine .bind hS (.setContainer hS hrel g hc) fun _ v v' hv hrel _ => ?_
    exact .ok hS hrel (hgood v hv)

theorem addMember (hS : S.Lawful) (hrel : S.rel w w') (g : GraphId) (label : Label)
    {value : Value} (hvalue : S.Fine w value) :
    S.Matches S.refused w Any (Engine.write g (·.addMember label value) w)
      (Engine.write g (·.addMember label value) w') :=
  write hS hrel g fun _ _ hadd =>
    ⟨(hS.container hrel g).2.addMember hvalue hadd, fun _ _ => trivial⟩

theorem addEdge (hS : S.Lawful) (hrel : S.rel w w') (g : GraphId) (source target : Nat)
    (label : Label) (data : Option Value) :
    S.Matches S.refused w Any (Engine.write g (·.addEdge source target label data) w)
      (Engine.write g (·.addEdge source target label data) w') :=
  write hS hrel g fun _ _ hadd => ⟨(hS.container hrel g).2.addEdge hadd, fun _ _ => trivial⟩

theorem setValue (hS : S.Lawful) (hrel : S.rel w w') (g : GraphId) (n : Nat) {value : Value}
    (hvalue : S.Fine w value) :
    S.Matches S.refused w (fun x v => S.Fine v x) (Engine.write g (·.setValue n value) w)
      (Engine.write g (·.setValue n value) w') :=
  write hS hrel g fun _ _ hset =>
    have ⟨hold, hc⟩ := (hS.container hrel g).2.setValue hvalue hset
    ⟨hc, fun _ hv => hS.fine_step hv hold⟩

theorem removeNode (hS : S.Lawful) (hrel : S.rel w w') (g : GraphId) (n : Nat) :
    S.Matches S.refused w (fun x v => S.Fine v x) (Engine.write g (·.removeNode n) w)
      (Engine.write g (·.removeNode n) w') :=
  write hS hrel g fun _ _ hremove =>
    have ⟨hold, hc⟩ := (hS.container hrel g).2.removeNode hremove
    ⟨hc, fun _ hv => hS.fine_step hv hold⟩

theorem commit (hS : S.Lawful) (hrel : S.rel w w') (g : GraphId) {m : Mutation}
    (hm : ∀ x, m.incomingMember? = some x → S.Fine w x) :
    S.Matches S.refused w (fun a v => a.Holds (S.callee v)) (Engine.commit g m w)
      (Engine.commit g m w') := by
  refine .container_bind hS hrel ?_
  generalize w.store.get g = c
  by_cases hfrozen : c.frozen = true
  · rw [if_pos hfrozen]
    exact .error hS hrel
  rw [if_neg hfrozen]
  refine .bind hS (ofCheck hS hrel (Container.plainly_preflight m)) fun _ v v' hv hrel _ => ?_
  have hm : ∀ x, m.incomingMember? = some x → S.Fine v x := fun x hx => hS.fine_step hv (hm x hx)
  cases m with
  | insert value =>
    exact .map hS _ (addMember hS hrel g .element (hm value rfl)) fun _ _ _ => trivial
  | set index value =>
    refine .bind hS (ofCheck hS hrel (Container.plainly_nodeAt index)) fun n u u' hu hrel _ => ?_
    exact .map hS _ (setValue hS hrel g n (hS.fine_step hu (hm value rfl))) fun _ _ hx => hx
  | put key value =>
    dsimp only
    cases c.entryNode? key with
    | some n => exact .map hS _ (setValue hS hrel g n (hm value rfl)) fun _ _ _ => trivial
    | none => exact .map hS _ (addMember hS hrel g _ (hm value rfl)) fun _ _ _ => trivial
  | remove target =>
    cases target with
    | index index =>
      refine .bind hS (ofCheck hS hrel (Container.plainly_nodeAt index)) fun n u u' _ hrel _ => ?_
      exact .map hS _ (removeNode hS hrel g n) fun _ _ hx => hx
    | key key =>
      refine .bind hS (ofCheck hS hrel (Container.plainly_nodeUnder key)) fun n u u' _ hrel _ => ?_
      exact .map hS _ (removeNode hS hrel g n) fun _ _ hx => hx
    | node n => exact .map hS _ (removeNode hS hrel g n) fun _ _ hx => hx
  | addMember value parent =>
    refine .bind hS (addMember hS hrel g .contains (hm value rfl)) fun n u u' _ hrel _ => ?_
    cases parent with
    | none => exact .ok hS hrel trivial
    | some link =>
      exact .map hS _ (addEdge hS hrel g link.1 n (.link link.2) none) fun _ _ _ => trivial
  | link source target name data =>
    exact .map hS _ (addEdge hS hrel g source target (.link name) data) fun _ _ _ => trivial

/-- What becomes a member is what the rules see. -/
theorem incoming?_of_member {m : Mutation} {x : Value} (h : m.incomingMember? = some x) :
    m.incoming? = some x := by
  cases m with
  | link => cases h
  | _ => exact h

theorem incoming?_withIncoming {m : Mutation} {x : Value} (h : m.incoming? = some x) (y : Value) :
    (m.withIncoming y).incoming? = some y := by
  cases m with
  | remove => cases h
  | link source target name data =>
    cases h
    rfl
  | _ => rfl

theorem Invokes.govern (hS : S.Lawful) (hinv : S.Invokes invoke invoke') (hrel : S.rel w w')
    (g : GraphId) {rules : List Rule} {m : Mutation} (hrules : ∀ r ∈ rules, r.Holds (S.callee w))
    (hm : ∀ x, m.incoming? = some x → S.Fine w x) :
    S.Matches S.refused w (fun m v => ∀ x, m.incoming? = some x → S.Fine v x)
      (Engine.govern invoke g rules m w) (Engine.govern invoke' g rules m w') := by
  refine .bind hS (.forM hS ?_ hrel) fun _ v v' hv hrel _ => ?_
  · intro rule hrule v v' hv hrel
    exact hinv.consult hS hrel g (hS.rule_step hv (hrules rule hrule))
      fun x hx => hS.fine_step hv (hm x hx)
  cases hin : m.incoming? with
  | none =>
    refine .ok hS hrel fun x hx => ?_
    rw [hin] at hx
    cases hx
  | some value =>
    have hrules : ∀ r ∈ rules.filter (·.transformsIncoming), r.Holds (S.callee v) :=
      fun r hr => hS.rule_step hv (hrules r (List.mem_of_mem_filter hr))
    refine .map hS _ (hinv.transformAll hS hrel hrules (hS.fine_step hv (hm value hin))) ?_
    intro x u hx y hy
    rw [incoming?_withIncoming hin] at hy
    cases hy
    exact hx

theorem Invokes.apply (hS : S.Lawful) (hinv : S.Invokes invoke invoke') (hrel : S.rel w w')
    (g : GraphId) {m : Mutation} (hm : ∀ x, m.incoming? = some x → S.Fine w x) :
    S.Matches S.refused w (fun a v => a.Holds (S.callee v)) (Engine.apply invoke g m w)
      (Engine.apply invoke' g m w') := by
  refine .container_bind hS hrel ?_
  obtain ⟨-, hc⟩ := hS.container hrel g
  generalize w.store.get g = c at hc
  by_cases hfrozen : c.frozen = true
  · rw [if_pos hfrozen, if_pos hfrozen]
    refine .report_bind hS hrel fun v v' _ hrel => ?_
    exact .error hS hrel
  rw [if_neg hfrozen, if_neg hfrozen]
  refine .bind hS (ofCheck hS hrel (Container.plainly_preflight m)) fun _ v v' hv hrel _ => ?_
  refine .bind hS (hinv.govern hS hrel g (fun r hr => hS.rule_step hv (hc.rule r hr))
    fun x hx => hS.fine_step hv (hm x hx)) fun m' u u' _ hrel hm' => ?_
  refine .bind hS (commit hS hrel g fun x hx => hm' x (incoming?_of_member hx)) ?_
  intro applied t t' _ hrel happlied
  refine .report_bind hS hrel fun s s' hs hrel => .ok hS hrel ?_
  cases applied with
  | value x => exact hS.fine_step hs happlied
  | _ => trivial

theorem Invokes.updates (hS : S.Lawful) (hinv : S.Invokes invoke invoke') (hrel : S.rel w w')
    {rule : Rule} {members : List (Nat × Value)} (hrule : rule.Holds (S.callee w))
    (hmembers : ∀ x ∈ members, S.Fine w x.2) :
    S.Matches S.refused w (fun news v => ∀ x ∈ news, S.Fine v x.2)
      (Engine.updates invoke rule members w) (Engine.updates invoke' rule members w') := by
  induction members generalizing w w' with
  | nil => exact .ok hS hrel (by simp)
  | cons member members ih =>
    obtain ⟨node, value⟩ := member
    refine .bind hS (hinv.transform hS hrel hrule (hmembers _ List.mem_cons_self)) ?_
    intro x v v' hv hrel hx
    refine .bind hS (ih hrel (hS.rule_step hv hrule) fun y hy => ?_) ?_
    · exact hS.fine_step hv (hmembers y (List.mem_cons_of_mem _ hy))
    · intro news u u' hu hrel hnews
      refine .ok hS hrel fun y hy => ?_
      rcases List.mem_cons.1 hy with rfl | hy
      · exact hS.fine_step hu hx
      · exact hnews y hy

theorem Invokes.askMembers (hS : S.Lawful) (hinv : S.Invokes invoke invoke') (hrel : S.rel w w')
    (x : Validation) {callee : Value} {values : List Value} (hcallee : S.Fine w callee)
    (hvalues : ∀ x ∈ values, S.Fine w x) :
    S.Matches S.refused w Any (Engine.askMembers invoke x callee values w)
      (Engine.askMembers invoke' x callee values w') := by
  induction values generalizing w w' with
  | nil => exact .ok hS hrel trivial
  | cons value values ih =>
    refine hinv.ask_bind hS hrel hcallee (hvalues value List.mem_cons_self)
      (fun _ _ => rfl) (fun _ _ => rfl) ?_ ?_
    · intro v v' hv hrel
      refine ih hrel (hS.fine_step hv hcallee) fun y hy => hS.fine_step hv (hvalues y ?_)
      exact List.mem_cons_of_mem value hy
    · intro reason v v' _ hrel
      cases reason with
      | some reason => exact .error hS hrel
      | none =>
        refine .store_bind hS hrel ?_
        exact .error hS hrel

theorem Invokes.prepareRule (hS : S.Lawful) (hinv : S.Invokes invoke invoke')
    (hrel : S.rel w w') (g : GraphId) {rule : Rule} (hrule : rule.Holds (S.callee w)) :
    S.Matches S.refused w (fun news v => ∀ x ∈ news, S.Fine v x.2)
      (Engine.prepareRule invoke g rule w) (Engine.prepareRule invoke' g rule w') := by
  refine .store_bind hS hrel ?_
  obtain ⟨-, hc⟩ := hS.container hrel g
  have hnone : ∀ v : Machine, ∀ x ∈ ([] : List (Nat × Value)), S.Fine v x.2 := by simp
  have hmembers : ∀ x ∈ (w.store.get g).members.filterMap
      (fun n => ((w.store.get g).value? n).map fun v => (n, v)), S.Fine w x.2 := by
    intro x hx
    obtain ⟨n, -, hn⟩ := List.mem_filterMap.1 hx
    obtain ⟨v, hv, rfl⟩ := Option.map_eq_some_iff.1 hn
    exact hc.value? hv
  cases rule with
  | validate v =>
    cases v with
    | predicate name callee =>
      refine .bind hS (hinv.askMembers hS hrel _ (hrule callee List.mem_cons_self)
        hc.memberValues) fun _ v v' _ hrel _ => ?_
      exact .ok hS hrel (hnone v)
    | _ =>
      dsimp only
      generalize Validation.checkNow _ w.store (w.store.get g) = verdict
      cases verdict with
      | ok _ => exact .ok hS hrel (hnone w)
      | error reason => exact .error hS hrel
  | freeze f =>
    cases f with
    | rejectMixed =>
      refine .bind hS (.forM hS (fun x _ v v' _ hrel => rejectMixed hS hrel g _ x) hrel) ?_
      intro _ v v' _ hrel _
      exact .ok hS hrel (hnone v)
    | copyElements => exact hinv.updates hS hrel hrule hmembers
  | _ => exact hinv.updates hS hrel hrule hmembers

theorem writeAll (hS : S.Lawful) (hrel : S.rel w w') (g : GraphId) {news : List (Nat × Value)}
    (hnews : ∀ x ∈ news, S.Fine w x.2) :
    S.Matches S.refused w Any (Engine.writeAll g news w) (Engine.writeAll g news w') := by
  induction news generalizing w w' with
  | nil => exact .ok hS hrel trivial
  | cons x news ih =>
    refine .container_bind hS hrel ?_
    have hrest {v : Machine} (hv : S.step w v) : ∀ y ∈ news, S.Fine v y.2 :=
      fun y hy => hS.fine_step hv (hnews y (List.mem_cons_of_mem x hy))
    by_cases hnode : (w.store.get g).graph.hasNode x.1 = true
    · rw [if_pos hnode]
      have hset : S.Matches S.refused w Any _ _ :=
        .map hS (fun _ => ()) (setValue hS hrel g x.1 (hnews x List.mem_cons_self))
          fun _ _ _ => trivial
      refine .bind hS hset ?_
      intro _ v v' hv hrel _
      exact ih hrel (hrest hv)
    · rw [if_neg hnode]
      exact ih hrel (hrest (hS.step_refl w))

theorem pushRule (hS : S.Lawful) (hrel : S.rel w w') (g : GraphId) {rule : Rule}
    (hrule : rule.Holds (S.callee w)) :
    S.Matches S.refused w Any (Engine.write g (fun c => (c.pushRule rule).map fun c => ((), c)) w)
      (Engine.write g (fun c => (c.pushRule rule).map fun c => ((), c)) w') := by
  refine write hS hrel g fun _ c hpush => ⟨?_, fun _ _ => trivial⟩
  have hc := (hS.container hrel g).2.ruled hrule
  unfold Container.pushRule Container.ensureMutable at hpush
  split at hpush
  · cases hpush
  · cases hpush
    exact hc

theorem attachRule (hS : S.Lawful) (hrel : S.rel w w') (g : GraphId) {rule : Rule}
    {news : List (Nat × Value)} (hrule : rule.Holds (S.callee w))
    (hnews : ∀ x ∈ news, S.Fine w x.2) :
    S.Matches S.refused w Any (Engine.attachRule g rule news w)
      (Engine.attachRule g rule news w') := by
  refine .container_bind hS hrel ?_
  by_cases hfrozen : (w.store.get g).frozen = true
  · rw [if_pos hfrozen]
    exact .error hS hrel
  rw [if_neg hfrozen]
  refine .bind hS (writeAll hS hrel g hnews) fun _ v v' hv hrel _ => ?_
  refine .container_bind hS hrel ?_
  refine .report_bind hS hrel fun u u' hu hrel => ?_
  exact pushRule hS hrel g (hS.rule_step hu (hS.rule_step hv hrule))

theorem Invokes.addRule (hS : S.Lawful) (hinv : S.Invokes invoke invoke') (hrel : S.rel w w')
    (g : GraphId) {rule : Rule} (hrule : rule.Holds (S.callee w)) :
    S.Matches S.refused w Any (Engine.addRule invoke g rule w)
      (Engine.addRule invoke' g rule w') := by
  refine .container_bind hS hrel ?_
  by_cases hfrozen : (w.store.get g).frozen = true
  · rw [if_pos hfrozen, if_pos hfrozen]
    exact .error hS hrel
  rw [if_neg hfrozen, if_neg hfrozen]
  refine .bind hS (hinv.prepareRule hS hrel g hrule) fun news v v' hv hrel hnews => ?_
  exact attachRule hS hrel g (hS.rule_step hv hrule) hnews

theorem Invokes.addRules (hS : S.Lawful) (hinv : S.Invokes invoke invoke') (hrel : S.rel w w')
    (g : GraphId) {rules : List Rule} (hrules : ∀ r ∈ rules, r.Holds (S.callee w)) :
    S.Matches S.refused w Any (Engine.addRules invoke g rules w)
      (Engine.addRules invoke' g rules w') := by
  induction rules generalizing w w' with
  | nil => exact .ok hS hrel trivial
  | cons rule rules ih =>
    refine .bind hS (hinv.addRule hS hrel g (hrules rule List.mem_cons_self)) ?_
    intro _ v v' hv hrel _
    exact ih hrel fun r hr => hS.rule_step hv (hrules r (List.mem_cons_of_mem rule hr))

theorem Invokes.applyRuleset (hS : S.Lawful) (hinv : S.Invokes invoke invoke')
    (hrel : S.rel w w') (g : GraphId) {set : Ruleset}
    (hset : ∀ r ∈ set.rules, r.Holds (S.callee w)) :
    S.Matches S.refused w Any (Engine.applyRuleset invoke g set w)
      (Engine.applyRuleset invoke' g set w') := by
  refine .report_bind hS hrel fun v v' hv hrel => ?_
  exact hinv.addRules hS hrel g fun r hr => hS.rule_step hv (hset r hr)

theorem freeze (hS : S.Lawful) (hrel : S.rel w w') (g : GraphId) :
    S.Matches S.refused w Any (Engine.freeze g w) (Engine.freeze g w') := by
  refine .store_bind hS hrel ?_
  obtain ⟨-, hc⟩ := hS.container hrel g
  have hfreeze : S.Matches S.refused w Any
      ((do
        Act.setContainer g (w.store.get g).freeze
        Act.report .debug Engine.target "graph frozen" fun _ => [] : Act Session _ Unit) w)
      ((do
        Act.setContainer g (w.store.get g).freeze
        Act.report .debug Engine.target "graph frozen" fun _ => [] : Act Session _ Unit) w') := by
    refine .bind hS (.setContainer hS hrel g (hc.frozen true)) fun _ v v' _ hrel _ => ?_
    obtain ⟨hrel', hstep⟩ := hS.noted .debug Engine.target "graph frozen" (fun _ => []) hrel
    exact .of_some hstep (.ok hrel' trivial)
  by_cases hfrozen : (w.store.get g).frozen = true
  · rw [if_pos hfrozen]
    exact .ok hS hrel trivial
  rw [if_neg hfrozen]
  cases Engine.mixedRule? (w.store.get g) with
  | none => exact hfreeze
  | some rule =>
    dsimp only
    by_cases hany : (w.store.get g).memberValues.any (Engine.isUnfrozenOther w.store g) = true
    · rw [if_pos hany]
      exact .error hS hrel
    · rw [if_neg hany]
      exact hfreeze

end Simulation

end GraphLang
