import GraphLang.Proofs.Simulation.Call

/-!
# Operations side by side

Loops, handlers, closures and changes of containers.
-/

namespace GraphLang

namespace Simulation

variable {S : Simulation} {w w' : Machine} {ev ev' : Evaluator} {code code' : Code}
variable {scope : ScopeId} {loop : Prop} {n : Nat}

/-! ### Loops -/

/-- A condition and a body that correspond as long as worlds do. The second evaluator may have more
fuel. -/
theorem Matches.whileLoop (hS : S.Lawful) {condition condition' : Step Value}
    {body body' : Eval Signal} {fuel fuel' : Nat} (hfuel : S.Fuels fuel fuel')
    (hcondition : ∀ v v', S.step w v → S.rel v v' →
      S.Matches S.fatal v (S.Comes loop S.Yields) (condition v) (condition' v'))
    (hbody : ∀ v v', S.step w v → S.rel v v' →
      S.Matches S.fatal v (S.Gives True True) (body v) (body' v')) (hrel : S.rel w w') :
    S.Matches S.fatal w (S.Comes loop S.Yields) (Step.whileLoop condition body fuel w)
      (Step.whileLoop condition' body' fuel' w') := by
  induction fuel generalizing fuel' w w' with
  | zero => exact .of_none fun hlock => by rw [hfuel.2 hlock]; rfl
  | succ fuel ih =>
    obtain ⟨fuel', rfl, hless⟩ := hfuel.exists_succ
    have hagain : ∀ v v', S.step w v → S.rel v v' →
        S.Matches S.fatal v (S.Comes loop S.Yields) (Step.whileLoop condition body fuel v)
          (Step.whileLoop condition' body' fuel' v') := by
      intro v v' hv hrel
      exact ih hless (fun u u' hu => hcondition u u' (hS.step_trans hv hu))
        (fun u u' hu => hbody u u' (hS.step_trans hv hu)) hrel
    refine .step_bind hS (hcondition w w' (hS.step_refl w) hrel) fun c v v' hv hrel _ => ?_
    refine .step_store hS hrel ?_
    by_cases htrue : v.store.isTruthy c = true
    · rw [if_pos htrue, if_pos htrue]
      refine .lift_bind hS (hbody v v' hv hrel) fun s u u' hu hrel hs => ?_
      cases s with
      | normal x => exact hagain u u' (hS.step_trans hv hu) hrel
      | continuing => exact hagain u u' (hS.step_trans hv hu) hrel
      | breaking => exact .ok hS hrel trivial
      | returning x => exact .ok hS hrel ⟨rfl, hs.1⟩
      | raised r => exact .ok hS hrel ⟨rfl, hs.1⟩
    · rw [if_neg htrue, if_neg htrue]
      exact .ok hS hrel trivial

/-- All items that are left may be used. -/
def ItemsFine (S : Simulation) : Step.Items → Machine → Prop
  | .snapshot values, v => ∀ x ∈ values, S.Fine v x
  | .numbers .., _ => True

theorem ItemsFine.step (hS : S.Lawful) {v : Machine} (hv : S.step w v) {items : Step.Items}
    (h : S.ItemsFine items w) : S.ItemsFine items v := by
  cases items with
  | snapshot values => exact hS.all_fine_step hv h
  | numbers => trivial

theorem ItemsFine.next {items rest : Step.Items} {item : Value} (h : S.ItemsFine items w)
    (hnext : items.next? = some (item, rest)) : S.Fine w item ∧ S.ItemsFine rest w := by
  cases items with
  | snapshot values =>
    cases values with
    | nil => cases hnext
    | cons x values =>
      cases hnext
      exact ⟨h item List.mem_cons_self, fun y hy => h y (List.mem_cons_of_mem item hy)⟩
  | numbers next bound =>
    simp only [Step.Items.next?] at hnext
    split at hnext
    · cases hnext
      exact ⟨trivial, trivial⟩
    · cases hnext

theorem Matches.items (hS : S.Lawful) (hrel : S.rel w w') (x : Value) :
    S.Matches S.fatal w (S.Comes loop S.ItemsFine) (Step.items x w) (Step.items x w') := by
  cases x with
  | int i => exact .ok hS hrel trivial
  | str t =>
    refine .ok hS hrel fun y hy => ?_
    obtain ⟨c, -, rfl⟩ := List.mem_map.1 hy
    trivial
  | graph g =>
    refine .step_store hS hrel ?_
    obtain ⟨-, hc⟩ := hS.container hrel g
    generalize w.store.get g = c at hc
    cases c.kind with
    | list => exact .ok hS hrel hc.elements
    | map => exact .ok hS hrel (holds_keys c)
    | user name =>
      refine .ok hS hrel fun y hy => ?_
      obtain ⟨m, -, rfl⟩ := List.mem_map.1 hy
      trivial
  | _ => exact .step_store hS hrel (.fault hS hrel _)

theorem Matches.eachLoop (hS : S.Lawful) {name : String} {body body' : ScopeId → Eval Signal}
    {fuel fuel' : Nat} (hfuel : S.Fuels fuel fuel') {items : Step.Items}
    (hbody : ∀ inner v v', S.rel v v' → S.live v inner →
      S.Matches S.fatal v (S.Gives True True) (body inner v) (body' inner v'))
    (hitems : S.ItemsFine items w) (hrel : S.rel w w') (hlive : S.live w scope) :
    S.Matches S.fatal w (S.Comes loop S.Yields) (Step.eachLoop scope name body fuel items w)
      (Step.eachLoop scope name body' fuel' items w') := by
  induction fuel generalizing fuel' items w w' with
  | zero => exact .of_none fun hlock => by rw [hfuel.2 hlock]; rfl
  | succ fuel ih =>
    obtain ⟨fuel', rfl, hless⟩ := hfuel.exists_succ
    unfold Step.eachLoop
    cases hnext : items.next? with
    | none => exact .ok hS hrel trivial
    | some p =>
      obtain ⟨item, rest⟩ := p
      obtain ⟨hitem, hrest⟩ := hitems.next hnext
      have hlocals : ∀ x ∈ [(name, item)], S.Fine w x.2 := by
        intro x hx
        rwa [List.mem_singleton.1 hx]
      refine .lift_bind hS (.inScope hS hrel hlive .loop hlocals (S.stable_gives True True) ?_) ?_
      · intro inner v v' hrel hlive _ _
        exact hbody inner v v' hrel hlive
      · intro s v v' hv hrel hs
        have hagain := @ih _ _ fuel' hless _ (hrest.step hS hv) hrel (hS.live_step hv hlive)
        cases s with
        | normal x => exact hagain
        | continuing => exact hagain
        | breaking => exact .ok hS hrel trivial
        | returning x => exact .ok hS hrel ⟨rfl, hs.1⟩
        | raised r => exact .ok hS hrel ⟨rfl, hs.1⟩

/-! ### Handlers -/

theorem Matches.withPath (hS : S.Lawful) (hrel : S.rel w w') {x : Value} (path : List CallSite)
    (hx : S.Fine w x) :
    S.Matches S.fatal w S.Yields (Step.withPath x path w) (Step.withPath x path w') := by
  cases x with
  | exception serial kind message payload old => exact .newException hS hrel kind message path hx
  | _ => exact .ok hS hrel hx

theorem Follows.handle (hS : S.Lawful) (hev : S.Follows ev ev') {handler handler' : Nat}
    (hhandler : S.nodes code code' loop True handler handler') (catchName : Option String)
    {r : Raised} (hr : S.Fine w r.exception) (hrel : S.rel w w') (hlive : S.live w scope) :
    S.Matches S.fatal w (S.Gives loop True)
      (Step.handle ev code n handler catchName scope r w)
      (Step.handle ev' code' n handler' catchName scope r w') := by
  refine .seq hS rfl rfl (hS.step_refl w) ?_
  dsimp only
  rw [(hS.agree hrel).frames]
  refine .bind hS (.withPath hS hrel _ ?_) fun x v v' hv hrel hx => ?_
  · split
    · unfold Raised.leave
      split <;> exact hr
    · exact hr
  refine .report_bind hS hrel fun u u' hu hrel => ?_
  refine .inScope hS hrel (hS.live_step hu (hS.live_step hv hlive)) .catch ?_
    (S.stable_gives loop True) ?_
  · intro y hy
    obtain ⟨name, -, rfl⟩ := List.mem_map.1 hy
    exact hS.fine_step hu hx
  · intro inner t t' hrel hlive _ _
    exact hev.node hhandler hrel hlive

theorem Follows.finalize (hS : S.Lawful) (hev : S.Follows ev ev')
    (hfinalizer : S.Child code code' loop (code.program.child? n .finalizer)
      (code'.program.child? n .finalizer)) {s : Signal} (hs : S.Gives loop True s w)
    (hrel : S.rel w w') (hlive : S.live w scope) :
    S.Matches S.fatal w (S.Comes loop S.Yields)
      ((match code.program.child? n .finalizer with
        | none => Step.ofSignal s
        | some finalizer => do
          let after ← Step.lift (ev.node code finalizer scope)
          if after.isNormal then Step.ofSignal s else throw after) w)
      ((match code'.program.child? n .finalizer with
        | none => Step.ofSignal s
        | some finalizer => do
          let after ← Step.lift (ev'.node code' finalizer scope)
          if after.isNormal then Step.ofSignal s else throw after) w') := by
  have hdone : ∀ v v', S.step w v → S.rel v v' →
      S.Matches S.fatal v (S.Comes loop S.Yields) (Step.ofSignal s v) (Step.ofSignal s v') := by
    intro v v' hv hrel
    refine (Matches.ofSignal hS hrel (S.stable_gives loop True (hS.callee_step hv) s hs)).weaken ?_
    rintro (t | x) u - hx
    · exact hx
    · exact hx.2
  revert hfinalizer
  cases code.program.child? n .finalizer with
  | none =>
    cases code'.program.child? n .finalizer with
    | none => exact fun _ => hdone w w' (hS.step_refl w) hrel
    | some c' => exact fun hfalse => hfalse.elim
  | some c =>
    cases code'.program.child? n .finalizer with
    | none => exact fun hfalse => hfalse.elim
    | some c' =>
      intro hc
      refine .lift_bind hS (hev.node hc hrel hlive) fun t v v' hv hrel ht => ?_
      by_cases hnormal : t.isNormal = true
      · rw [if_pos hnormal]
        exact hdone v v' hv hrel
      · rw [if_neg hnormal]
        exact .ok hS hrel ⟨by simpa using hnormal, ht.1⟩

/-- An exception is handled, any other signal is passed on, and the closing part comes last. -/
theorem Follows.guarded (hS : S.Lawful) (hev : S.Follows ev ev')
    (hbody : S.Child code code' loop (code.program.child? n .body)
      (code'.program.child? n .body))
    (hmissing : code.program.child? n .body = none → S.loose)
    (hhandler : S.Child code code' loop (code.program.child? n .handler)
      (code'.program.child? n .handler))
    (hfinalizer : S.Child code code' loop (code.program.child? n .finalizer)
      (code'.program.child? n .finalizer)) (catchName : Option String)
    (hrel : S.rel w w') (hlive : S.live w scope) :
    S.Matches S.fatal w (S.Comes loop S.Yields) (Step.guarded ev code n catchName scope w)
      (Step.guarded ev' code' n catchName scope w') := by
  refine .child hS hrel hbody hmissing fun c c' hc => ?_
  refine .lift_bind hS (hev.node hc hrel hlive) fun s v v' hv hrel hs => ?_
  have hlive' := hS.live_step hv hlive
  have hdone : ∀ (t : Signal) u u', S.step v u → S.rel u u' → S.Gives loop True t u → _ :=
    fun t u u' hu hrel ht =>
      hev.finalize hS hfinalizer ht hrel (hS.live_step hu hlive')
  revert hhandler
  cases s with
  | raised r =>
    cases code.program.child? n .handler with
    | none =>
      cases code'.program.child? n .handler with
      | none => exact fun _ => hdone _ v v' (hS.step_refl v) hrel hs
      | some d' => exact fun hfalse => hfalse.elim
    | some d =>
      cases code'.program.child? n .handler with
      | none => exact fun hfalse => hfalse.elim
      | some d' =>
        exact fun hd => .lift_bind hS (hev.handle hS hd catchName hs.1 hrel hlive') hdone
  | _ => exact fun _ => hdone _ v v' (hS.step_refl v) hrel hs

/-! ### Closures -/

theorem Matches.closure (hS : S.Lawful) {f : FunctionId} (hf : S.makes code code' f)
    (hrel : S.rel w w') (hlive : S.live w scope) :
    S.Matches S.fatal w (S.Comes loop S.Yields) (Step.closure code f scope w)
      (Step.closure code' f scope w') := by
  obtain ⟨hunit, hsame⟩ := hS.makes_same hf
  unfold Step.closure
  unfold Same at hsame
  cases hd : code.program.function? f with
  | none =>
    cases hd' : code'.program.function? f with
    | none =>
      simp only [hd, hd'] at hsame
      exact .fatal hS hrel (Or.inl hsame)
    | some d' => simp only [hd, hd'] at hsame
  | some d =>
    cases hd' : code'.program.function? f with
    | none => simp only [hd, hd'] at hsame
    | some d' =>
      simp only [hd, hd'] at hsame
      obtain ⟨hname, hparams, -⟩ := hsame
      have harity : d'.arity = d.arity := congrArg List.length hparams
      dsimp only
      rw [harity, hname, hunit]
      refine .lift_bind hS (.onScopes (hS.closure hf hd hrel hlive)) ?_
      rintro r v v' _ hrel ⟨hok, herror⟩
      cases r with
      | error e => exact .fatal hS hrel (Or.inl (herror e rfl))
      | ok c => exact .ok hS hrel (hok c rfl)

end Simulation

end GraphLang
