import GraphLang.Proofs.Simulation.Operation

/-!
# Nodes side by side

Two nodes with the same operation and corresponding children come to the same signal.
-/

namespace GraphLang

namespace Simulation

variable {S : Simulation} {w w' : Machine} {ev ev' : Evaluator} {code code' : Code}
variable {scope : ScopeId} {loop : Prop} {n : Nat}

/-! ### Changes of containers -/

theorem Follows.change (hS : S.Lawful) (hev : S.Follows ev ev') (hrel : S.rel w w') (g : GraphId)
    {m : Mutation} (hm : ∀ x, m.incoming? = some x → S.Fine w x) :
    S.Matches S.fatal w (S.Comes loop fun a v => a.Holds (S.callee v))
      (Step.governed (Engine.apply (Eval.callback ev) g m) w)
      (Step.governed (Engine.apply (Eval.callback ev') g m) w') :=
  .governed hS (Invokes.apply hS (hev.invokes hS) hrel g hm)

theorem fine_incoming {m : Mutation} {x : Value} (hm : m.incoming? = some x) (hx : S.Fine w x) :
    ∀ y, m.incoming? = some y → S.Fine w y := by
  intro y hy
  rw [hm] at hy
  cases hy
  exact hx

theorem Follows.setIndex (hS : S.Lawful) (hev : S.Follows ev ev') (hrel : S.rel w w')
    (target index : Value) {value : Value} (hvalue : S.Fine w value) :
    S.Matches S.fatal w (S.Comes loop S.Yields) (Step.setIndex ev target index value w)
      (Step.setIndex ev' target index value w') := by
  refine .step_bind hS (.container hS hrel target) fun g v v' hv hrel _ => ?_
  have hvalue := hS.fine_step hv hvalue
  refine .step_store hS hrel ?_
  dsimp only
  generalize v.store.get g = c
  cases c.kind with
  | list =>
    refine .step_bind hS (.ofFault hS hrel (fun _ _ => trivial) (P := Any)) ?_
    intro i u u' hu hrel _
    refine .step_discard hS (hev.change hS hrel g (fine_incoming rfl (hS.fine_step hu hvalue))) ?_
    intro t t' _ hrel
    exact .ok hS hrel trivial
  | map =>
    refine .step_bind hS (.ofFault hS hrel (fun _ _ => trivial) (P := Any)) ?_
    intro key u u' hu hrel _
    refine .step_discard hS (hev.change hS hrel g (fine_incoming rfl (hS.fine_step hu hvalue))) ?_
    intro t t' _ hrel
    exact .ok hS hrel trivial
  | user name =>
    refine .step_bind hS (.fault hS hrel _ (P := Any)) fun _ u u' _ hrel _ => ?_
    exact .ok hS hrel trivial

theorem Follows.removeFrom (hS : S.Lawful) (hev : S.Follows ev ev') (hrel : S.rel w w')
    (g : GraphId) (target : Target) :
    S.Matches S.fatal w (S.Comes loop S.Yields)
      ((do
        match ← Step.governed (Engine.apply (Eval.callback ev) g (.remove target)) with
        | .value v => return v
        | _ => return .nil) w)
      ((do
        match ← Step.governed (Engine.apply (Eval.callback ev') g (.remove target)) with
        | .value v => return v
        | _ => return .nil) w') := by
  have hnothing : ∀ y, (Mutation.remove target).incoming? = some y → S.Fine w y := by
    intro y hy
    cases hy
  refine .step_bind hS (hev.change hS hrel g hnothing) fun a v v' _ hrel ha => ?_
  cases a with
  | value x => exact .ok hS hrel ha
  | _ => exact .ok hS hrel trivial

theorem Follows.removeAt (hS : S.Lawful) (hev : S.Follows ev ev') (hrel : S.rel w w')
    (target index : Value) :
    S.Matches S.fatal w (S.Comes loop S.Yields) (Step.removeAt ev target index w)
      (Step.removeAt ev' target index w') := by
  refine .step_bind hS (.container hS hrel target) fun g v v' hv hrel _ => ?_
  refine .step_store hS hrel ?_
  dsimp only
  generalize v.store.get g = c
  cases c.kind <;>
  · simp only [map_eq_pure_bind, bind_assoc, pure_bind]
    refine .step_bind hS (.ofFault hS hrel (fun _ _ => trivial) (P := Any)) ?_
    intro i u u' _ hrel _
    exact hev.removeFrom hS hrel g _

theorem Follows.addTo (hS : S.Lawful) (hev : S.Follows ev ev') (hrel : S.rel w w') (g : GraphId)
    {value : Value} (hvalue : S.Fine w value) (parent : Option (Nat × String)) :
    S.Matches S.fatal w (S.Comes loop S.Yields)
      ((do
        match ← Step.governed (Engine.apply (Eval.callback ev) g (.addMember value parent)) with
        | .node n => return Value.int (Int64.ofNat n)
        | _ => return Value.nil) w)
      ((do
        match ← Step.governed (Engine.apply (Eval.callback ev') g (.addMember value parent)) with
        | .node n => return Value.int (Int64.ofNat n)
        | _ => return Value.nil) w') := by
  refine .step_bind hS (hev.change hS hrel g (fine_incoming rfl hvalue)) ?_
  intro a v v' _ hrel ha
  cases a <;> exact .ok hS hrel trivial

theorem Follows.addMember (hS : S.Lawful) (hev : S.Follows ev ev') (hrel : S.rel w w')
    (target : Value) {value : Value} (hvalue : S.Fine w value) (parent : Option Value)
    (link : Option String) :
    S.Matches S.fatal w (S.Comes loop S.Yields) (Step.addMember ev target value parent link w)
      (Step.addMember ev' target value parent link w') := by
  refine .step_bind hS (.container hS hrel target) fun g v v' hv hrel _ => ?_
  have hvalue := hS.fine_step hv hvalue
  have hplain : S.Matches S.fatal v (S.Comes loop S.Yields) _ _ := hev.addTo hS hrel g hvalue none
  cases parent with
  | none => exact hplain
  | some handle =>
    cases link with
    | none => exact hplain
    | some name =>
      refine .step_store hS hrel ?_
      refine .step_bind hS (.ofFault hS hrel (fun _ _ => trivial) (P := Any)) ?_
      intro i u u' hu hrel _
      exact hev.addTo hS hrel g (hS.fine_step hu hvalue) _

theorem Follows.link (hS : S.Lawful) (hev : S.Follows ev ev') (hrel : S.rel w w')
    (target source end_ : Value) (name : String) {data : Option Value}
    (hdata : ∀ x, data = some x → S.Fine w x) :
    S.Matches S.fatal w (S.Comes loop S.Yields) (Step.link ev target source end_ name data w)
      (Step.link ev' target source end_ name data w') := by
  refine .step_bind hS (.container hS hrel target) fun g v v' hv hrel _ => ?_
  refine .step_store hS hrel ?_
  refine .step_bind hS (.ofFault hS hrel (fun _ _ => trivial) (P := Any)) ?_
  intro i u u' hu hrel _
  refine .step_store hS hrel ?_
  refine .step_bind hS (.ofFault hS hrel (fun _ _ => trivial) (P := Any)) ?_
  intro j t t' ht hrel _
  have hstep := hS.step_trans hv (hS.step_trans hu ht)
  refine .step_discard hS (hev.change hS hrel g fun x hx => hS.fine_step hstep (hdata x hx)) ?_
  intro r r' _ hrel
  exact .ok hS hrel trivial

theorem Follows.addRule (hS : S.Lawful) (hev : S.Follows ev ev') (hrel : S.rel w w')
    {target : Value} (htarget : S.Fine w target) (spec : RuleSpec) {args : List Value}
    (hargs : ∀ x ∈ args, S.Fine w x) :
    S.Matches S.fatal w (S.Comes loop S.Yields) (Step.addRule ev target spec args w)
      (Step.addRule ev' target spec args w') := by
  refine .step_bind hS (.container hS hrel target) fun g v v' hv hrel _ => ?_
  have hspec : ∀ rule, spec.instantiate args = .ok rule → rule.Holds (S.callee v) :=
    fun rule hrule => RuleSpec.holds_instantiate (hS.all_fine_step hv hargs) hrule
  refine .step_bind hS (.ofSpec hS hrel hspec (P := fun rule u => rule.Holds (S.callee u))) ?_
  intro rule u u' hu hrel hrule
  refine .step_report hS hrel fun t t' ht hrel => ?_
  refine .step_bind hS
    (.governed hS (Invokes.addRule hS (hev.invokes hS) hrel g (hS.rule_step ht hrule))) ?_
  intro _ r r' hr hrel _
  refine .ok hS hrel (hS.fine_step ?_ htarget)
  exact hS.step_trans hv (hS.step_trans hu (hS.step_trans ht hr))

theorem mem_define {sets : Rulesets} {set x : Ruleset} (hx : x ∈ sets.define set) :
    x = set ∨ x ∈ sets := by
  unfold Rulesets.define at hx
  split at hx
  · obtain ⟨old, hold, rfl⟩ := List.mem_map.1 hx
    split
    · exact Or.inl rfl
    · exact Or.inr hold
  · rcases List.mem_append.1 hx with hx | hx
    · exact Or.inr hx
    · exact Or.inl (List.mem_singleton.1 hx)

theorem Matches.defineRuleset (hS : S.Lawful) (hrel : S.rel w w') (name : String)
    (specs : List RuleSpec) {args : List Value} (hargs : ∀ x ∈ args, S.Fine w x) :
    S.Matches S.fatal w (S.Comes loop S.Yields) (Step.defineRuleset name specs args w)
      (Step.defineRuleset name specs args w') := by
  have hspecs : ∀ rules, RuleSpec.instantiateAll specs args = .ok rules →
      ∀ r ∈ rules, r.Holds (S.callee w) :=
    fun rules hrules => RuleSpec.holds_instantiateAll hargs hrules
  refine .step_bind hS
    (.ofSpec hS hrel hspecs (P := fun rules u => ∀ r ∈ rules, r.Holds (S.callee u))) ?_
  intro rules v v' _ hrel hrules
  refine .step_report hS hrel fun u u' hu hrel => ?_
  have hsets : ∀ set ∈ u.control.rulesets.define ⟨name, rules⟩, ∀ r ∈ set.rules,
      r.Holds (S.callee u) := by
    intro set hset r hr
    rcases mem_define hset with rfl | hset
    · exact hS.rule_step hu (hrules r hr)
    · exact hS.rulesets hrel set hset r hr
  obtain ⟨hrel', hstep⟩ := hS.withRulesets hrel hsets
  refine .lift_bind hS (m := Any) ?_ fun _ t t' _ hrel _ => .ok hS hrel trivial
  refine .of_some hstep ?_
  have hrun : Eval.modifySession (fun st => { st with
      rulesets := st.rulesets.define ⟨name, rules⟩ }) u' =
      some (.ok (), u'.withRulesets (u.control.rulesets.define ⟨name, rules⟩)) := by
    rw [← (hS.agree hrel).rulesets]
    rfl
  rw [hrun]
  exact .ok hrel' trivial

theorem Follows.applyRuleset (hS : S.Lawful) (hev : S.Follows ev ev') (hrel : S.rel w w')
    {target : Value} (htarget : S.Fine w target) (name : String) :
    S.Matches S.fatal w (S.Comes loop S.Yields) (Step.applyRuleset ev target name w)
      (Step.applyRuleset ev' target name w') := by
  refine .step_bind hS (.container hS hrel target) fun g v v' hv hrel _ => ?_
  rw [Step.run_bind, Step.run_bind, Step.run_session, Step.run_session]
  dsimp only
  rw [(hS.agree hrel).rulesets]
  cases hget : v.control.rulesets.get? name with
  | none => exact .fault hS hrel _
  | some set =>
    have hset := hS.rulesets hrel set (List.mem_of_find?_eq_some hget)
    refine .step_bind hS
      (.governed hS (Invokes.applyRuleset hS (hev.invokes hS) hrel g hset)) ?_
    intro _ u u' hu hrel _
    exact .ok hS hrel (hS.fine_step (hS.step_trans hv hu) htarget)

/-! ### Operators, exceptions and blocks -/

theorem Matches.logical (hS : S.Lawful) (op : LogicalOp)
    (hleft : ∀ v v', S.step w v → S.rel v v' → S.Matches S.fatal v (S.Comes loop S.Yields)
      (Step.role ev code n .left scope v) (Step.role ev' code' n .left scope v'))
    (hright : ∀ v v', S.step w v → S.rel v v' → S.Matches S.fatal v (S.Comes loop S.Yields)
      (Step.role ev code n .right scope v) (Step.role ev' code' n .right scope v'))
    (hrel : S.rel w w') :
    S.Matches S.fatal w (S.Comes loop S.Yields) (Step.logical ev code n op scope w)
      (Step.logical ev' code' n op scope w') := by
  refine .step_bind hS (hleft w w' (hS.step_refl w) hrel) fun x v v' hv hrel _ => ?_
  refine .step_store hS hrel ?_
  have hdecided : ∀ decided : Bool, S.Matches S.fatal v (S.Comes loop S.Yields)
      ((if decided then pure (Value.bool (v.store.isTruthy x)) else do
        let right ← Step.role ev code n .right scope
        return Operators.logical (← Step.store) op x right) v)
      ((if decided then pure (Value.bool (v.store.isTruthy x)) else do
        let right ← Step.role ev' code' n .right scope
        return Operators.logical (← Step.store) op x right) v') := by
    intro decided
    cases decided with
    | true => exact .ok hS hrel trivial
    | false =>
      refine .step_bind hS (hright v v' hv hrel) fun y u u' _ hrel _ => ?_
      refine .step_store hS hrel ?_
      exact .ok hS hrel (Operators.holds_logical op x y)
  exact hdecided _

theorem Matches.binary (hS : S.Lawful) (hrel : S.rel w w') (op : BinaryOp) (left right : Value) :
    S.Matches S.fatal w (S.Comes loop S.Yields) (Step.binary op left right w)
      (Step.binary op left right w') := by
  refine .step_store hS hrel ?_
  obtain ⟨hresult, hstore⟩ := Operators.gives_binary (hS.store hrel) op left right
  obtain ⟨hrel', hstep⟩ := hS.withStore hrel hstore
  refine .lift_bind hS
    (m := fun _ v => ∀ x, (Operators.binary w.store op left right).1 = .ok x → S.Fine v x) ?_ ?_
  · exact .of_some hstep (.ok hrel' fun x hx => hS.fine_step hstep (hresult x hx))
  · intro _ v v' _ hrel hresult
    exact .ofFault hS hrel hresult

theorem Matches.raiseValue (hS : S.Lawful) (hrel : S.rel w w') {x : Value} (hx : S.Fine w x)
    {good : Value → Machine → Prop} :
    S.Matches S.fatal w (S.Comes loop good) (Step.raiseValue n x w) (Step.raiseValue n x w') := by
  refine .lift_bind hS (.toException hS hrel hx) fun y v v' _ hrel hy => ?_
  refine .step_report hS hrel fun u u' hu hrel => ?_
  exact .raise hS hrel (hS.fine_step hu hy)

theorem Follows.stepCall (hS : S.Lawful) (hev : S.Follows ev ev') (hrel : S.rel w w')
    {callee : Value} {args : List Value} (hcallee : S.Fine w callee)
    (hargs : ∀ x ∈ args, S.Fine w x) :
    S.Matches S.fatal w (S.Comes loop S.Yields) (Step.call ev callee args n w)
      (Step.call ev' callee args n w') := by
  refine .lift_bind hS (hev.callValue hS hrel hcallee hargs (some n)) fun s v v' _ hrel hs => ?_
  cases s with
  | normal x => exact .ok hS hrel hs
  | raised r => exact .ok hS hrel ⟨rfl, hs⟩
  | _ => exact hs.elim

theorem Follows.block (hS : S.Lawful) (hev : S.Follows ev ev')
    (hruns : S.Runs code code' loop (code.program.indexed n (.statement 0))
      (code'.program.indexed n (.statement 0))) (hrel : S.rel w w') (hlive : S.live w scope) :
    S.Matches S.fatal w (S.Comes loop S.Yields) (Step.block ev code n scope w)
      (Step.block ev' code' n scope w') := by
  refine .lift_bind hS (.inScope hS hrel hlive .block (fun x hx => by cases hx)
    (S.stable_gives loop True) ?_) ?_
  · intro inner v v' hrel hlive _ _
    exact hev.statements hS hruns hrel hlive
  · intro s v v' _ hrel hs
    refine (Matches.ofSignal hS hrel hs).weaken ?_
    rintro (t | x) u - hx
    · exact hx
    · exact hx.2

theorem Matches.literalKeys (hS : S.Lawful) {entries : List (Literal × Value)}
    (hentries : ∀ x ∈ entries, S.Fine w x.2) (hrel : S.rel w w') :
    S.Matches S.fatal w (S.Comes loop fun es v => ∀ x ∈ es, S.Fine v x.2)
      (Step.literalKeys entries w) (Step.literalKeys entries w') := by
  induction entries generalizing w w' with
  | nil => exact .ok hS hrel fun x hx => by cases hx
  | cons entry entries ih =>
    obtain ⟨l, x⟩ := entry
    refine .step_store hS hrel ?_
    refine .step_bind hS (.ofFault hS hrel (fun _ _ => trivial) (P := Any)) ?_
    intro key v v' hv hrel _
    refine .step_bind hS (ih (fun y hy => hS.fine_step hv (hentries y ?_)) hrel) ?_
    · exact List.mem_cons_of_mem _ hy
    · intro es u u' hu hrel hes
      refine .ok hS hrel fun y hy => ?_
      rcases List.mem_cons.1 hy with rfl | hy
      · exact hS.fine_step (hS.step_trans hv hu) (hentries _ List.mem_cons_self)
      · exact hes y hy

/-! ### Operations -/

/-- The children of two nodes with the operation `o` correspond. The body of a loop stands inside
that loop. -/
structure Shares (S : Simulation) (code code' : Code) (loop : Prop) (n : Nat) (o : Op) : Prop where
  unit : code'.unit = code.unit
  child : ∀ role, role ≠ .body → S.Child code code' loop (code.program.child? n role)
    (code'.program.child? n role)
  body : S.Child code code' (loop ∨ o.isLoop = true) (code.program.child? n .body)
    (code'.program.child? n .body)
  required : ∀ role ∈ o.shape.required, code.program.child? n role = none → S.loose
  family : o ≠ .block → ∀ role, o.shape.indexed = some role →
    List.Forall₂ (fun c c' => S.nodes code code' loop True c.2 c'.2)
      (code.program.indexed n role) (code'.program.indexed n role)
  statements : o = .block → S.Runs code code' loop (code.program.indexed n (.statement 0))
    (code'.program.indexed n (.statement 0))
  makes : ∀ f, o = .function f → S.makes code code' f
  control : o = .breakLoop ∨ o = .continueLoop → loop

theorem Shares.role_of (hS : S.Lawful) (hev : S.Follows ev ev') {o : Op}
    (h : S.Shares code code' loop n o) {role : Role} (hrole : role ∈ o.shape.required)
    (hbody : role ≠ .body) (hrel : S.rel w w') (hlive : S.live w scope) :
    S.Matches S.fatal w (S.Comes loop S.Yields) (Step.role ev code n role scope w)
      (Step.role ev' code' n role scope w') :=
  hev.role hS (h.child role hbody) (h.required role hrole) hrel hlive

theorem Shares.family_of (hS : S.Lawful) (hev : S.Follows ev ev') {o : Op}
    (h : S.Shares code code' loop n o) (hblock : o ≠ .block) {role : Role}
    (hrole : o.shape.indexed = some role) (hrel : S.rel w w') (hlive : S.live w scope) :
    S.Matches S.fatal w (S.Comes loop fun xs v => ∀ x ∈ xs, S.Fine v x)
      (Step.family ev code n role scope w) (Step.family ev' code' n role scope w') :=
  hev.nodes hS (h.family hblock role hrole) hrel hlive

/-- An operation after which no statement can run comes to no value. -/
theorem Follows.diverging (hS : S.Lawful) (hev : S.Follows ev ev') {fuel fuel' : Nat} {o : Op}
    (h : S.Shares code code' loop n o) (ho : o.diverges = true) (hrel : S.rel w w')
    (hlive : S.live w scope) :
    S.Matches S.fatal w (S.Comes loop fun _ _ => False)
      (Step.op ev fuel code n scope o w) (Step.op ev' fuel' code' n scope o w') := by
  cases o with
  | leave =>
    refine .step_bind hS (hev.role? hS (h.child .value nofun) hrel hlive) ?_
    intro x v v' _ hrel hx
    refine .ok hS hrel ⟨rfl, ?_⟩
    cases x with
    | none => trivial
    | some x => exact hx x rfl
  | raise =>
    refine .step_bind hS (h.role_of hS hev (by simp [Op.shape]) nofun hrel hlive) ?_
    intro x v v' _ hrel hx
    exact .raiseValue hS hrel hx
  | breakLoop => exact .ok hS hrel ⟨rfl, h.control (Or.inl rfl)⟩
  | continueLoop => exact .ok hS hrel ⟨rfl, h.control (Or.inr rfl)⟩
  | _ => cases ho

/-- The same operation on corresponding children comes to the same. -/
theorem Follows.operation (hS : S.Lawful) (hev : S.Follows ev ev') {fuel fuel' : Nat}
    (hfuel : S.Fuels fuel fuel') {o : Op} (h : S.Shares code code' loop n o)
    (ho : o.diverges = false) (hrel : S.rel w w') (hlive : S.live w scope) :
    S.Matches S.fatal w (S.Comes loop S.Yields)
      (Step.op ev fuel code n scope o w) (Step.op ev' fuel' code' n scope o w') := by
  have hrole : ∀ {role : Role} {v v' : Machine}, role ∈ o.shape.required → role ≠ .body →
      S.step w v → S.rel v v' → S.Matches S.fatal v (S.Comes loop S.Yields)
        (Step.role ev code n role scope v) (Step.role ev' code' n role scope v') :=
    fun hr hb hv hrel => h.role_of hS hev hr hb hrel (hS.live_step hv hlive)
  have hrole? : ∀ {role : Role} {v v' : Machine}, role ≠ .body → S.step w v → S.rel v v' →
      S.Matches S.fatal v (S.Comes loop fun x u => ∀ y, x = some y → S.Fine u y)
        (Step.role? ev code n role scope v) (Step.role? ev' code' n role scope v') :=
    fun hb hv hrel => hev.role? hS (h.child _ hb) hrel (hS.live_step hv hlive)
  have hfamily : ∀ {role : Role} {v v' : Machine}, o ≠ .block → o.shape.indexed = some role →
      S.step w v → S.rel v v' →
      S.Matches S.fatal v (S.Comes loop fun xs u => ∀ x ∈ xs, S.Fine u x)
        (Step.family ev code n role scope v) (Step.family ev' code' n role scope v') :=
    fun hb hr hv hrel => h.family_of hS hev hb hr hrel (hS.live_step hv hlive)
  have hstart := hS.step_refl w
  cases o with
  | literal l => exact .ok hS hrel (Literal.holds_toValue l)
  | list =>
    refine .step_bind hS (hfamily nofun rfl hstart hrel) fun xs v v' _ hrel hxs => ?_
    exact .lift (.alloc hS hrel (Container.holds_ofElements hxs))
  | map keys =>
    refine .step_bind hS (hfamily nofun rfl hstart hrel) fun xs v v' _ hrel hxs => ?_
    have hentries : ∀ x ∈ keys.zip xs, S.Fine v x.2 := fun x hx => hxs x.2 (List.of_mem_zip hx).2
    refine .step_bind hS (.literalKeys hS hentries hrel) fun es u u' _ hrel hes => ?_
    exact .lift (.alloc hS hrel (Container.holds_ofEntries hes))
  | var name =>
    rw [show Step.op ev fuel code n scope (.var name) =
        Step.session >>= fun st => Step.ofBinding (st.scopes.get scope name) from rfl,
      show Step.op ev' fuel' code' n scope (.var name) =
        Step.session >>= fun st => Step.ofBinding (st.scopes.get scope name) from rfl,
      Step.run_bind, Step.run_bind, Step.run_session, Step.run_session]
    obtain ⟨hsame, hok, herror⟩ := hS.get name hrel hlive
    dsimp only
    rw [hsame]
    exact .ofBinding hS hrel hok herror
  | define name mutable =>
    refine .step_bind hS (hrole (by simp [Op.shape]) nofun hstart hrel) fun x v v' hv hrel hx => ?_
    exact .define hS hrel (hS.live_step hv hlive) name hx mutable
  | assign name =>
    refine .step_bind hS (hrole (by simp [Op.shape]) nofun hstart hrel) fun x v v' hv hrel hx => ?_
    exact .assign hS hrel (hS.live_step hv hlive) name hx
  | binary op =>
    refine .step_bind hS (hrole (by simp [Op.shape]) nofun hstart hrel) fun x v v' hv hrel _ => ?_
    refine .step_bind hS (hrole (by simp [Op.shape]) nofun hv hrel) fun y u u' _ hrel _ => ?_
    exact .binary hS hrel op x y
  | unary op =>
    refine .step_bind hS (hrole (by simp [Op.shape]) nofun hstart hrel) fun x v v' _ hrel _ => ?_
    exact .step_store hS hrel (.ofFault hS hrel fun y hy => Operators.holds_unary hy)
  | logical op =>
    refine .logical hS op ?_ ?_ hrel
    · exact fun v v' hv hrel => hrole (by simp [Op.shape]) nofun hv hrel
    · exact fun v v' hv hrel => hrole (by simp [Op.shape]) nofun hv hrel
  | call =>
    refine .step_bind hS (hrole (by simp [Op.shape]) nofun hstart hrel) fun f v v' hv hrel hf => ?_
    refine .step_bind hS (hfamily nofun rfl hv hrel) fun xs u u' hu hrel hxs => ?_
    exact hev.stepCall hS hrel (hS.fine_step hu hf) hxs
  | function f => exact .closure hS (h.makes f rfl) hrel hlive
  | branch =>
    refine .step_bind hS (hrole (by simp [Op.shape]) nofun hstart hrel) fun c v v' hv hrel _ => ?_
    refine .step_store hS hrel ?_
    by_cases htrue : v.store.isTruthy c = true
    · rw [if_pos htrue, if_pos htrue]
      exact hrole (by simp [Op.shape]) nofun hv hrel
    · rw [if_neg htrue, if_neg htrue]
      refine .step_bind hS (hrole? nofun hv hrel) fun x u u' _ hrel hx => ?_
      refine .ok hS hrel ?_
      cases x with
      | none => trivial
      | some x => exact hx x rfl
  | loop =>
    have hinner := h.body
    simp only [Op.isLoop, or_true] at hinner
    refine .child hS hrel hinner (h.required .body (by simp [Op.shape])) fun c c' hc => ?_
    refine .whileLoop hS hfuel ?_ ?_ hrel
    · exact fun v v' hv hrel => hrole (by simp [Op.shape]) nofun hv hrel
    · exact fun v v' hv hrel => hev.node hc hrel (hS.live_step hv hlive)
  | each name =>
    have hinner := h.body
    simp only [Op.isLoop, or_true] at hinner
    refine .step_bind hS (hrole (by simp [Op.shape]) nofun hstart hrel) fun x v v' hv hrel _ => ?_
    refine .child hS hrel hinner (h.required .body (by simp [Op.shape])) fun c c' hc => ?_
    refine .step_bind hS (.items hS hrel x) fun items u u' hu hrel hitems => ?_
    refine .eachLoop hS hfuel ?_ hitems hrel (hS.live_step (hS.step_trans hv hu) hlive)
    exact fun inner t t' hrel hlive => hev.node hc hrel hlive
  | guarded catchName =>
    have hbody := h.body
    simp only [Op.isLoop, Bool.false_eq_true, or_false] at hbody
    exact hev.guarded hS hbody (h.required .body (by simp [Op.shape])) (h.child .handler nofun)
      (h.child .finalizer nofun) catchName hrel hlive
  | block => exact hev.block hS (h.statements rfl) hrel hlive
  | index =>
    refine .step_bind hS (hrole (by simp [Op.shape]) nofun hstart hrel) fun x v v' hv hrel _ => ?_
    refine .step_bind hS (hrole (by simp [Op.shape]) nofun hv hrel) fun y u u' _ hrel _ => ?_
    refine .step_store hS hrel (.ofFault hS hrel fun z hz => ?_)
    exact Operators.holds_index (hS.store hrel) hz
  | setIndex =>
    refine .step_bind hS (hrole (by simp [Op.shape]) nofun hstart hrel) fun x v v' hv hrel _ => ?_
    refine .step_bind hS (hrole (by simp [Op.shape]) nofun hv hrel) fun y u u' hu hrel _ => ?_
    have hu := hS.step_trans hv hu
    refine .step_bind hS (hrole (by simp [Op.shape]) nofun hu hrel) fun z t t' _ hrel hz => ?_
    exact hev.setIndex hS hrel x y hz
  | append =>
    refine .step_bind hS (hrole (by simp [Op.shape]) nofun hstart hrel) fun x v v' hv hrel _ => ?_
    refine .step_bind hS (hrole (by simp [Op.shape]) nofun hv hrel) fun y u u' hu hrel hy => ?_
    refine .step_bind hS (.container hS hrel x) fun g t t' ht hrel _ => ?_
    refine .step_discard hS (hev.change hS hrel g (fine_incoming rfl (hS.fine_step ht hy))) ?_
    intro r r' _ hrel
    exact .ok hS hrel trivial
  | removeAt =>
    refine .step_bind hS (hrole (by simp [Op.shape]) nofun hstart hrel) fun x v v' hv hrel _ => ?_
    refine .step_bind hS (hrole (by simp [Op.shape]) nofun hv hrel) fun y u u' _ hrel _ => ?_
    exact hev.removeAt hS hrel x y
  | addRule spec =>
    refine .step_bind hS (hrole (by simp [Op.shape]) nofun hstart hrel) fun x v v' hv hrel hx => ?_
    refine .step_bind hS (hfamily nofun rfl hv hrel) fun xs u u' hu hrel hxs => ?_
    exact hev.addRule hS hrel (hS.fine_step hu hx) spec hxs
  | defineRuleset name specs =>
    refine .step_bind hS (hfamily nofun rfl hstart hrel) fun xs v v' _ hrel hxs => ?_
    exact .defineRuleset hS hrel name specs hxs
  | applyRuleset name =>
    refine .step_bind hS (hrole (by simp [Op.shape]) nofun hstart hrel) fun x v v' _ hrel hx => ?_
    exact hev.applyRuleset hS hrel hx name
  | freeze =>
    refine .step_bind hS (hrole (by simp [Op.shape]) nofun hstart hrel) fun x v v' hv hrel hx => ?_
    refine .step_bind hS (.container hS hrel x) fun g u u' hu hrel _ => ?_
    refine .step_bind hS (.governed hS (freeze hS hrel g)) fun _ t t' ht hrel _ => ?_
    exact .ok hS hrel (hS.fine_step (hS.step_trans hu ht) hx)
  | newGraph kind => exact .lift (.alloc hS hrel (Container.holds_new _))
  | addMember linkName =>
    refine .step_bind hS (hrole (by simp [Op.shape]) nofun hstart hrel) fun x v v' hv hrel _ => ?_
    refine .step_bind hS (hrole (by simp [Op.shape]) nofun hv hrel) fun y u u' hu hrel hy => ?_
    have hu' := hS.step_trans hv hu
    refine .step_bind hS (hrole? nofun hu' hrel) fun z t t' ht hrel _ => ?_
    exact hev.addMember hS hrel x (hS.fine_step ht hy) z linkName
  | link name =>
    refine .step_bind hS (hrole (by simp [Op.shape]) nofun hstart hrel) fun x v v' hv hrel _ => ?_
    refine .step_bind hS (hrole (by simp [Op.shape]) nofun hv hrel) fun y u u' hu hrel _ => ?_
    have hu := hS.step_trans hv hu
    refine .step_bind hS (hrole (by simp [Op.shape]) nofun hu hrel) fun z t t' ht hrel _ => ?_
    have ht := hS.step_trans hu ht
    refine .step_bind hS (hrole? nofun ht hrel) fun d r r' _ hrel hd => ?_
    exact hev.link hS hrel x y z name hd
  | leave => cases ho
  | raise => cases ho
  | breakLoop => cases ho
  | continueLoop => cases ho

theorem Matches.record (hS : S.Lawful) (hrel : S.rel w w') (hunit : code'.unit = code.unit) (o : Op)
    {s : Signal} {good : Signal → Machine → Prop} (hgood : S.Stable good) (hs : good s w) :
    S.Matches S.fatal w good ((Eval.record code n o s >>= fun _ => pure s) w)
      ((Eval.record code' n o s >>= fun _ => pure s) w') := by
  obtain ⟨hrel', hstep⟩ := hS.recorded n o s hunit hrel
  refine .seq hS (Eval.run_record ..) (Eval.run_record ..) hstep ?_
  exact .ok hS hrel' (hgood (hS.callee_step hstep) s hs)

/-- Two nodes with the same operation come to the same signal if their steps do. -/
theorem Matches.evalNode (hS : S.Lawful) {fuel fuel' : Nat} {o : Op}
    (ho : code.program.op? n = some o) (ho' : code'.program.op? n = some o)
    (hunit : code'.unit = code.unit) {falls : Prop} (hrel : S.rel w w')
    (hop : ∀ v v', S.step w v → S.rel v v' →
      S.Matches S.fatal v (S.Comes loop fun x u => falls ∧ S.Fine u x)
        (Step.op ev fuel code n scope o v) (Step.op ev' fuel' code' n scope o v')) :
    S.Matches S.fatal w (S.Gives loop falls) (Eval.node ev fuel code n scope w)
      (Eval.node ev' fuel' code' n scope w') := by
  unfold Eval.node
  rw [ho, ho', hunit]
  refine .report_bind hS hrel fun v v' hv hrel => ?_
  have hop := hop v v' hv hrel
  refine .bind hS (m := S.Gives loop falls) ?_ fun s u u' _ hrel hs => ?_
  · refine .bind hS hop fun r u u' _ hrel hr => ?_
    cases r with
    | ok x => exact .ok hS hrel ⟨hr.2, fun _ => hr.1⟩
    | error s => exact .ok hS hrel ⟨hr.2, fun hs => by rw [hr.1] at hs; cases hs⟩
  · exact .record hS hrel hunit o (S.stable_gives loop falls) hs

/-- Two nodes with the same operation and corresponding children come to the same signal. -/
theorem Follows.evalNode (hS : S.Lawful) (hev : S.Follows ev ev') {fuel fuel' : Nat}
    (hfuel : S.Fuels fuel fuel') {o : Op} (ho : code.program.op? n = some o)
    (ho' : code'.program.op? n = some o) (h : S.Shares code code' loop n o) {falls : Prop}
    (hfalls : o.diverges = false → falls) (hrel : S.rel w w') (hlive : S.live w scope) :
    S.Matches S.fatal w (S.Gives loop falls) (Eval.node ev fuel code n scope w)
      (Eval.node ev' fuel' code' n scope w') := by
  refine .evalNode hS ho ho' h.unit hrel fun v v' hv hrel => ?_
  have hlive := hS.live_step hv hlive
  by_cases hdiverges : o.diverges = true
  · refine (hev.diverging hS h hdiverges hrel hlive).weaken ?_
    rintro (s | x) u - hx
    · exact hx
    · exact hx.elim
  · have hdiverges : o.diverges = false := by simpa using hdiverges
    refine (hev.operation hS hfuel h hdiverges hrel hlive).weaken ?_
    rintro (s | x) u - hx
    · exact hx
    · exact ⟨hfalls hdiverges, hx⟩

end Simulation

end GraphLang
