import GraphLang.Proofs.Simulation.Step

/-!
# Calls side by side

Natives, bodies and functions, and the callbacks that rules make.
-/

namespace GraphLang

namespace Simulation

variable {S : Simulation} {w w' : Machine} {α β ε : Type} {F : Failure ε}

/-! ### Natives -/

/-- What a native gives or raises may be used. -/
def NativeFine (S : Simulation) (r : Except Value Value) (v : Machine) : Prop :=
  (∀ x, r = .ok x → S.Fine v x) ∧ ∀ x, r = .error x → S.Fine v x

theorem nativeFine_ok {x : Value} (hx : S.Fine w x) : S.NativeFine (.ok x) w := by
  refine ⟨?_, ?_⟩
  · rintro y ⟨⟩
    exact hx
  · rintro y ⟨⟩

theorem Matches.nativeFault (hS : S.Lawful) (hrel : S.rel w w') (f : Fault) :
    S.Matches F w S.NativeFine (Act.nativeFault f w) (Act.nativeFault f w') := by
  refine .bind hS (.faultException hS hrel f) fun x v v' _ hrel hx => ?_
  refine .ok hS hrel ⟨?_, ?_⟩
  · rintro y ⟨⟩
  · rintro y ⟨⟩
    exact hx

theorem Matches.nativeAlloc (hS : S.Lawful) (hrel : S.rel w w') {c : Container}
    (hc : c.Holds (S.callee w)) :
    S.Matches F w S.NativeFine ((do return Except.ok (← Act.alloc c)) w)
      ((do return Except.ok (← Act.alloc c)) w') := by
  refine .bind hS (.alloc hS hrel hc) fun x v v' _ hrel hx => ?_
  exact .ok hS hrel (nativeFine_ok hx)

/-- Keys and numbers may be used in any world. -/
theorem holds_upTo {P : Value → Prop} (n : Int64) : ∀ v ∈ Native.upTo n, v.Holds P := by
  intro v hv
  obtain ⟨i, -, rfl⟩ := List.mem_map.1 hv
  trivial

theorem holds_keys {P : Value → Prop} (c : Container) : ∀ v ∈ c.keys.map Key.toValue, v.Holds P := by
  intro v hv
  obtain ⟨k, -, rfl⟩ := List.mem_map.1 hv
  exact Key.holds_toValue k

theorem fine_headD {args : List Value} (hargs : ∀ x ∈ args, S.Fine w x) :
    S.Fine w (args.headD .nil) := by
  cases args with
  | nil => trivial
  | cons a args => exact hargs a List.mem_cons_self

theorem native (hS : S.Lawful) (hrel : S.rel w w') {n : Native} {args : List Value}
    (hn : S.callee w (.native n)) (hargs : ∀ x ∈ args, S.Fine w x) :
    S.Matches F w S.NativeFine (n.call args w) (n.call args w') := by
  refine .store_bind hS hrel ?_
  have hvalue : ∀ x : Value, (∀ P, x.Holds P) →
      S.Matches F w S.NativeFine ((pure (.ok x) : Act Session ε (Except Value Value)) w)
        ((pure (.ok x) : Act Session ε (Except Value Value)) w') :=
    fun x hx => .ok hS hrel (nativeFine_ok (hx _))
  dsimp only
  generalize args.headD .nil = first
  cases n with
  | print =>
    refine .report_bind hS hrel fun v v' _ hrel => ?_
    obtain ⟨hrel', hstep⟩ := hS.printed (" ".intercalate (args.map w.store.display)) hrel
    refine .seq hS rfl rfl hstep ?_
    exact .ok hS hrel' (nativeFine_ok trivial)
  | len =>
    cases first with
    | graph g => exact hvalue _ fun _ => trivial
    | str t => exact hvalue _ fun _ => trivial
    | _ => exact .nativeFault hS hrel _
  | str => exact hvalue _ fun _ => trivial
  | typeOf => exact hvalue _ fun _ => trivial
  | range =>
    cases first with
    | int n => exact .nativeAlloc hS hrel (Container.holds_ofElements (holds_upTo n))
    | _ => exact .nativeFault hS hrel _
  | keys =>
    cases first with
    | graph g =>
      dsimp only
      cases (w.store.get g).kind with
      | map => exact .nativeAlloc hS hrel (Container.holds_ofElements (holds_keys _))
      | _ => exact .nativeFault hS hrel _
    | _ => exact .nativeFault hS hrel _
  | exception =>
    cases first with
    | str kind =>
      refine .bind hS (.newException hS hrel _ _ [] ?_) fun x v v' _ hrel hx => ?_
      · exact fine_headD fun x hx => hargs x (List.mem_of_mem_drop hx)
      · exact .ok hS hrel (nativeFine_ok hx)
    | _ => exact .nativeFault hS hrel _
  | isFrozen =>
    cases first with
    | graph g => exact hvalue _ fun _ => trivial
    | _ => exact hvalue _ fun _ => trivial
  | host name arity =>
    obtain ⟨hstore, hok, herror⟩ := hS.host hrel hn hargs
    refine .seq hS rfl rfl (hS.step_refl w) ?_
    change S.Matches F w S.NativeFine
      ((Act.setStore (w.natives name args w.store).2 >>= fun _ =>
        pure (w.natives name args w.store).1) w)
      ((Act.setStore (w'.natives name args w.store).2 >>= fun _ =>
        pure (w'.natives name args w.store).1) w')
    rw [(hS.agree hrel).natives]
    refine .setStore_bind hS hrel rfl rfl hstore fun v v' hv hrel => ?_
    refine .ok hS hrel ⟨fun x hx => ?_, fun x hx => ?_⟩
    · exact hS.fine_step hv (hok x hx)
    · exact hS.fine_step hv (herror x hx)

/-! ### Bodies and functions -/

variable {ev ev' : Evaluator} {code code' : Code} {scope : ScopeId} {loop : Prop}

/-- Statements that correspond one by one, perhaps up to one that never goes on. -/
inductive Runs (S : Simulation) (code code' : Code) (loop : Prop) :
    List (Role × Nat) → List (Role × Nat) → Prop
  | nil : Runs S code code' loop [] []
  | cons {c c' cs cs'} : S.nodes code code' loop True c.2 c'.2 → Runs S code code' loop cs cs' →
    Runs S code code' loop (c :: cs) (c' :: cs')
  | cut {c c' cs cs'} : S.nodes code code' loop False c.2 c'.2 →
    Runs S code code' loop (c :: cs) (c' :: cs')

theorem Follows.statements (hS : S.Lawful) (hev : S.Follows ev ev') {cs cs' : List (Role × Nat)}
    (hcs : S.Runs code code' loop cs cs') (hrel : S.rel w w') (hlive : S.live w scope) :
    S.Matches S.fatal w (S.Gives loop True) (Eval.statements ev code scope cs w)
      (Eval.statements ev' code' scope cs' w') := by
  induction hcs generalizing w w' with
  | nil => exact .ok hS hrel ⟨trivial, fun _ => trivial⟩
  | cons hc _ ih =>
    refine .bind hS (hev.node hc hrel hlive) fun s v v' hv hrel hs => ?_
    cases s with
    | normal x => exact ih hrel (hS.live_step hv hlive)
    | _ => exact .ok hS hrel hs
  | cut hc =>
    refine .bind hS (hev.node hc hrel hlive) fun s v v' hv hrel hs => ?_
    cases s with
    | normal x => exact (hs.2 rfl).elim
    | _ => exact .ok hS hrel ⟨hs.1, fun _ => trivial⟩

theorem isBlock_iff {root : Nat} :
    Eval.isBlock code root = true ↔ code.program.op? root = some .block := by
  unfold Eval.isBlock
  split <;> simp_all

/-- Roots of corresponding bodies: two blocks with corresponding statements, or two other nodes
that correspond. -/
structure Roots (S : Simulation) (code code' : Code) (root root' : Nat) : Prop where
  block : Eval.isBlock code' root' = Eval.isBlock code root
  statements : Eval.isBlock code root = true →
    S.Runs code code' S.loose (code.program.indexed root (.statement 0))
      (code'.program.indexed root' (.statement 0))
  node : Eval.isBlock code root = false → S.nodes code code' S.loose True root root'

theorem Follows.runBody (hS : S.Lawful) (hev : S.Follows ev ev') {root root' : Nat}
    (hroot : S.Roots code code' root root') (hrel : S.rel w w') (hlive : S.live w scope) :
    S.Matches S.fatal w (S.Gives S.loose True) (Eval.body ev code root scope w)
      (Eval.body ev' code' root' scope w') := by
  unfold Eval.body
  rw [hroot.block]
  by_cases hblock : Eval.isBlock code root = true
  · rw [if_pos hblock, if_pos hblock]
    exact hev.statements hS (hroot.statements hblock) hrel hlive
  · rw [if_neg hblock, if_neg hblock]
    exact hev.node (hroot.node (by simpa using hblock)) hrel hlive

theorem Matches.leaveFunction (hS : S.Lawful) (hrel : S.rel w w') (site : CallSite)
    (name : String) {s : Signal} (hs : S.Gives S.loose True s w) :
    S.Matches S.fatal w S.Answers (Eval.leaveFunction site name s w)
      (Eval.leaveFunction site name s w') := by
  cases s with
  | normal x => exact .ok hS hrel hs.1
  | returning x => exact .ok hS hrel hs.1
  | raised r =>
    refine .ok hS hrel ?_
    change S.Fine w (r.leave site).exception
    unfold Raised.leave
    split <;> exact hs.1
  | breaking => exact .error hS ⟨Or.inl hs.1, hrel⟩
  | continuing => exact .error hS ⟨Or.inl hs.1, hrel⟩

/-- Both evaluators look up the unit of a function, the function and its body. -/
theorem Matches.lookup (hS : S.Lawful) (hrel : S.rel w w') {f : FunctionValue}
    (hfinds : S.Finds w w' f) {k k' : LoadedUnit → Eval α} {good : α → Machine → Prop}
    (hk : ∀ loaded loaded', S.Same ⟨f.unit, loaded.program⟩ ⟨f.unit, loaded'.program⟩ f.function →
      S.Matches S.fatal w good (k loaded w) (k' loaded' w')) :
    S.Matches S.fatal w good ((Eval.unit f.unit >>= k) w) ((Eval.unit f.unit >>= k') w') := by
  rw [Act.run_bind, Act.run_bind, Eval.run_unit, Eval.run_unit]
  unfold Finds at hfinds
  revert hfinds
  cases w.control.units[f.unit]? with
  | none =>
    cases w'.control.units[f.unit]? with
    | none => exact fun hloose => .error hS ⟨Or.inl hloose, hrel⟩
    | some loaded' => exact fun hfalse => hfalse.elim
  | some loaded =>
    cases w'.control.units[f.unit]? with
    | none => exact fun hfalse => hfalse.elim
    | some loaded' => exact fun hsame => hk loaded loaded' hsame

/-- A call opens a scope and a frame, and leaves both however the body ends. -/
theorem Follows.inCall (hS : S.Lawful) (hev : S.Follows ev ev') (hrel : S.rel w w')
    (hroom : w.control.frames.length < w.control.config.maxCallDepth) {parent : ScopeId}
    (hlive : S.live w parent) {locals : List (String × Value)}
    (hlocals : ∀ x ∈ locals, S.Fine w x.2) {root root' : Nat}
    (hbody : S.bodies code code' root root') (name : String) (site : Nat → CallSite) :
    S.Matches S.fatal w S.Answers
      (Eval.inScope parent .function locals (fun scope => do
        let site := site (← Eval.session).nextFrame
        let signal ← Eval.inFrame site do
          let frames := (← Eval.session).frames
          Eval.report .debug "call" fun _ =>
            [("function", name), ("depth", toString frames.length)]
          ev.body code root scope
        Eval.leaveFunction site name signal) w)
      (Eval.inScope parent .function locals (fun scope => do
        let site := site (← Eval.session).nextFrame
        let signal ← Eval.inFrame site do
          let frames := (← Eval.session).frames
          Eval.report .debug "call" fun _ =>
            [("function", name), ("depth", toString frames.length)]
          ev'.body code' root' scope
        Eval.leaveFunction site name signal) w') := by
  refine .inScope hS hrel hlive .function hlocals S.stable_answers ?_
  intro scope v v' hrel hlive hframes hconfig
  refine .seq hS rfl rfl (hS.step_refl v) ?_
  dsimp only
  rw [(hS.agree hrel).nextFrame]
  have hroom' : v.control.frames.length < v.control.config.maxCallDepth := by
    rwa [hframes, hconfig]
  have hframing := hS.frame (site v.control.nextFrame) hrel hroom'
  refine .bind hS (.inFrame hframing (S.stable_gives S.loose True) ?_) ?_
  · refine .seq hS rfl rfl (hS.step_refl _) ?_
    rw [(hS.agree hframing.rel).frames]
    refine .report_bind hS hframing.rel fun u u' hu hrel => ?_
    exact hev.body hbody hrel (hS.live_step hu (hframing.live hlive))
  · intro s u u' _ hrel hs
    exact .leaveFunction hS hrel _ name hs

theorem Matches.raised {ε : Type} {F : Failure ε} (hS : S.Lawful) (hrel : S.rel w w') {x : Value}
    (hx : S.Fine w x) :
    S.Matches F w S.Answers ((pure (.raised (.new x)) : Act Session ε Signal) w)
      ((pure (.raised (.new x)) : Act Session ε Signal) w') :=
  .ok hS hrel hx

theorem Follows.callFunction (hS : S.Lawful) (hev : S.Follows ev ev') (hrel : S.rel w w')
    {f : FunctionValue} {args : List Value} (hf : S.callee w (.function f))
    (hargs : ∀ x ∈ args, S.Fine w x) (callNode : Option Nat) :
    S.Matches S.fatal w S.Answers (Eval.callFunction ev f args callNode w)
      (Eval.callFunction ev' f args callNode w') := by
  refine .seq hS rfl rfl (hS.step_refl w) ?_
  have hagree := hS.agree hrel
  rw [hagree.maxCallDepth, hagree.frames]
  by_cases hlimit : w.control.config.maxCallDepth ≤ w.control.frames.length
  · rw [if_pos hlimit, if_pos hlimit]
    refine .report_bind hS hrel fun v v' _ hrel => ?_
    exact .error hS ⟨Or.inr ⟨_, _, rfl⟩, hrel⟩
  rw [if_neg hlimit, if_neg hlimit]
  refine .lookup hS hrel (hS.finds hrel hf) fun loaded loaded' hsame => ?_
  dsimp only
  unfold Same at hsame
  revert hsame
  cases loaded.program.function? f.function with
  | none =>
    cases loaded'.program.function? f.function with
    | none => exact fun hloose => .error hS ⟨Or.inl hloose, hrel⟩
    | some d' => exact fun hfalse => hfalse.elim
  | some d =>
    cases loaded'.program.function? f.function with
    | none => exact fun hfalse => hfalse.elim
    | some d' =>
      rintro ⟨hname, hparams, hbody⟩
      have harity : d'.arity = d.arity := congrArg List.length hparams
      dsimp only
      rw [harity, hname, hparams]
      by_cases hcount : (d.arity != args.length) = true
      · rw [if_pos hcount, if_pos hcount]
        refine .bind hS (.faultException hS hrel _) fun x v v' _ hrel hx => ?_
        exact .raised hS hrel hx
      rw [if_neg hcount, if_neg hcount]
      revert hbody
      cases d.body with
      | none =>
        cases d'.body with
        | none => exact fun hloose => .error hS ⟨Or.inl hloose, hrel⟩
        | some root' => exact fun hfalse => hfalse.elim
      | some root =>
        cases d'.body with
        | none => exact fun hfalse => hfalse.elim
        | some root' =>
          intro hbody
          obtain ⟨hscope, hlive, hloose⟩ := hS.closureScope hrel hf
          refine .seq hS rfl rfl (hS.step_refl w) ?_
          rw [hscope]
          cases hdefining : w.control.scopes.closureScope f.closure with
          | error e => exact .error hS ⟨Or.inl (hloose e hdefining), hrel⟩
          | ok parent =>
            have hlocals : ∀ x ∈ d.params.zip args, S.Fine w x.2 :=
              fun x hx => hargs x.2 (List.of_mem_zip hx).2
            exact hev.inCall hS hrel (Nat.lt_of_not_le hlimit) (hlive parent hdefining) hlocals
              hbody d.name fun frame => ⟨d.name, f.unit, f.function, callNode, frame⟩

/-! ### Calls of values -/

theorem Matches.toException (hS : S.Lawful) (hrel : S.rel w w') {x : Value} (hx : S.Fine w x) :
    S.Matches S.fatal w S.Yields (Step.toException x w) (Step.toException x w') := by
  cases x with
  | exception => exact .ok hS hrel hx
  | _ => exact .store_bind hS hrel (.newException hS hrel _ _ [] hx)

theorem Follows.callNative (hS : S.Lawful) (hrel : S.rel w w') {n : Native} {args : List Value}
    (hn : S.callee w (.native n)) (hargs : ∀ x ∈ args, S.Fine w x) :
    S.Matches S.fatal w S.Answers
      ((do
        Eval.report .debug "native call" fun _ => [("native", Text.quoted n.name)]
        match ← n.call args with
        | .ok v => return Signal.normal v
        | .error v => return Signal.raised (.new (← Step.toException v)) : Eval Signal) w)
      ((do
        Eval.report .debug "native call" fun _ => [("native", Text.quoted n.name)]
        match ← n.call args with
        | .ok v => return Signal.normal v
        | .error v => return Signal.raised (.new (← Step.toException v)) : Eval Signal) w') := by
  refine .report_bind hS hrel fun v v' hv hrel => ?_
  refine .bind hS (native hS hrel (hS.callee_step hv _ hn) (hS.all_fine_step hv hargs)) ?_
  intro r u u' _ hrel hr
  cases r with
  | ok x => exact .ok hS hrel (hr.1 x rfl)
  | error x =>
    refine .bind hS (.toException hS hrel (hr.2 x rfl)) fun y t t' _ hrel hy => ?_
    exact .raised hS hrel hy

theorem Follows.callValue (hS : S.Lawful) (hev : S.Follows ev ev') (hrel : S.rel w w')
    {callee : Value} {args : List Value} (hcallee : S.Fine w callee)
    (hargs : ∀ x ∈ args, S.Fine w x) (callNode : Option Nat) :
    S.Matches S.fatal w S.Answers (Eval.call ev callee args callNode w)
      (Eval.call ev' callee args callNode w') := by
  cases callee with
  | function f => exact hev.call callNode hrel hcallee hargs
  | native n =>
    unfold Eval.call
    dsimp only
    cases n.arity with
    | none => exact callNative hS hrel hcallee hargs
    | some arity =>
      dsimp only
      by_cases hcount : (arity != args.length) = true
      · rw [if_pos hcount]
        refine .bind hS (.faultException hS hrel _) fun x v v' _ hrel hx => ?_
        exact .raised hS hrel hx
      · rw [if_neg hcount]
        exact callNative hS hrel hcallee hargs
  | _ =>
    refine .store_bind hS hrel ?_
    refine .bind hS (.faultException hS hrel _) fun x v v' _ hrel hx => ?_
    exact .raised hS hrel hx

theorem withFatal_withFatal {e : EvalError} (h : w.control.pendingFatal = none) :
    (w.withFatal (some e)).withFatal none = w := by
  obtain ⟨_, _, _, _, _, control⟩ := w
  obtain ⟨_, _, _, _, _, _, _, _, pending⟩ := control
  cases h
  rfl

/-- An error that ends a callback is kept aside until the rules are left. -/
theorem Follows.invokes (hS : S.Lawful) (hev : S.Follows ev ev') :
    S.Invokes (Eval.callback ev) (Eval.callback ev') := by
  intro callee args w w' hrel hcallee hargs
  refine .attempt_bind hS (hev.callValue hS hrel hcallee hargs none) ?_ ?_ ?_
  · intro s v v' _ hrel hs
    cases s with
    | normal x => exact .ok hS hrel hs
    | raised r => exact .error hS ⟨hrel, hs⟩
    | _ => exact hs.elim
  · rintro e v v' _ ⟨he, hrel⟩
    have hagree := hS.agree hrel
    have hkept : S.Kept (v.withFatal (some e)) (v'.withFatal (some e)) := by
      refine ⟨e, he, rfl, rfl, ?_⟩
      rwa [withFatal_withFatal hagree.settled, withFatal_withFatal hagree.settled']
    refine .of_some (hS.step_withFatal _ (hS.step_refl v)) ?_
    change S.Outcome S.interrupted _ _ _ (some (.error (.fatal (e.message v'.store)), _))
    rw [hagree.store]
    exact .error hkept
  · intro e v y _ hescape
    refine .of_some (hS.step_withFatal _ (hS.step_refl v)) (.lost ⟨_, rfl, e, rfl, ?_⟩)
    change S.escape e ((v.withFatal (some e)).withFatal none)
    rwa [withFatal_withFatal (hS.escape_settled hescape)]

end Simulation

end GraphLang
