import GraphLang.Proofs.Rule.Retyping

/-!
# Members of one type

A validation of types sees a value before it is transformed, and a transform that is attached goes
through members that were validated before. So the members keep one type as long as the transforms
do not make values of different types of values of one type; where they do, the validation does not
notice.
-/

namespace GraphLang

open Container (Held Applied)

variable {σ ε : Type}

/-! ### Values of models -/

namespace Model

variable {model model' : Model} {m : Mutation} {a : Applied} {value : Value}

/-- The values of the members less the one that a change puts another value in the place of. -/
def others : Model → Mutation → List Value
  | .list values, .set index _ => values.eraseIdx index
  | .map entries, .put key _ => (entries.filter (·.1 ≠ key)).map (·.2)
  | model, _ => model.values

theorem others_subset (model : Model) (m : Mutation) : model.others m ⊆ model.values := by
  unfold others
  split
  · exact List.eraseIdx_subset
  · exact List.map_subset _ (List.filter_subset_self _)
  · exact List.Subset.refl _

/-- A value that is put under a key is the only one there. -/
theorem snd_of_mem_put {entries : List (Key × Value)} {key : Key} {entry : Key × Value}
    (h : entry ∈ put entries key value) (hkey : entry.1 = key) : entry.2 = value := by
  unfold put at h
  split at h
  · obtain ⟨old, -, rfl⟩ := List.mem_map.1 h
    by_cases hold : old.1 = key
    · rw [if_pos hold]
    · rw [if_neg hold] at hkey
      exact absurd hkey hold
  · rename_i hno
    obtain hold | hnew := List.mem_append.1 h
    · exact absurd (hkey ▸ List.mem_map_of_mem hold) hno
    · rw [List.mem_singleton.1 hnew]

/-- What stands under other keys stands there as before. -/
theorem mem_of_mem_put {entries : List (Key × Value)} {key : Key} {entry : Key × Value}
    (h : entry ∈ put entries key value) (hkey : entry.1 ≠ key) : entry ∈ entries := by
  unfold put at h
  split at h
  · obtain ⟨old, hold, rfl⟩ := List.mem_map.1 h
    by_cases heq : old.1 = key
    · rw [if_pos heq] at hkey
      exact absurd rfl hkey
    · rwa [if_neg heq]
  · obtain hold | hnew := List.mem_append.1 h
    · exact hold
    · rw [List.mem_singleton.1 hnew] at hkey
      exact absurd rfl hkey

/-- After a change, members have the values that they had, and one may have the incoming value. -/
theorem Step.mem_values (h : model.Step m a model') (hvalue : value ∈ model'.values) :
    value ∈ model.others m ∨ m.incomingMember? = some value := by
  cases h with
  | insert values new node =>
    obtain hold | hnew := List.mem_append.1 hvalue
    · exact Or.inl hold
    · exact Or.inr (by rw [List.mem_singleton.1 hnew]; rfl)
  | set values index new hlt =>
    obtain ⟨i, hi⟩ : ∃ i, (values.set index new)[i]? = some value := List.mem_iff_getElem?.1 hvalue
    by_cases heq : index = i
    · rw [← heq, List.getElem?_set_self hlt] at hi
      exact Or.inr hi
    · rw [List.getElem?_set_ne heq] at hi
      exact Or.inl (List.mem_eraseIdx_iff_getElem?.2 ⟨i, Ne.symm heq, hi⟩)
  | removeIndex values index hlt => exact Or.inl (List.eraseIdx_subset hvalue)
  | put entries key new node =>
    obtain ⟨entry, hentry, rfl⟩ := List.mem_map.1 hvalue
    by_cases hkey : entry.1 = key
    · exact Or.inr (by rw [Model.snd_of_mem_put hentry hkey]; rfl)
    · exact Or.inl (List.mem_map_of_mem (List.mem_filter.2 ⟨Model.mem_of_mem_put hentry hkey,
        by simpa using hkey⟩))
  | removeKey entries key old hmem =>
    exact Or.inl (List.map_subset _ (List.filter_subset_self _) hvalue)
  | addMember name members links new handle hfresh =>
    obtain ⟨member, hmember, rfl⟩ := List.mem_map.1 hvalue
    obtain hold | hnew := List.mem_append.1 hmember
    · exact Or.inl (List.mem_map_of_mem hold)
    · exact Or.inr (by rw [List.mem_singleton.1 hnew]; rfl)
  | addLinked name members links new handle parent tag hfresh hparent =>
    obtain ⟨member, hmember, rfl⟩ := List.mem_map.1 hvalue
    obtain hold | hnew := List.mem_append.1 hmember
    · exact Or.inl (List.mem_map_of_mem hold)
    · exact Or.inr (by rw [List.mem_singleton.1 hnew]; rfl)
  | link => exact Or.inl hvalue
  | removeNode name members links handle old hmem =>
    exact Or.inl (List.map_subset _ (List.filter_subset_self _) hvalue)

end Model

namespace Container.Formed

variable {c : Container} {m : Mutation} {a : Applied} {model : Model} {s : Store}

/-- The values of some of the members. -/
theorem values_filter (h : c.Formed) (p : Nat → Bool) :
    (c.members.filter p).filterMap c.value? =
      (c.roster.filter fun x => p x.node).map (·.value) := by
  rw [h.members_eq, List.filter_map, List.filterMap_map, ← List.filterMap_eq_map]
  refine List.filterMap_congr fun x hx => ?_
  rw [Function.comp_apply, h.value?_of_mem (List.mem_filter.1 hx).1]
  rfl

/-- A validation of types looks at the other members. -/
theorem others_subset (h : c.Formed) (hstep : c.model.Step m a model) :
    c.model.others m ⊆
      (c.members.filter fun n => some n != m.replaced? c).filterMap c.value? := by
  have hall (hreplaced : m.replaced? c = none) : c.model.values ⊆
      (c.members.filter fun n => some n != m.replaced? c).filterMap c.value? := by
    rw [hreplaced, List.filter_eq_self.2 (by simp), h.values_model]
    exact List.Subset.refl _
  have hkind := c.kind_model
  generalize hmodel : c.model = before at hstep hall hkind
  rw [h.values_filter] at hall ⊢
  cases hstep with
  | set values index new hlt =>
    have hlist : c.kind = .list := hkind.symm
    rw [h.model_list hlist, Model.list.injEq] at hmodel
    subst hmodel
    rw [List.length_map] at hlt
    have hx := List.getElem?_eq_getElem hlt
    rw [Mutation.replaced?, h.elementNode?_eq hlist, hx]
    change (c.roster.map (·.value)).eraseIdx index ⊆ _
    rw [List.eraseIdx_map, ← filter_node_ne h.nodup_nodes hx]
    exact List.Subset.refl _
  | put entries key new node =>
    have hmap : c.kind = .map := hkind.symm
    rw [model_map hmap, Model.map.injEq] at hmodel
    subst hmodel
    intro value hvalue
    obtain ⟨entry, hentry, rfl⟩ := List.mem_map.1 hvalue
    rw [List.mem_filter, List.mem_filterMap] at hentry
    obtain ⟨⟨y, hy, hlabel⟩, hkey⟩ := hentry
    obtain ⟨hlabel, hval⟩ := Held.entry?_eq_some_iff.1 hlabel
    refine List.mem_map.2 ⟨y, List.mem_filter.2 ⟨hy, ?_⟩, hval⟩
    rw [Mutation.replaced?]
    obtain ⟨x, hx, hlabel', hnode⟩ | ⟨-, hnode⟩ := h.nodeUnder_cases key
    · rw [hnode]
      have hne : y.node ≠ x.node := fun heq => by
        have hsame := (h.node_eq_iff hmap hx hy).1 heq
        rw [hlabel, hlabel', Label.entry.injEq] at hsame
        simp [hsame] at hkey
      simpa using hne
    · rw [hnode]
      rfl
  | _ => exact hall rfl

/-- An incoming value that passes a validation of types has the type of the other members. -/
theorem type_of_check (h : c.Formed) {m' : Mutation} (hstep : c.model.Step m' a model)
    (hreplaced : m'.replaced? c = m.replaced? c) {value : Value}
    (hincoming : m.incomingMember? = some value)
    (hcheck : Validation.homogeneous.check s c m = .ok ())
    (hsame : ∀ x ∈ c.memberValues, ∀ y ∈ c.memberValues, s.typeOf x = s.typeOf y) :
    ∀ old ∈ c.model.others m', s.typeOf old = s.typeOf value := by
  intro old hold
  have hlisted := h.others_subset hstep hold
  rw [hreplaced] at hlisted
  unfold Validation.check at hcheck
  rw [hincoming] at hcheck
  dsimp only at hcheck
  cases hfirst : ((c.members.filter fun n => some n != m.replaced? c).filterMap c.value?).head? with
  | none =>
    rw [List.head?_eq_none_iff] at hfirst
    rw [hfirst] at hlisted
    cases hlisted
  | some first =>
    rw [hfirst] at hcheck
    dsimp only at hcheck
    have htype : s.typeOf first = s.typeOf value := by
      by_contra hne
      simp [hne] at hcheck
    have hmem {x : Value}
        (hx : x ∈ (c.members.filter fun n => some n != m.replaced? c).filterMap c.value?) :
        x ∈ c.memberValues := by
      obtain ⟨n, hn, hvalue⟩ := List.mem_filterMap.1 hx
      exact List.mem_filterMap.2 ⟨n, (List.mem_filter.1 hn).1, hvalue⟩
    rw [hsame old (hmem hlisted) first (hmem (List.mem_of_head? hfirst)), htype]

end Container.Formed

/-- A validation of types that holds of a container. -/
theorem types_of_checkNow {s : Store} {c : Container}
    (hcheck : Validation.homogeneous.checkNow s c = .ok ()) :
    ∀ x ∈ c.memberValues, ∀ y ∈ c.memberValues, s.typeOf x = s.typeOf y := by
  have hfirst : ∃ type, ∀ x ∈ c.memberValues, s.typeOf x = type := by
    unfold Validation.checkNow at hcheck
    dsimp only at hcheck
    split at hcheck
    · rename_i hnone
      rw [List.map_eq_nil_iff] at hnone
      exact ⟨.nil, by simp [hnone]⟩
    · rename_i first rest hsome
      split at hcheck
      · cases hcheck
      · rename_i hnone
        refine ⟨first, fun x hx => ?_⟩
        have hmem : s.typeOf x ∈ first :: rest := hsome ▸ List.mem_map_of_mem hx
        obtain hhead | htail := List.mem_cons.1 hmem
        · exact hhead
        · simpa using List.find?_eq_none.1 hnone _ htail
  obtain ⟨type, htype⟩ := hfirst
  exact fun x hx y hy => (htype x hx).trans (htype y hy).symm

namespace Engine

variable {invoke : Invoke σ ε} {types : ValueType → Prop} {g : GraphId} {c c' : Container}
  {s t : Store} {u v w : World σ} {m m' : Mutation}

/-! ### The invariant -/

/-- What rules that keep types apart make of the members. -/
structure Uniform (invoke : Invoke σ ε) (types : ValueType → Prop) (s : Store) (c : Container) :
    Prop where
  /-- The rules are such. -/
  steady : ∀ rule ∈ c.rules, rule.Steady invoke types s
  /-- The members name containers that there are, and are of the given types. -/
  known : ∀ value ∈ c.memberValues, s.Knows value ∧ types (s.typeOf value)
  /-- They are of one type, if there is a validation of types. -/
  same : .validate .homogeneous ∈ c.rules →
    ∀ x ∈ c.memberValues, ∀ y ∈ c.memberValues, s.typeOf x = s.typeOf y
  /-- None is `none`, where a rule puts something in its place. -/
  filled : ∀ rule ∈ c.rules, rule.retype s .nil ≠ .nil →
    ∀ value ∈ c.memberValues, s.typeOf value ≠ .nil

/-- Types are the same in a later store. -/
theorem Uniform.later (h : Uniform invoke types s c) (hst : s.KeepsKinds t) :
    Uniform invoke types t c := by
  have htype {value : Value} (hvalue : value ∈ c.memberValues) :
      t.typeOf value = s.typeOf value := hst.typeOf_eq (h.known value hvalue).1
  refine ⟨fun rule hrule => (h.steady rule hrule).later hst, fun value hvalue => ?_,
    fun hrule x hx y hy => ?_, fun rule hrule hfills value hvalue => ?_⟩
  · exact ⟨hst.knows (h.known value hvalue).1, htype hvalue ▸ (h.known value hvalue).2⟩
  · rw [htype hx, htype hy, h.same hrule x hx y hy]
  · rw [(h.steady rule hrule).retype_eq hst] at hfills
    rw [htype hvalue]
    exact h.filled rule hrule hfills value hvalue

/-- Asking and rewriting change containers in callbacks only. -/
theorem Rewritten.led {rules : List Rule} (h : Rewritten invoke g rules u m m' v) :
    u.store.Led invoke v.store := by
  obtain ⟨t, hasked, hrest⟩ := h
  have hled : u.store.Led invoke t.store :=
    .of_traces (.forM rules (traces_consult invoke g m)) hasked
  obtain ⟨-, -, rfl⟩ | ⟨old, new, -, -, hrun⟩ := hrest
  · exact hled
  · exact hled.trans (.of_traces (traces_transformAll invoke _ old) hrun)

/-- Rewriting says nothing about which member a change is about. -/
theorem Rewritten.replaced?_eq {rules : List Rule} (h : Rewritten invoke g rules u m m' v)
    (c : Container) : m'.replaced? c = m.replaced? c := by
  obtain ⟨t, -, ⟨-, rfl, -⟩ | ⟨old, new, -, rfl, -⟩⟩ := h
  · rfl
  · cases m with
    | link source target tag data => cases data <;> rfl
    | _ => rfl

/-- The incoming value of a change that rules have rewritten. -/
theorem Rewritten.incoming {rules : List Rule} (h : Rewritten invoke g rules u m m' v)
    {value : Value} (hvalue : m'.incomingMember? = some value) :
    ∃ old t, m.incomingMember? = some old ∧ u.store.Led invoke t.store ∧
      transformAll invoke (rules.filter (·.transformsIncoming)) old t = some (.ok value, v) := by
  obtain ⟨t, hasked, ⟨hnone, rfl, -⟩ | ⟨old, new, hsome, rfl, hrun⟩⟩ := h
  · cases m' <;> cases hvalue <;> cases hnone
  · have hled : u.store.Led invoke t.store :=
      .of_traces (.forM rules (traces_consult invoke g m)) hasked
    cases m with
    | remove target => cases hvalue
    | link source target tag data => cases data <;> cases hvalue
    | _ =>
      cases hvalue
      cases hsome
      exact ⟨old, t, rfl, hled, hrun⟩

/-- A moment whose rules keep types apart, and whose values are of the given types. -/
def Moment.Steady (invoke : Invoke σ ε) (types : ValueType → Prop) : Moment → Prop
  | .operation before op _ => (∀ rule ∈ op.rules, rule.Steady invoke types before) ∧
    ∀ m value, op = .change m → m.incomingMember? = some value →
      before.Knows value ∧ types (before.typeOf value)
  | .meanwhile before after => before.KeepsKinds after

theorem Moment.Steady.rules {moment : Moment} (h : moment.Steady invoke types) :
    ∀ rule ∈ moment.rules, rule.Steady invoke types moment.before := by
  cases moment with
  | operation before op succeeds => exact h.1
  | meanwhile before after => exact fun rule hrule => nomatch hrule

/-- The type of the value that a change brings in, and that of the members it finds there. -/
theorem Uniform.type_of_incoming (h : Uniform invoke types u.store c) (hkinds : invoke.KeepsKinds)
    (hinvoke : invoke.Spares g) (hc : u.store.graphs[g]? = some c) (hformed : c.Formed)
    {a : Applied} {model : Model} (hstep : c.model.Step m' a model)
    (hrewritten : Rewritten invoke g c.rules u m m' v)
    (hincoming : ∀ value, m.incomingMember? = some value →
      u.store.Knows value ∧ types (u.store.typeOf value)) {value : Value}
    (hvalue : m'.incomingMember? = some value) :
    v.store.Knows value ∧ types (v.store.typeOf value) ∧
    (∀ rule ∈ c.rules, rule.retype u.store .nil ≠ .nil → v.store.typeOf value ≠ .nil) ∧
    (.validate .homogeneous ∈ c.rules →
      ∀ old ∈ c.model.others m', u.store.typeOf old = v.store.typeOf value) := by
  obtain ⟨first, t, hfirst, hled, hrun⟩ := hrewritten.incoming hvalue
  obtain ⟨hknows, htypes⟩ := hincoming first hfirst
  have hbefore := hled.keepsKinds hkinds
  rw [← hbefore.typeOf_eq hknows] at htypes
  obtain ⟨hy, htype, htypes'⟩ := type_of_transformAll hkinds
    (fun rule hrule => h.steady rule (List.mem_filter.1 hrule).1) hbefore (hbefore.knows hknows)
    htypes hrun
  rw [hbefore.typeOf_eq hknows] at htype
  refine ⟨hy, htypes', fun rule hrule hfills => ?_, fun hrule old hold => ?_⟩
  · rw [htype]
    exact Rule.retypeAll_ne_nil
      (List.mem_filter.2 ⟨hrule, Rule.transformsIncoming_of_retype hfills⟩) hfills
  · obtain ⟨s, hled', hcheck⟩ := hrewritten.check hinvoke hc hrule (by simp)
    have hasked := h.later (hled'.keepsKinds hkinds)
    have hmem : old ∈ c.memberValues := hformed.values_model ▸ c.model.others_subset m' hold
    have hpassed : u.store.typeOf old = u.store.typeOf first := by
      have hlater := hled'.keepsKinds hkinds
      rw [← hlater.typeOf_eq (h.known old hmem).1, ← hlater.typeOf_eq hknows]
      exact hformed.type_of_check hstep (hrewritten.replaced?_eq c) hfirst hcheck
        (hasked.same hrule) old hold
    rw [htype, ← hpassed]
    -- where the members are `none`, nothing takes the place of `none`
    by_cases hnil : u.store.typeOf old = .nil
    · rw [hnil, Rule.retypeAll_nil]
      intro rule hrule
      by_contra hfills
      exact h.filled rule (List.mem_filter.1 hrule).1 hfills old hmem hnil
    · rw [Rule.retypeAll_of_ne_nil _ hnil]

/-- A change keeps the invariant. -/
theorem Uniform.changed (h : Uniform invoke types u.store c) (hkinds : invoke.KeepsKinds)
    (hinvoke : invoke.Spares g) (hc : u.store.graphs[g]? = some c) (hformed : c.Formed)
    (hformed' : c'.Formed) (hrules : c'.rules = c.rules) {a : Applied}
    (hstep : c.model.Step m' a c'.model) (hrewritten : Rewritten invoke g c.rules u m m' v)
    (hincoming : ∀ value, m.incomingMember? = some value →
      u.store.Knows value ∧ types (u.store.typeOf value)) : Uniform invoke types v.store c' := by
  have hlater := hrewritten.led.keepsKinds hkinds
  have hold := h.later hlater
  have hmembers {value : Value} (hvalue : value ∈ c'.memberValues) :
      value ∈ c.model.others m' ∨ m'.incomingMember? = some value := by
    rw [← hformed'.values_model] at hvalue
    exact hstep.mem_values hvalue
  have hothers {value : Value} (hvalue : value ∈ c.model.others m') : value ∈ c.memberValues :=
    hformed.values_model ▸ c.model.others_subset m' hvalue
  have hnew {value : Value} (hvalue : m'.incomingMember? = some value) :=
    h.type_of_incoming hkinds hinvoke hc hformed hstep hrewritten hincoming hvalue
  rw [← hrules] at hnew
  refine ⟨fun rule hrule => hold.steady rule (hrules ▸ hrule), fun value hvalue => ?_,
    fun hrule x hx y hy => ?_, fun rule hrule hfills value hvalue => ?_⟩
  · obtain hvalue | hvalue := hmembers hvalue
    · exact hold.known value (hothers hvalue)
    · exact ⟨(hnew hvalue).1, (hnew hvalue).2.1⟩
  · have htype {old new : Value} (hold' : old ∈ c.model.others m')
        (hnew' : m'.incomingMember? = some new) : v.store.typeOf old = v.store.typeOf new := by
      rw [hlater.typeOf_eq (h.known old (hothers hold')).1]
      exact (hnew hnew').2.2.2 hrule old hold'
    obtain hx | hx := hmembers hx
    · obtain hy | hy := hmembers hy
      · exact hold.same (hrules ▸ hrule) x (hothers hx) y (hothers hy)
      · exact htype hx hy
    · obtain hy | hy := hmembers hy
      · exact (htype hy hx).symm
      · rw [Option.some.inj (hx.symm.trans hy)]
  · obtain hvalue | hvalue := hmembers hvalue
    · exact hold.filled rule (hrules ▸ hrule) hfills value (hothers hvalue)
    · rw [(h.steady rule (hrules ▸ hrule)).retype_eq hlater] at hfills
      exact (hnew hvalue).2.2.1 rule hrule hfills

/-- Attaching a rule keeps the invariant. -/
theorem Uniform.attached (h : Uniform invoke types u.store c) (hkinds : invoke.KeepsKinds)
    (hc : u.store.graphs[g]? = some c) (hformed : c.Formed) {rule : Rule}
    (hsteady : rule.Steady invoke types u.store) {news : List (Nat × Value)}
    (hprepared : prepareRule invoke g rule u = some (.ok news, v)) :
    Uniform invoke types v.store { c.rewrite news with rules := c.rules ++ [rule] } := by
  have hlater : u.store.KeepsKinds v.store :=
    (Store.Led.of_traces (traces_prepareRule invoke g rule) hprepared).keepsKinds hkinds
  have hmembers := type_of_prepareRule hkinds hsteady hc hformed h.known hprepared
  refine ⟨fun rule' hrule' => ?_, fun value hvalue => ?_, fun hrule' x hx y hy => ?_,
    fun rule' hrule' hfills value hvalue => ?_⟩
  · obtain hrule' | hrule' := List.mem_append.1 hrule'
    · exact (h.steady rule' hrule').later hlater
    · exact List.mem_singleton.1 hrule' ▸ hsteady.later hlater
  · obtain ⟨hknows, old, hold, htype⟩ := hmembers value hvalue
    exact ⟨hknows, htype ▸ hsteady.types_retype (h.known old hold).2⟩
  · have hsame : ∀ x ∈ c.memberValues, ∀ y ∈ c.memberValues,
        u.store.typeOf x = u.store.typeOf y := by
      obtain hrule' | hrule' := List.mem_append.1 hrule'
      · exact h.same hrule'
      · obtain rfl := List.mem_singleton.1 hrule'
        exact types_of_checkNow (checkNow_of_prepareRule (by simp) hc hprepared).1
    obtain ⟨-, old, hold, htype⟩ := hmembers x hx
    obtain ⟨-, old', hold', htype'⟩ := hmembers y hy
    rw [htype, htype', hsame old hold old' hold']
  · obtain ⟨-, old, hold, htype⟩ := hmembers value hvalue
    rw [htype]
    obtain hrule' | hrule' := List.mem_append.1 hrule'
    · rw [(h.steady rule' hrule').retype_eq hlater] at hfills
      rw [Rule.retype_of_ne_nil (h.filled rule' hrule' hfills old hold)]
      exact h.filled rule' hrule' hfills old hold
    · rw [List.mem_singleton.1 hrule', hsteady.retype_eq hlater] at hfills
      exact Rule.retype_ne_nil hfills

/-- A step of an operation leaves every container, with its kind. -/
theorem Evolves.keepsKinds {moment : Moment} (h : Evolves invoke g c moment s t c')
    (hkinds : invoke.KeepsKinds) (hmoment : moment.Steady invoke types)
    (hc : s.graphs[g]? = some c) : s.KeepsKinds t := by
  cases h with
  | kept hled => exact hled.keepsKinds hkinds
  | meanwhile => exact hmoment
  | frozen => exact Store.keepsKinds_set hc rfl
  | changed hrewritten hkept hformed' hrules hstep =>
    refine (hrewritten.led.keepsKinds hkinds).trans (Store.keepsKinds_set hkept ?_)
    rw [← c'.kind_model, hstep.kind_eq, c.kind_model]
  | @attached _ rule news u v hrule hprepared hkept =>
    have hled : u.store.Led invoke v.store := .of_traces (traces_prepareRule invoke g rule) hprepared
    refine (hled.keepsKinds hkinds).trans (Store.keepsKinds_set hkept ?_)
    change (c.rewrite news).kind = c.kind
    rw [Container.rewrite_eq]

/-- A step of an operation keeps the invariant. -/
theorem Evolves.uniform {moment : Moment} (h : Evolves invoke g c moment s t c')
    (hkinds : invoke.KeepsKinds) (hinvoke : invoke.Spares g) (hmoment : moment.Steady invoke types)
    (hbefore : moment.before.KeepsKinds s) (hc : s.graphs[g]? = some c) (hformed : c.Formed)
    (huniform : Uniform invoke types s c) : Uniform invoke types t c' := by
  cases h with
  | kept hled => exact huniform.later (hled.keepsKinds hkinds)
  | meanwhile => exact huniform.later hmoment
  | frozen =>
    have hfrozen : Uniform invoke types s c.freeze :=
      ⟨huniform.steady, huniform.known, huniform.same, huniform.filled⟩
    exact hfrozen.later (Store.keepsKinds_set hc rfl)
  | changed hrewritten hkept hformed' hrules hstep =>
    have hchanged := huniform.changed hkinds hinvoke hc hformed hformed' hrules hstep hrewritten
      fun value hvalue => hmoment.2 _ value rfl hvalue
    refine hchanged.later (Store.keepsKinds_set hkept ?_)
    rw [← c'.kind_model, hstep.kind_eq, c.kind_model]
  | @attached _ rule news u v hrule hprepared hkept =>
    have hattached := huniform.attached hkinds hc hformed
      ((hmoment.rules rule hrule).later hbefore) hprepared
    refine hattached.later (Store.keepsKinds_set hkept ?_)
    change (c.rewrite news).kind = c.kind
    rw [Container.rewrite_eq]

end Engine

/-- A new list, map or user graph that operations alone have changed, whether they succeeded or
failed, has the rules that they attached. With a validation of types, all its members are of one
type, as long as each transform that is attached, before or after the validation, puts something in
the place of `none` or keeps the types of values. -/
theorem members_of_one_type {invoke : Invoke σ ε} {types : ValueType → Prop} {g : GraphId}
    {c₀ : Container} {model₀ : Model} {w v : World σ} {moments : List Engine.Moment}
    (hnew : Container.Created c₀ model₀) (hstored : w.store.graphs[g]? = some c₀)
    (hvalues : ∀ value ∈ c₀.memberValues, w.store.Knows value ∧ types (w.store.typeOf value))
    (hinvoke : invoke.Spares g) (hkinds : invoke.KeepsKinds)
    (hmoments : ∀ moment ∈ moments, moment.Steady invoke types)
    (hrun : Engine.Operations invoke g w moments v) :
    ∃ c, v.store.graphs[g]? = some c ∧
      (∀ moment ∈ moments, ∀ rule, moment.Attaches rule → rule ∈ c.rules) ∧
      (.validate .homogeneous ∈ c.rules →
        ∀ x ∈ c.memberValues, ∀ y ∈ c.memberValues, v.store.typeOf x = v.store.typeOf y) := by
  have hstart : Engine.Uniform invoke types w.store c₀ := by
    refine ⟨?_, hvalues, ?_, ?_⟩ <;> simp [hnew.rules_eq]
  obtain ⟨c, hc, -, ⟨-, huniform⟩, hattached⟩ :=
    hrun.preserves_since (P := fun before s c => before.KeepsKinds s ∧ Engine.Uniform invoke types s c)
      hinvoke hstored hnew.built.formed ⟨.refl, hstart⟩ (fun _ _ _ h => ⟨.refl, h.2⟩)
      fun moment hmoment s t c c' hc hformed h hevolves =>
        ⟨h.1.trans (hevolves.keepsKinds hkinds (hmoments moment hmoment) hc),
          hevolves.uniform hkinds hinvoke (hmoments moment hmoment) h.1 hc hformed h.2⟩
  exact ⟨c, hc, hattached, huniform.same⟩

/-! ### A list of texts, with rules about numbers -/

/-- An empty list. -/
def emptyList : World Unit := .holding #[.ofElements []]

/-- Transforms of numbers and a validation of types, then two texts. -/
def textOperations : List Engine.Operation :=
  [.attachAll ⟨"numbers", [.transform .noneToZero, .transform (.clamp (.int 0) (.int 9))]⟩,
    .attach (.validate .homogeneous), .change (.insert (.str "a")), .change (.insert (.str "b"))]

/-- The value of a node other than the root is the value of a member. -/
theorem Container.Formed.mem_memberValues {c : Container} (h : c.Formed) {n : Nat} {value : Value}
    (hn : n ≠ root) (hvalue : c.value? n = some value) : value ∈ c.memberValues := by
  have hnode : n ∈ c.roster.map (·.node) := h.mem_nodes.2 ⟨hn, value?_eq_some_iff.1 ⟨value, hvalue⟩⟩
  exact List.mem_filterMap.2 ⟨n, h.members_eq ▸ hnode, hvalue⟩

/-- Both texts are members of one type, where values that come in are no doubles. -/
theorem one_type_textOperations : ∃ moments v c x y,
    Engine.Operations answerTrue 0 emptyList moments v ∧ v.store.graphs[0]? = some c ∧
    c.value? 1 = some x ∧ c.value? 2 = some y ∧ v.store.typeOf x = v.store.typeOf y := by
  have hends : (Engine.Operation.runAll answerTrue 0 textOperations emptyList).any (fun v =>
      (v.store.get 0).rules.any (Rule.validates .homogeneous) &&
      (((v.store.get 0).value? 1).isSome && ((v.store.get 0).value? 2).isSome)) = true := by
    decide +kernel
  obtain ⟨v, hrun, hfacts⟩ := (Option.any_eq_true _ _).1 hends
  have hkinds : answerTrue.KeepsKinds := by
    rintro callee args u r u' ⟨⟩
    exact .refl
  obtain ⟨moments, hmoments, hops⟩ := Engine.Operations.start.runAll hrun
  rw [List.append_nil] at hmoments
  have hsteady : ∀ moment ∈ moments, moment.Steady answerTrue (· ≠ .float) := by
    intro moment hmoment
    obtain ⟨before, succeeds, op, hop, rfl⟩ := hops moment hmoment
    simp only [textOperations, List.mem_cons, List.not_mem_nil, or_false] at hop
    obtain rfl | rfl | rfl | rfl := hop
    · refine ⟨?_, by simp⟩
      simp only [Engine.Operation.rules, List.forall_mem_cons]
      refine ⟨fun _ => by decide, ?_, by simp⟩
      exact Engine.keeps_clamp (.int 0) (.int 9) rfl rfl
        fun type htype hnumber => hnumber.resolve_right htype
    · exact ⟨by simp [Engine.Operation.rules, Rule.Steady], by simp⟩
    · refine ⟨by simp [Engine.Operation.rules], ?_⟩
      rintro m value ⟨⟩ ⟨⟩
      exact ⟨trivial, show ValueType.str ≠ .float by decide⟩
    · refine ⟨by simp [Engine.Operation.rules], ?_⟩
      rintro m value ⟨⟩ ⟨⟩
      exact ⟨trivial, show ValueType.str ≠ .float by decide⟩
  have hempty : (Container.ofElements []).memberValues = [] := by
    rw [(Container.Created.list []).built.formed.memberValues_eq]
    exact congrArg _ (Container.roster_new .list)
  obtain ⟨c, hc, -, hsame⟩ := members_of_one_type (.list []) rfl (by simp [hempty])
    (answerTrue_spares 0) hkinds hsteady hmoments
  obtain ⟨c', hc', hformed⟩ := hmoments.formed (answerTrue_spares 0) rfl
    (Container.Created.list []).built.formed
  obtain rfl : c' = c := Option.some.inj (hc'.symm.trans hc)
  rw [Store.get_of_getElem? hc, Bool.and_eq_true, Bool.and_eq_true] at hfacts
  obtain ⟨hrule, hfirst, hsecond⟩ := hfacts
  have hrule := Container.mem_rules_of_any hrule
  obtain ⟨x, hx⟩ := Option.isSome_iff_exists.1 hfirst
  obtain ⟨y, hy⟩ := Option.isSome_iff_exists.1 hsecond
  exact ⟨moments, v, c', x, y, hmoments, hc, hx, hy, hsame hrule x
    (hformed.mem_memberValues (by decide) hx) y (hformed.mem_memberValues (by decide) hy)⟩

/-! ### Rules that the validation does not notice -/

/-- A list of one truth value, and a table with a text for it. -/
def oneTruth : World Unit :=
  .holding #[.ofElements [.bool true], .ofEntries [(.bool true, .str "yes")]]

/-- A text for a truth value, and `none` for everything else. -/
def answerYes : Invoke Unit String := fun _ args w =>
  match args with
  | [.bool true] => some (.ok (.str "yes"), w)
  | _ => some (.ok .nil, w)

/-- Rules that make a text of a truth value and `none` of a text. -/
def mixingRules : List Rule :=
  [.transform (.lookup (.graph 1) .nil), .transform (.custom "t" .nil),
    .conditional .nil (.lookup (.graph 1) .nil) (some (.lookup (.graph 1) .nil))]

/-- A validation of types lets members of different types come about: a text that comes in is of the
type of the only member, and `none` is what becomes of it. -/
theorem types_differ_after_transform : answerYes.Spares 0 ∧ ∀ rule ∈ mixingRules,
    ∃ moments v c, Engine.Operations answerYes 0 oneTruth moments v ∧
      v.store.graphs[0]? = some c ∧ .validate .homogeneous ∈ c.rules ∧
      ∃ x ∈ c.memberValues, ∃ y ∈ c.memberValues, v.store.typeOf x ≠ v.store.typeOf y := by
  have hinvoke : answerYes.Spares 0 := by
    intro callee args u r u' h
    unfold answerYes at h
    split at h <;> cases h <;> rfl
  refine ⟨hinvoke, fun rule hrule => ?_⟩
  have hends : (Engine.Operation.runAll answerYes 0 [.attach (.validate .homogeneous), .attach rule,
      .change (.insert (.str "yes"))] oneTruth).any (fun v =>
        (v.store.get 0).rules.any (Rule.validates .homogeneous) &&
        (((v.store.get 0).value? 1).any (v.store.typeOf · == .str) &&
        ((v.store.get 0).value? 2).any (v.store.typeOf · == .nil))) = true := by
    simp only [mixingRules, List.mem_cons, List.not_mem_nil, or_false] at hrule
    obtain rfl | rfl | rfl := hrule <;> decide +kernel
  obtain ⟨v, hrun, hfacts⟩ := (Option.any_eq_true _ _).1 hends
  obtain ⟨_, hmoments, -⟩ := Engine.Operations.start.runAll hrun
  obtain ⟨c, hc, hformed⟩ := hmoments.formed hinvoke rfl
    (Container.Created.list [.bool true]).built.formed
  rw [Store.get_of_getElem? hc, Bool.and_eq_true, Bool.and_eq_true] at hfacts
  obtain ⟨hrule, hfirst, hsecond⟩ := hfacts
  have hrule := Container.mem_rules_of_any hrule
  obtain ⟨x, hx, htype⟩ := (Option.any_eq_true _ _).1 hfirst
  obtain ⟨y, hy, htype'⟩ := (Option.any_eq_true _ _).1 hsecond
  refine ⟨_, v, c, hmoments, hc, hrule, x, hformed.mem_memberValues (by decide) hx, y,
    hformed.mem_memberValues (by decide) hy, ?_⟩
  rw [beq_iff_eq.1 htype, beq_iff_eq.1 htype']
  decide

end GraphLang
