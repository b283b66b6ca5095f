import GraphLang.Proofs.Rule.Operations

/-!
# What rules do to types

The type of a value depends on the store only through the kinds of containers, which never change.
Some transforms give a value of the type that they are given, and two of them put something in the
place of `none`. For these, the type of what goes through all rules can be told from the type of the
incoming value alone.
-/

namespace GraphLang

variable {σ ε : Type}

/-! ### Types in a growing store -/

namespace Store

variable {s t u : Store} {value : Value}

/-- The value names no container that is missing. -/
def Knows (s : Store) : Value → Prop
  | .graph g => g < s.graphs.size
  | _ => True

/-- The second store has the containers of the first one, each with its kind. -/
structure KeepsKinds (s t : Store) : Prop where
  /-- None is missing. -/
  size_le : s.graphs.size ≤ t.graphs.size
  /-- None is of another kind. -/
  kind_eq : ∀ g < s.graphs.size, (t.get g).kind = (s.get g).kind

theorem KeepsKinds.refl : s.KeepsKinds s := ⟨Nat.le_refl _, fun _ _ => rfl⟩

theorem KeepsKinds.trans (h : s.KeepsKinds t) (h' : t.KeepsKinds u) : s.KeepsKinds u :=
  ⟨h.size_le.trans h'.size_le, fun g hg =>
    (h'.kind_eq g (Nat.lt_of_lt_of_le hg h.size_le)).trans (h.kind_eq g hg)⟩

theorem Spares.keepsKinds (h : s.Spares t) : s.KeepsKinds t := by
  refine ⟨?_, fun g hg => by rw [get, get, h.getElem? hg]⟩
  obtain ⟨new, hnew⟩ := h
  rw [hnew, Array.size_append]
  exact Nat.le_add_right _ _

/-- A container that takes the place of one of its kind. -/
theorem keepsKinds_set {g : GraphId} {c c' : Container} (hc : s.graphs[g]? = some c)
    (hkind : c'.kind = c.kind) : s.KeepsKinds (s.set g c') := by
  refine ⟨by simp [set], fun g' hg' => ?_⟩
  by_cases heq : g' = g
  · subst heq
    rw [get_set hg', get_of_getElem? hc, hkind]
  · simp [get, set, Ne.symm heq]

theorem typeOf_ne_nil (s : Store) (h : value ≠ .nil) : s.typeOf value ≠ .nil := by
  cases value with
  | nil => exact absurd rfl h
  | graph g =>
    rw [typeOf]
    split <;> exact nofun
  | _ => exact nofun

/-- A container that is added is there, with its kind. -/
theorem kind_alloc (c : Container) :
    (s.alloc c).2.Knows (.graph (s.alloc c).1) ∧
      ((s.alloc c).2.get (s.alloc c).1).kind = c.kind := by
  simp [alloc, Knows, get]

theorem KeepsKinds.knows (h : s.KeepsKinds t) (hvalue : s.Knows value) : t.Knows value := by
  cases value with
  | graph g => exact Nat.lt_of_lt_of_le hvalue h.size_le
  | _ => trivial

theorem KeepsKinds.typeOf_eq (h : s.KeepsKinds t) (hvalue : s.Knows value) :
    t.typeOf value = s.typeOf value := by
  cases value with
  | graph g => rw [typeOf, typeOf, h.kind_eq g hvalue]
  | _ => rfl

end Store

/-- Callbacks leave every container, with its kind. -/
def Invoke.KeepsKinds (invoke : Invoke σ ε) : Prop :=
  ∀ callee args u r u', invoke callee args u = some (r, u') → u.store.KeepsKinds u'.store

theorem Store.Led.keepsKinds {invoke : Invoke σ ε} {s t : Store} (h : s.Led invoke t)
    (hinvoke : invoke.KeepsKinds) : s.KeepsKinds t := by
  obtain ⟨made, huntouched, hby⟩ := h
  induction made generalizing t with
  | nil => exact Spares.keepsKinds huntouched
  | cons call earlier ih =>
    obtain ⟨natives, callee, args, u, r, u', hrun, rfl, -⟩ := hby call List.mem_cons_self
    have hbefore := ih huntouched.2 fun call hcall => hby call (List.mem_cons_of_mem _ hcall)
    exact hbefore.trans ((hinvoke callee args u r u' hrun).trans huntouched.1.keepsKinds)

/-! ### Rules -/

/-- In every store that comes of the given one, what a transform makes of a value of one of the
types has the type of the value. -/
def Transform.Keeps (invoke : Invoke σ ε) (types : ValueType → Prop) (s : Store) : Transform → Prop
  | .round _ | .lowercase | .uppercase | .trim => True
  | r => ∀ value u y v, s.KeepsKinds u.store → u.store.Knows value →
    types (u.store.typeOf value) → Engine.runTransform invoke r value u = some (.ok y, v) →
      v.store.Knows y ∧ v.store.typeOf y = u.store.typeOf value

theorem Transform.Keeps.later {invoke : Invoke σ ε} {types : ValueType → Prop} {s t : Store}
    {r : Transform} (h : r.Keeps invoke types s) (hst : s.KeepsKinds t) :
    r.Keeps invoke types t := by
  cases r with
  | round | lowercase | uppercase | trim => trivial
  | _ => exact fun value u y v hu => h value u y v (hst.trans hu)

namespace Rule

/-- A rule that makes values of one type of values of one type, where these are among the given
ones: it puts a value that there is in the place of `none`, or keeps the types of values. -/
def Steady (invoke : Invoke σ ε) (types : ValueType → Prop) (s : Store) : Rule → Prop
  | .transform .noneToZero => types .nil → types .int
  | .transform (.coalesce replacement) =>
    s.Knows replacement ∧ (types .nil → types (s.typeOf replacement))
  | .transform r => r.Keeps invoke types s
  | .conditional _ whenTrue whenFalse =>
    whenTrue.Keeps invoke types s ∧ ∀ r ∈ whenFalse, r.Keeps invoke types s
  | .validate _ | .freeze _ => True

/-- The type of what such a rule makes of a value of that type. -/
def retype (s : Store) : Rule → ValueType → ValueType
  | .transform .noneToZero, .nil => .int
  | .transform (.coalesce replacement), .nil => s.typeOf replacement
  | _, type => type

variable {rule : Rule} {type : ValueType} {types : ValueType → Prop} {invoke : Invoke σ ε}
  {s t : Store}

theorem retype_of_ne_nil (h : type ≠ .nil) : rule.retype s type = type := by
  unfold retype
  split
  · exact absurd rfl h
  · exact absurd rfl h
  · rfl

theorem Steady.later (h : rule.Steady invoke types s) (hst : s.KeepsKinds t) :
    rule.Steady invoke types t := by
  cases rule with
  | validate | freeze => trivial
  | conditional => exact ⟨h.1.later hst, fun r hr => (h.2 r hr).later hst⟩
  | transform r =>
    cases r with
    | noneToZero => exact h
    | coalesce replacement => exact ⟨hst.knows h.1, fun hnil => hst.typeOf_eq h.1 ▸ h.2 hnil⟩
    | round | lowercase | uppercase | trim => trivial
    | clamp min max => exact Transform.Keeps.later (r := .clamp min max) h hst
    | lookup table default => exact Transform.Keeps.later (r := .lookup table default) h hst
    | custom name callee => exact Transform.Keeps.later (r := .custom name callee) h hst

/-- A rule does to types in a later store what it did before. -/
theorem Steady.retype_eq (h : rule.Steady invoke types s) (hst : s.KeepsKinds t) :
    rule.retype t = rule.retype s := by
  funext type
  by_cases hnil : type = .nil
  · subst hnil
    cases rule with
    | transform r =>
      cases r with
      | coalesce replacement => exact hst.typeOf_eq h.1
      | _ => rfl
    | _ => rfl
  · rw [retype_of_ne_nil hnil, retype_of_ne_nil hnil]

/-- Where something takes the place of `none`, nothing is `none`. -/
theorem retype_ne_nil (h : rule.retype s .nil ≠ .nil) : rule.retype s type ≠ .nil := by
  by_cases htype : type = .nil
  · rwa [htype]
  · rwa [retype_of_ne_nil htype]

theorem transformsIncoming_of_retype (h : rule.retype s .nil ≠ .nil) :
    rule.transformsIncoming = true := by
  cases rule with
  | transform r => rfl
  | _ => exact absurd rfl h

theorem Steady.types_retype (h : rule.Steady invoke types s) (htype : types type) :
    types (rule.retype s type) := by
  unfold retype
  split
  · exact h htype
  · exact h.2 htype
  · exact htype

/-- A transform puts something in the place of `none`, or keeps types. -/
theorem Steady.cases_transform {r : Transform} (h : (Rule.transform r).Steady invoke types s) :
    r = .noneToZero ∨ (∃ replacement, r = .coalesce replacement) ∨
      r.Keeps invoke types s ∧ ∀ type, (Rule.transform r).retype s type = type := by
  cases r with
  | noneToZero => exact Or.inl rfl
  | coalesce replacement => exact Or.inr (Or.inl ⟨replacement, rfl⟩)
  | _ => exact Or.inr (Or.inr ⟨h, fun _ => rfl⟩)

/-- The type of what goes through several rules. -/
def retypeAll (s : Store) (rules : List Rule) (type : ValueType) : ValueType :=
  rules.foldl (fun type rule => rule.retype s type) type

theorem retypeAll_of_ne_nil (rules : List Rule) (h : type ≠ .nil) :
    retypeAll s rules type = type := by
  induction rules with
  | nil => rfl
  | cons rule rest ih => rwa [retypeAll, List.foldl_cons, retype_of_ne_nil h]

theorem retypeAll_nil {rules : List Rule} (h : ∀ rule ∈ rules, rule.retype s .nil = .nil) :
    retypeAll s rules .nil = .nil := by
  induction rules with
  | nil => rfl
  | cons rule rest ih =>
    rw [retypeAll, List.foldl_cons, h rule List.mem_cons_self]
    exact ih fun rule hrule => h rule (List.mem_cons_of_mem _ hrule)

theorem retypeAll_ne_nil {rules : List Rule} (hrule : rule ∈ rules)
    (h : rule.retype s .nil ≠ .nil) : retypeAll s rules type ≠ .nil := by
  induction rules generalizing type with
  | nil => cases hrule
  | cons first rest ih =>
    rw [retypeAll, List.foldl_cons]
    obtain rfl | hrule := List.mem_cons.1 hrule
    · have hne : rule.retype s type ≠ .nil := retype_ne_nil h
      exact fun heq => hne ((retypeAll_of_ne_nil rest hne).symm.trans heq)
    · exact ih hrule

end Rule

namespace Engine

variable {invoke : Invoke σ ε} {types : ValueType → Prop} {g : GraphId} {c : Container}
  {s : Store} {w u v t : World σ} {value y : Value} {rule : Rule}

/-- A transform without a callback gives its result and does nothing else. -/
theorem apply_of_runTransform {r : Transform} (hr : ∀ name callee, r ≠ .custom name callee)
    (h : runTransform invoke r value u = some (.ok y, v)) :
    r.apply u.store value = .ok y ∧ v = u := by
  cases happly : r.apply u.store value with
  | error cause =>
    have hrun : runTransform invoke r value u =
        some (.error (.transformFailed (r.display u.store none) cause), u) := by
      rw [runTransform, Act.run_store_bind, happly]
      · rfl
      · exact hr
    cases hrun.symm.trans h
  | ok result =>
    have hrun : runTransform invoke r value u = some (.ok result, u) := by
      rw [runTransform, Act.run_store_bind, happly]
      · rfl
      · exact hr
    cases hrun.symm.trans h
    exact ⟨rfl, rfl⟩

theorem type_of_runTransform {r : Transform} (hkeeps : r.Keeps invoke types s)
    (hlater : s.KeepsKinds u.store) (hknows : u.store.Knows value)
    (htypes : types (u.store.typeOf value)) (h : runTransform invoke r value u = some (.ok y, v)) :
    v.store.Knows y ∧ v.store.typeOf y = u.store.typeOf value := by
  cases r with
  | round digits =>
    obtain ⟨happly, rfl⟩ := apply_of_runTransform (by simp) h
    cases value <;> cases happly <;> exact ⟨hknows, rfl⟩
  | lowercase =>
    obtain ⟨happly, rfl⟩ := apply_of_runTransform (by simp) h
    cases value <;> cases happly <;> exact ⟨hknows, rfl⟩
  | uppercase =>
    obtain ⟨happly, rfl⟩ := apply_of_runTransform (by simp) h
    cases value <;> cases happly <;> exact ⟨hknows, rfl⟩
  | trim =>
    obtain ⟨happly, rfl⟩ := apply_of_runTransform (by simp) h
    cases value <;> cases happly <;> exact ⟨hknows, rfl⟩
  | _ => exact hkeeps value u y v hlater hknows htypes h

/-- A range keeps types if its bounds are of the only type of numbers. -/
theorem keeps_clamp (low high : Value) {number : ValueType} (hlow : s.typeOf low = number)
    (hhigh : s.typeOf high = number)
    (hnumbers : ∀ type, types type → type = .int ∨ type = .float → type = number) :
    (Transform.clamp low high).Keeps invoke types s := by
  intro value u y v _ hknows htypes h
  obtain ⟨happly, rfl⟩ := apply_of_runTransform (by simp) h
  have hbound {bound : Value} {a : Float} (hnumber : bound.number? = some a)
      (htype : s.typeOf bound = number)
      (hvalue : v.store.typeOf value = .int ∨ v.store.typeOf value = .float) :
      v.store.Knows bound ∧ v.store.typeOf bound = v.store.typeOf value := by
    have hsame : v.store.Knows bound ∧ v.store.typeOf bound = s.typeOf bound := by
      cases bound <;> first | exact ⟨trivial, rfl⟩ | cases hnumber
    exact ⟨hsame.1, by rw [hsame.2, htype, hnumbers _ htypes hvalue]⟩
  unfold Transform.apply at happly
  dsimp only at happly
  split at happly
  · rename_i a b ha hb
    have hrange {x : Float}
        (hvalue : v.store.typeOf value = .int ∨ v.store.typeOf value = .float)
        (hy : y = if x < a then low else if b < x then high else value) :
        v.store.Knows y ∧ v.store.typeOf y = v.store.typeOf value := by
      rw [hy]
      split
      · exact hbound ha hlow hvalue
      · split
        · exact hbound hb hhigh hvalue
        · exact ⟨hknows, rfl⟩
    cases value with
    | int i => exact hrange (Or.inl rfl) (Except.ok.inj happly).symm
    | float x => exact hrange (Or.inr rfl) (Except.ok.inj happly).symm
    | _ =>
      cases happly
      exact ⟨hknows, rfl⟩
  · cases happly

/-- A copy is of the kind of what it is a copy of. -/
theorem type_of_unfrozenCopy (hknows : u.store.Knows value)
    (h : (unfrozenCopy value u : Option (Except (MutationError ε) Value × World σ)) =
      some (.ok y, v)) :
    v.store.Knows y ∧ v.store.typeOf y = u.store.typeOf value := by
  cases value with
  | graph inner =>
    have hrun : (unfrozenCopy (.graph inner) : Act σ (MutationError ε) Value) u =
        let copied := u.store.deepCopy (u.store.get inner)
        some (.ok (.graph (copied.2.alloc copied.1).1),
          { u with store := (copied.2.alloc copied.1).2 }) := rfl
    rw [hrun, Option.some.injEq, Prod.mk.injEq, Except.ok.injEq] at h
    obtain ⟨rfl, rfl⟩ := h
    obtain ⟨hnew, hkind⟩ := Store.kind_alloc (s := (u.store.deepCopy (u.store.get inner)).2)
      (u.store.deepCopy (u.store.get inner)).1
    refine ⟨hnew, ?_⟩
    rw [Store.typeOf, Store.typeOf, hkind, Store.deepCopy_eq]
    rfl
  | _ =>
    cases h
    exact ⟨hknows, rfl⟩

/-- The type of what a rule makes of a value. -/
theorem type_of_transform (hinvoke : invoke.KeepsKinds) (hsteady : rule.Steady invoke types s)
    (hlater : s.KeepsKinds u.store) (hknows : u.store.Knows value)
    (htypes : types (u.store.typeOf value)) (h : transform invoke rule value u = some (.ok y, v)) :
    v.store.Knows y ∧ v.store.typeOf y = rule.retype s (u.store.typeOf value) := by
  cases rule with
  | validate x =>
    cases h
    exact ⟨hknows, rfl⟩
  | freeze f =>
    cases f with
    | rejectMixed =>
      cases h
      exact ⟨hknows, rfl⟩
    | copyElements => exact type_of_unfrozenCopy hknows h
  | transform r =>
    have hrun : runTransform invoke r value u = some (.ok y, v) := h
    obtain rfl | ⟨replacement, rfl⟩ | ⟨hkeeps, hretype⟩ := hsteady.cases_transform
    · obtain ⟨happly, rfl⟩ := apply_of_runTransform (by simp) hrun
      cases value with
      | nil =>
        cases happly
        exact ⟨trivial, rfl⟩
      | _ =>
        cases happly
        exact ⟨hknows, (Rule.retype_of_ne_nil (v.store.typeOf_ne_nil (by simp))).symm⟩
    · obtain ⟨happly, rfl⟩ := apply_of_runTransform (by simp) hrun
      cases value with
      | nil =>
        cases happly
        exact ⟨hlater.knows hsteady.1, hlater.typeOf_eq hsteady.1⟩
      | _ =>
        cases happly
        exact ⟨hknows, (Rule.retype_of_ne_nil (v.store.typeOf_ne_nil (by simp))).symm⟩
    · rw [hretype]
      exact type_of_runTransform hkeeps hlater hknows htypes hrun
  | conditional predicate whenTrue whenFalse =>
    unfold transform at h
    obtain ⟨r, u', hcall, h⟩ := Act.run_bind_eq_ok.1 h
    rw [Act.run_attempt, Option.map_eq_some_iff] at hcall
    obtain ⟨⟨r, u'⟩, hcall, heq⟩ := hcall
    cases heq
    have hkinds := hinvoke _ _ _ _ _ hcall
    have hlater := hlater.trans hkinds
    rw [← hkinds.typeOf_eq hknows] at htypes ⊢
    cases r with
    | error e => cases e <;> cases h
    | ok result =>
      obtain ⟨s, _, hstore, h⟩ := Act.run_bind_eq_ok.1 h
      cases hstore
      split at h
      · exact type_of_runTransform hsteady.1 hlater (hkinds.knows hknows) htypes h
      · cases whenFalse with
        | none =>
          cases h
          exact ⟨hkinds.knows hknows, rfl⟩
        | some r =>
          exact type_of_runTransform (hsteady.2 r rfl) hlater (hkinds.knows hknows) htypes h

/-- The type of what all rules make of a value. -/
theorem type_of_transformAll (hinvoke : invoke.KeepsKinds) {rules : List Rule}
    (hsteady : ∀ rule ∈ rules, rule.Steady invoke types s) (hlater : s.KeepsKinds u.store)
    (hknows : u.store.Knows value) (htypes : types (u.store.typeOf value))
    (h : transformAll invoke rules value u = some (.ok y, v)) :
    v.store.Knows y ∧ v.store.typeOf y = Rule.retypeAll s rules (u.store.typeOf value) ∧
      types (v.store.typeOf y) := by
  induction rules generalizing u value with
  | nil =>
    cases h
    exact ⟨hknows, rfl, htypes⟩
  | cons rule rest ih =>
    obtain ⟨value', u', hfirst, hrest⟩ := Act.run_bind_eq_ok.1 h
    have hrule := hsteady rule List.mem_cons_self
    obtain ⟨hknows', htype⟩ := type_of_transform hinvoke hrule hlater hknows htypes hfirst
    have hstep : u.store.KeepsKinds u'.store :=
      (Store.Led.of_traces (traces_transform invoke rule value) hfirst).keepsKinds hinvoke
    obtain ⟨hy, htype', htypes'⟩ :=
      ih (fun rule hrule => hsteady rule (List.mem_cons_of_mem _ hrule)) (hlater.trans hstep)
        hknows' (htype ▸ hrule.types_retype htypes) hrest
    rw [htype] at htype'
    exact ⟨hy, htype', htypes'⟩

/-- A rule that is attached goes through the members, one after the other. -/
theorem mem_updates {members news : List (Nat × Value)}
    (h : updates invoke rule members u = some (.ok news, v)) :
    news.map (·.1) = members.map (·.1) ∧ ∀ new ∈ news, ∃ old ∈ members, ∃ u' v',
      u.store.Led invoke u'.store ∧ transform invoke rule old.2 u' = some (.ok new.2, v') ∧
        v'.store.Led invoke v.store := by
  induction members generalizing u news with
  | nil =>
    cases h
    exact ⟨rfl, by simp⟩
  | cons member rest ih =>
    obtain ⟨value, u', hfirst, h⟩ := Act.run_bind_eq_ok.1 h
    obtain ⟨others, v', hrest, h⟩ := Act.run_bind_eq_ok.1 h
    cases h
    obtain ⟨hnodes, hold⟩ := ih hrest
    refine ⟨by rw [List.map_cons, List.map_cons, hnodes], ?_⟩
    refine List.forall_mem_cons.2 ⟨?_, fun new hnew => ?_⟩
    · exact ⟨member, List.mem_cons_self, u, u', .refl, hfirst,
        .of_traces (traces_updates invoke rule rest) hrest⟩
    · obtain ⟨old, hmem, u₁, v₁, hled, hrun, hled'⟩ := hold new hnew
      have hbefore : u.store.Led invoke u'.store :=
        .of_traces (traces_transform invoke rule member.2) hfirst
      exact ⟨old, List.mem_cons_of_mem _ hmem, u₁, v₁, hbefore.trans hled, hrun, hled'⟩

/-- A rule that asks about the members gives them no new values; any other one goes through them. -/
theorem news_of_prepareRule (hc : u.store.graphs[g]? = some c) {news : List (Nat × Value)}
    (h : prepareRule invoke g rule u = some (.ok news, v)) :
    news = [] ∧ (∀ s type, rule.retype s type = type) ∨
      updates invoke rule (c.members.filterMap fun n => (c.value? n).map fun v => (n, v)) u =
        some (.ok news, v) := by
  obtain ⟨s, _, hstore, hrun⟩ := Act.run_bind_eq_ok.1 h
  cases hstore
  have hask {a : Act σ (MutationError ε) PUnit}
      (hrun : (a >>= fun _ => return []) u = some (.ok news, v)) : news = [] := by
    obtain ⟨_, _, -, hnews⟩ := Act.run_bind_eq_ok.1 hrun
    cases hnews
    rfl
  cases rule with
  | validate x =>
    refine Or.inl ⟨?_, fun _ _ => rfl⟩
    cases x with
    | predicate name callee => exact hask hrun
    | _ => exact (checkNow_of_prepareRule (by simp) hc h).2.1
  | freeze f =>
    cases f with
    | rejectMixed => exact Or.inl ⟨hask hrun, fun _ _ => rfl⟩
    | copyElements =>
      rw [Store.get_of_getElem? hc] at hrun
      exact Or.inr hrun
  | _ =>
    rw [Store.get_of_getElem? hc] at hrun
    exact Or.inr hrun

/-- The types of members that a rule was attached to come from the types that they had. -/
theorem type_of_prepareRule (hinvoke : invoke.KeepsKinds)
    (hsteady : rule.Steady invoke types u.store)
    (hc : u.store.graphs[g]? = some c) (hformed : c.Formed)
    (hmembers : ∀ value ∈ c.memberValues,
      u.store.Knows value ∧ types (u.store.typeOf value)) {news : List (Nat × Value)}
    (h : prepareRule invoke g rule u = some (.ok news, v)) :
    ∀ value ∈ (c.rewrite news).memberValues, v.store.Knows value ∧ ∃ old ∈ c.memberValues,
      v.store.typeOf value = rule.retype u.store (u.store.typeOf old) := by
  have hkinds : u.store.KeepsKinds v.store :=
    (Store.Led.of_traces (traces_prepareRule invoke g rule) h).keepsKinds hinvoke
  intro value hvalue
  rw [(hformed.rewrite news).memberValues_eq] at hvalue
  obtain ⟨x, hx, rfl⟩ := List.mem_map.1 hvalue
  have hold {x : Container.Held} (hx : x ∈ c.roster) : x.value ∈ c.memberValues := by
    rw [hformed.memberValues_eq]
    exact List.mem_map_of_mem hx
  obtain ⟨rfl, hretype⟩ | hupdates := news_of_prepareRule hc h
  · obtain ⟨hknows, -⟩ := hmembers _ (hold hx)
    exact ⟨hkinds.knows hknows, x.value, hold hx, by rw [hretype, hkinds.typeOf_eq hknows]⟩
  · rw [hformed.members_eq, hformed.filterMap_nodes fun n v => (n, v)] at hupdates
    obtain ⟨hnodes, hnews⟩ := mem_updates hupdates
    obtain ⟨hmem, hkept⟩ | hnew := hformed.mem_roster_rewrite news hx
    · rw [hnodes, Container.Formed.map_handles] at hkept
      exact absurd (List.mem_map_of_mem hmem) hkept
    · obtain ⟨old, hmem, u', v', hled, hrun, hled'⟩ := hnews _ hnew
      obtain ⟨z, hz, rfl⟩ := List.mem_map.1 hmem
      obtain ⟨hknows, htypes⟩ := hmembers _ (hold hz)
      have hbefore := hled.keepsKinds hinvoke
      rw [← hbefore.typeOf_eq hknows] at htypes
      obtain ⟨hy, htype⟩ :=
        type_of_transform hinvoke hsteady hbefore (hbefore.knows hknows) htypes hrun
      have hafter := hled'.keepsKinds hinvoke
      refine ⟨hafter.knows hy, z.value, hold hz, ?_⟩
      rw [hafter.typeOf_eq hy, htype, hbefore.typeOf_eq hknows]

end Engine

end GraphLang
