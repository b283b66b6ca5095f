import GraphLang.Proofs.Rule.Answering
import GraphLang.Proofs.Rule.SizeLimit

/-!
# Values inserted under a rule

Values that are inserted one by one into a list with a single rule stand in it as what the rule
makes of them. Each insertion looks at the list as the earlier ones left it. What a rule makes of a
value does not depend on the values in the list, unless a predicate answers with the list itself.
-/

namespace GraphLang

open Container (Applied)

variable {σ ε : Type}

/-! ### Validations of lists -/

namespace Container

variable {c : Container} {values : List Value}

theorem Built.memberValues_eq (h : c.Built .list (.list values)) : c.memberValues = values := by
  rw [← h.formed.values_model, h.model_eq]
  rfl

theorem Built.elements_eq (h : c.Built .list (.list values)) : c.elements = values := by
  have hmodel := h.model_eq
  rw [model, h.kind_eq] at hmodel
  exact Model.list.inj hmodel

theorem Built.size_eq (h : c.Built .list (.list values)) : c.size = values.length := by
  rw [h.formed.size_eq, h.model_eq]
  rfl

theorem built_ofElements (values : List Value) :
    (ofElements values).Built .list (.list values) :=
  (Created.list values).built

/-- A validation allows a value to be inserted if it lets the list have the value with the
others. -/
theorem Built.check_insert (h : c.Built .list (.list values)) {x : Validation} {s : Store}
    (hx : ∀ name callee, x ≠ .predicate name callee)
    (hvalues : (Rule.validate x).allows s values = true) (value : Value) :
    (x.check s c (.insert value)).isOk = (Rule.validate x).allows s (values ++ [value]) := by
  cases x with
  | predicate name callee => exact absurd rfl (hx name callee)
  | acyclic => rfl
  | singleRoot =>
    rw [Validation.check, checkSingleRoot, h.kind_eq]
    rfl
  | maxSize limit =>
    rw [Validation.check, h.size_eq]
    simp only [Mutation.grows, if_true, Rule.allows, List.length_append, List.length_singleton]
    by_cases hlimit : limit < values.length + 1
    · rw [if_pos hlimit, decide_eq_false (by omega)]
      rfl
    · rw [if_neg hlimit, decide_eq_true (by omega)]
      rfl
  | homogeneous =>
    have hothers : (c.members.filter fun n => some n != (Mutation.insert value).replaced? c) =
        c.members := List.filter_eq_self.2 fun n _ => rfl
    have hhead : (c.members.filterMap c.value?).head? = values.head? := by
      rw [← h.memberValues_eq]
      rfl
    unfold Validation.check
    dsimp only [Mutation.incomingMember?]
    rw [hothers, hhead]
    cases values with
    | nil => rfl
    | cons first rest =>
      simp only [Rule.allows] at hvalues
      simp only [List.head?_cons, Rule.allows, List.cons_append, List.all_append, hvalues,
        Bool.true_and, List.all_cons, List.all_nil, Bool.and_true]
      rw [BEq.comm (a := s.typeOf value)]
      cases s.typeOf first == s.typeOf value <;> rfl

end Container

/-! ### A list that is filled -/

namespace Store

variable {s : Store} {g : GraphId} {c c' : Container}

theorem get_set_of_ne {h : GraphId} (hne : h ≠ g) (c : Container) :
    (s.set g c).get h = s.get h := by
  unfold get set
  simp [hne.symm]

/-- A container stands in the place of another one of its kind, as frozen as that one. -/
structure Replaces (s : Store) (g : GraphId) (c' : Container) : Prop where
  /-- There is one. -/
  lt : g < s.graphs.size
  /-- The kind is the same. -/
  kind_eq : c'.kind = (s.get g).kind
  /-- One is as frozen as the other. -/
  frozen_eq : c'.frozen = (s.get g).frozen

namespace Replaces

variable (h : s.Replaces g c')

include h

theorem get_eq (inner : GraphId) : ((s.set g c').get inner).kind = (s.get inner).kind ∧
    ((s.set g c').get inner).frozen = (s.get inner).frozen ∧
    (inner ≠ g → (s.set g c').get inner = s.get inner) := by
  by_cases hinner : inner = g
  · subst hinner
    rw [get_set h.lt]
    exact ⟨h.kind_eq, h.frozen_eq, fun hne => absurd rfl hne⟩
  · rw [get_set_of_ne hinner]
    exact ⟨rfl, rfl, fun _ => rfl⟩

theorem typeOf_eq (value : Value) : (s.set g c').typeOf value = s.typeOf value := by
  cases value with
  | graph inner => rw [typeOf, typeOf, (h.get_eq inner).1]
  | _ => rfl

theorem isFrozen_eq (value : Value) : (s.set g c').isFrozen value = s.isFrozen value := by
  cases value with
  | graph inner => exact (h.get_eq inner).2.1
  | _ => rfl

theorem isTruthy_eq {value : Value} (hne : value ≠ .graph g) :
    (s.set g c').isTruthy value = s.isTruthy value := by
  cases value with
  | graph inner =>
    rw [isTruthy, isTruthy, (h.get_eq inner).2.2 fun heq => hne (by rw [heq])]
  | _ => rfl

theorem allows_eq (rule : Rule) (values : List Value) :
    rule.allows (s.set g c') values = rule.allows s values := by
  unfold Rule.allows
  simp only [h.typeOf_eq]

/-- A table that is looked up is a map, so it is not a list that is filled. -/
theorem transform_eq (hlist : c'.kind = .list) (answer : Answers ε) (r : Transform)
    (value : Value) : r.result? answer (s.set g c') value = r.result? answer s value := by
  cases r with
  | lookup table default =>
    cases table with
    | graph inner =>
      unfold Transform.result? Transform.apply
      dsimp only
      by_cases hinner : inner = g
      · rw [(h.get_eq inner).1, hinner, ← h.kind_eq, hlist]
      · rw [(h.get_eq inner).2.2 hinner]
    | _ => rfl
  | _ => rfl

theorem holds?_eq {answer : Answers ε} {callee value : Value}
    (hne : answer callee [value] ≠ .ok (.graph g)) :
    answer.holds? (s.set g c') callee value = answer.holds? s callee value := by
  unfold Answers.holds?
  cases hanswer : answer callee [value] with
  | error e => simp only [Except.toOption, Option.map_none]
  | ok result =>
    rw [hanswer] at hne
    simp only [Except.toOption, Option.map_some]
    rw [h.isTruthy_eq fun heq => hne (by rw [heq])]

/-- What a rule makes of a value does not depend on what is in a list, if no answer is the list. -/
theorem result?_eq (hlist : c'.kind = .list) {answer : Answers ε} {rule : Rule} {value : Value}
    (hne : ∀ callee ∈ rule.asked?, answer callee [value] ≠ .ok (.graph g)) :
    rule.result? answer (s.set g c') value = rule.result? answer s value := by
  cases rule with
  | validate x =>
    cases x with
    | predicate name callee =>
      rw [Rule.result?, Rule.result?, h.holds?_eq (hne callee rfl)]
    | _ => rfl
  | transform r => exact h.transform_eq hlist answer r value
  | conditional predicate whenTrue whenFalse =>
    rw [Rule.result?, Rule.result?, h.holds?_eq (hne predicate rfl)]
    simp only [h.transform_eq hlist]
  | freeze f =>
    cases f with
    | rejectMixed => rw [Rule.result?, Rule.result?, h.isFrozen_eq]
    | copyElements => rfl

end Replaces

end Store

namespace Engine

variable {answer : Answers ε} {u : World σ} {g : GraphId} {c : Container} {rule : Rule}
  {done : List Value} {value : Value}

/-! ### Inserting under a rule -/

/-- A validation without a callback looks at the list and the incoming value. -/
theorem settles_validate (invoke : Invoke σ ε) {x : Validation} (m : Mutation)
    (hx : ∀ name callee, x ≠ .predicate name callee) (hc : u.store.graphs[g]? = some c) :
    (validate invoke g x m).Settles u
      (if (x.check u.store c m).isOk then some () else none) := by
  rw [← Store.get_of_getElem? hc]
  cases hcheck : x.check u.store (u.store.get g) m with
  | error reason =>
    have hrun : validate invoke g x m u = refuse x (some reason) u := by
      rw [validate, Act.run_store_bind, hcheck]
      exact hx
    exact ⟨_, _, hrun⟩
  | ok _ =>
    change validate invoke g x m u = _
    rw [validate, Act.run_store_bind, hcheck]
    · rfl
    · exact hx

/-- A rule that rewrites nothing is asked whether it lets a value in. -/
theorem settles_consult (hrule : rule.transformsIncoming = false)
    (hc : u.store.graphs[g]? = some c) (hlist : c.Built .list (.list done))
    (hdone : rule.allows u.store done = true) :
    (consult (.answering answer) g (.insert value) rule).Settles u
      (((rule.result? answer u.store value).filter fun result =>
        rule.allows u.store (done ++ [result])).map fun _ => ()) := by
  cases rule with
  | validate x =>
    by_cases hx : ∀ name callee, x ≠ .predicate name callee
    · have hsettles := settles_validate (.answering answer) (.insert value) hx hc
      rw [hlist.check_insert hx hdone] at hsettles
      rw [Rule.result?_validate hx, Option.filter_some]
      split
      · rename_i hallows
        rwa [if_pos hallows] at hsettles
      · rename_i hallows
        rwa [if_neg hallows] at hsettles
    · obtain ⟨name, callee, rfl⟩ : ∃ name callee, x = .predicate name callee := by
        simpa using hx
      have hpassed : ((Rule.validate (.predicate name callee)).result? answer u.store value).map
          (fun _ => ()) = (Verdict.ofAnswer u.store (answer callee [value])).passed? := by
        rw [passed?_ofAnswer, Rule.result?]
        split <;> rfl
      rw [Rule.filter_allows fun _ => rfl, hpassed]
      refine (settles_ask callee).bind (k := Verdict.passed?) fun verdict _ => ?_
      cases verdict with
      | holds => exact .pure ()
      | refused reason => exact ⟨_, _, rfl⟩
      | aborted cause => exact .throw _
  | freeze f =>
    cases f with
    | rejectMixed =>
      have hmutable : (u.store.get g).frozen = false := by
        rw [Store.get_of_getElem? hc, hlist.mutable]
      rw [Rule.filter_allows fun _ => rfl]
      exact settles_rejectMixed_unfrozen answer hmutable (.freeze .rejectMixed) value
    | copyElements => cases hrule
  | _ => cases hrule

/-- A rule that rewrites is not asked before it does. -/
theorem consult_of_transformsIncoming {invoke : Invoke σ ε} {m : Mutation}
    (hrule : rule.transformsIncoming = true) : consult invoke g m rule = return := by
  cases rule with
  | validate x => cases hrule
  | freeze f =>
    cases f with
    | rejectMixed => cases hrule
    | copyElements => rfl
  | _ => rfl

/-- One rule is asked, and then rewrites the value. -/
theorem settles_govern_one {asked : Option Unit} {written : Option Value}
    {invoke : Invoke σ ε} (hconsult : (consult invoke g (.insert value) rule).Settles u asked)
    (hwritten : (transformAll invoke ([rule].filter (·.transformsIncoming)) value).Settles u
      written) :
    (govern invoke g [rule] (.insert value)).Settles u
      (asked.bind fun _ => written.map .insert) := by
  have hasked : ([rule].forM (consult invoke g (.insert value))).Settles u asked := by
    have hrest := hconsult.bind (f := fun _ => [].forM (consult invoke g (.insert value)))
      (k := some) fun _ _ => .pure ()
    rwa [Option.bind_fun_some] at hrest
  exact hasked.bind fun _ _ => hwritten.map _

/-- Under a single rule, a value comes in as what the rule makes of it, if the rule lets the list
have that with its other values. -/
theorem settles_govern (answer : Answers ε) (value : Value)
    (hcopy : rule ≠ .freeze .copyElements) (hc : u.store.graphs[g]? = some c)
    (hlist : c.Built .list (.list done)) (hdone : rule.allows u.store done = true) :
    (govern (.answering answer) g [rule] (.insert value)).Settles u
      (((rule.result? answer u.store value).filter fun result =>
        rule.allows u.store (done ++ [result])).map .insert) := by
  cases hrule : rule.transformsIncoming with
  | true =>
    have hwritten : (transformAll (.answering answer) ([rule].filter (·.transformsIncoming))
        value).Settles u (rule.result? answer u.store value) := by
      rw [List.filter_cons_of_pos hrule]
      have hrest := (settles_transform answer (w := u) hrule hcopy value).bind
        (f := fun value => transformAll (.answering answer) [] value) (k := some)
        fun result _ => .pure result
      rwa [Option.bind_fun_some] at hrest
    have hconsult : (consult (.answering answer) g (.insert value) rule).Settles u (some ()) := by
      rw [consult_of_transformsIncoming hrule]
      exact .pure ()
    rw [Rule.filter_allows fun _ => Rule.allows_of_transformsIncoming hrule]
    exact settles_govern_one hconsult hwritten
  | false =>
    have hwritten : (transformAll (.answering answer) ([rule].filter (·.transformsIncoming))
        value).Settles u (some value) := by
      rw [List.filter_cons_of_neg (by rw [hrule]; exact Bool.false_ne_true)]
      exact .pure value
    have hgovern := settles_govern_one (settles_consult hrule hc hlist hdone) hwritten
    cases hresult : (rule.result? answer u.store value).filter fun result =>
        rule.allows u.store (done ++ [result]) with
    | none =>
      rw [hresult] at hgovern
      exact hgovern
    | some result =>
      obtain ⟨hresult', -⟩ := Option.filter_eq_some_iff.1 hresult
      rw [hresult] at hgovern
      rw [Rule.result?_eq_some hrule hresult']
      exact hgovern

/-- A list takes a value that its rules let in. -/
theorem run_insert {invoke : Invoke σ ε} {v : World σ} {result : Value}
    (hc : u.store.graphs[g]? = some c) (hlist : c.Built .list (.list done))
    (hgovern : govern invoke g c.rules (.insert value) u = some (.ok (.insert result), v))
    (hkept : v.store.graphs[g]? = some c) :
    ∃ a c' t, apply invoke g (.insert value) u = some (.ok a, t) ∧ t.store = v.store.set g c' ∧
      c'.Built .list (.list (done ++ [result])) ∧ c'.rules = c.rules := by
  have hallowed (value : Value) :
      (c.model.refusal? (.insert value) : Option (MutationError ε)) = none := by
    rw [hlist.model_eq]
    rfl
  obtain ⟨a, c', hcommit, hformed, hmutable, hrules, hstep⟩ :=
    made_commit hkept hlist.formed hlist.mutable (hallowed result)
  have hmodel : c'.model = .list (done ++ [result]) := by
    rw [hlist.model_eq] at hstep
    generalize c'.model = model at hstep
    cases hstep
    rfl
  have hkind : c'.kind = .list := by rw [← c'.kind_model, hmodel]; rfl
  have hrun : ∃ t, apply invoke g (.insert value) u = some (.ok a, t) ∧
      t.store = v.store.set g c' := by
    rw [run_apply hc hlist.mutable, Act.run_bind, hlist.formed.preflight_eq, hallowed,
      show Container.verdict none = .ok () from rfl, run_ofCheck_ok]
    dsimp only
    rw [Act.run_bind, hgovern]
    dsimp only
    rw [Act.run_bind, hcommit]
    dsimp only
    rw [Act.run_bind, Act.run_report]
    exact ⟨_, rfl, World.noted_store _ _ _ _ _⟩
  obtain ⟨t, happly, hstore⟩ := hrun
  exact ⟨a, c', t, happly, hstore, ⟨hformed, hkind, hmutable, hmodel⟩, hrules⟩

/-- A list does not take a value that its rules refuse. -/
theorem run_insert_error {invoke : Invoke σ ε} {v : World σ} {e : MutationError ε}
    (hc : u.store.graphs[g]? = some c) (hlist : c.Built .list (.list done))
    (hgovern : govern invoke g c.rules (.insert value) u = some (.error e, v)) :
    apply invoke g (.insert value) u = some (.error e, v) := by
  have hallowed : (c.model.refusal? (.insert value) : Option (MutationError ε)) = none := by
    rw [hlist.model_eq]
    rfl
  rw [run_apply hc hlist.mutable, Act.run_bind, hlist.formed.preflight_eq, hallowed,
    show Container.verdict none = .ok () from rfl, run_ofCheck_ok]
  dsimp only
  rw [Act.run_bind, hgovern]

/-- Inserts values into a list under its rules, one after the other, up to the first failure. -/
def insertAll (invoke : Invoke σ ε) (g : GraphId) : List Value → Act σ (MutationError ε) Unit
  | [] => return
  | value :: rest => do
    discard <| apply invoke g (.insert value)
    insertAll invoke g rest

theorem run_insertAll_cons {invoke : Invoke σ ε} {rest : List Value} {a : Applied} {v : World σ}
    (h : apply invoke g (.insert value) u = some (.ok a, v)) :
    insertAll invoke g (value :: rest) u = insertAll invoke g rest v := by
  change ((fun _ => PUnit.unit) <$> apply invoke g (.insert value) >>= fun _ =>
    insertAll invoke g rest) u = _
  rw [Act.run_bind, Act.run_map, h]
  rfl

theorem run_insertAll_error {invoke : Invoke σ ε} {rest : List Value} {e : MutationError ε}
    {v : World σ} (h : apply invoke g (.insert value) u = some (.error e, v)) :
    insertAll invoke g (value :: rest) u = some (.error e, v) := by
  change ((fun _ => PUnit.unit) <$> apply invoke g (.insert value) >>= fun _ =>
    insertAll invoke g rest) u = _
  rw [Act.run_bind, Act.run_map, h]
  rfl

/-- Where there are results, the action succeeds and the list has them under a single rule. Where
there are none, the action fails. -/
def Fills (x : Option (Except (MutationError ε) Unit × World σ)) (g : GraphId) (rule : Rule) :
    Option (List Value) → Prop
  | some results => ∃ c v, x = some (.ok (), v) ∧ v.store.graphs[g]? = some c ∧
      c.Built .list (.list results) ∧ c.rules = [rule]
  | none => ∃ e v, x = some (.error e, v)

/-- Two actions that fill lists with the same results both succeed or both fail, and the lists have
the same elements in the end. -/
theorem Fills.agree {x y : Option (Except (MutationError ε) Unit × World σ)} {g' : GraphId}
    {results : Option (List Value)} (hx : Fills x g rule results)
    (hy : Fills y g' rule results) :
    ((∃ u, x = some (.ok (), u)) ↔ ∃ v, y = some (.ok (), v)) ∧
    ∀ u v, x = some (.ok (), u) → y = some (.ok (), v) →
      ∃ c d, u.store.graphs[g]? = some c ∧ v.store.graphs[g']? = some d ∧
        c.rules = [rule] ∧ d.rules = [rule] ∧ c.elements = d.elements := by
  cases results with
  | none =>
    obtain ⟨e, u, rfl⟩ := hx
    obtain ⟨e', v, rfl⟩ := hy
    exact ⟨iff_of_false (by rintro ⟨u, ⟨⟩⟩) (by rintro ⟨v, ⟨⟩⟩), by rintro u v ⟨⟩⟩
  | some results =>
    obtain ⟨c, u, rfl, hc, hlist, hrules⟩ := hx
    obtain ⟨d, v, rfl, hd, hlist', hrules'⟩ := hy
    refine ⟨iff_of_true ⟨u, rfl⟩ ⟨v, rfl⟩, ?_⟩
    rintro u v ⟨⟩ ⟨⟩
    exact ⟨c, d, hc, hd, hrules, hrules', by rw [hlist.elements_eq, hlist'.elements_eq]⟩

/-- Values that are inserted into a list under a single rule stand in it as what the rule makes of
them, if the rule lets the list have all of them. -/
theorem fills_insertAll (answer : Answers ε) {s : Store} {values : List Value}
    (hu : u.store = s.set g c) (hg : s.Replaces g c)
    (hlist : c.Built .list (.list done)) (hrules : c.rules = [rule])
    (hcopy : rule ≠ .freeze .copyElements) (hdone : rule.allows s done = true)
    (hanswers : ∀ callee ∈ rule.asked?, ∀ value ∈ values,
      answer callee [value] ≠ .ok (.graph g)) :
    Fills (insertAll (.answering answer) g values u) g rule
      ((rule.results? answer s done values).map (done ++ ·)) := by
  induction values generalizing u c done with
  | nil =>
    rw [Rule.results?_nil hdone, Option.map_some, List.append_nil]
    refine ⟨c, u, rfl, ?_, hlist, hrules⟩
    rw [hu]
    simp [Store.set, hg.lt]
  | cons value rest ih =>
    have hc : u.store.graphs[g]? = some c := by
      rw [hu]
      simp [Store.set, hg.lt]
    have hvalue : ∀ callee ∈ rule.asked?, answer callee [value] ≠ .ok (.graph g) :=
      fun callee hcallee => hanswers callee hcallee value List.mem_cons_self
    have hgovern := settles_govern answer value hcopy hc hlist
      (by rwa [hu, hg.allows_eq])
    simp only [hu, hg.result?_eq hlist.kind_eq hvalue, hg.allows_eq] at hgovern
    rw [Rule.results?_cons]
    cases hresult : (rule.result? answer s value).filter fun result =>
        rule.allows s (done ++ [result]) with
    | none =>
      rw [hresult] at hgovern
      obtain ⟨e, v, hrun⟩ := hgovern
      exact ⟨e, v, run_insertAll_error (run_insert_error hc hlist (by rwa [hrules]))⟩
    | some result =>
      rw [hresult] at hgovern
      obtain ⟨a, c', v, happly, hstore, hlist', hrules'⟩ :=
        run_insert hc hlist (by rw [hrules]; exact hgovern) hc
      have hg' : s.Replaces g c' :=
        ⟨hg.lt, by rw [hlist'.kind_eq, ← hlist.kind_eq, hg.kind_eq],
          by rw [hlist'.mutable, ← hlist.mutable, hg.frozen_eq]⟩
      have hrest := ih (by rw [hstore, hu, Store.set_set]) hg' hlist' (hrules'.trans hrules)
        (Option.filter_eq_some_iff.1 hresult).2 fun callee hcallee value hvalue =>
          hanswers callee hcallee value (List.mem_cons_of_mem _ hvalue)
      rw [run_insertAll_cons happly, Option.bind_some, Option.map_map]
      simpa only [Function.comp_def, List.append_assoc, List.singleton_append] using hrest

end Engine

end GraphLang
