import GraphLang.Proofs.Rule.Operations

/-!
# Callbacks that only answer

Where what a callback comes to depends on nothing but callee and arguments, a rule makes of an
incoming value what it made of it before: asking a rule about a list leaves the world as it is. So
each rule has a result for each value, if it lets the value in, and a condition on the values of a
list together. Copies of member containers are apart, since making them adds to the store.
-/

namespace GraphLang

variable {σ ε α β : Type}

/-- What callbacks come to, where that depends on nothing but callee and arguments. -/
abbrev Answers (ε : Type) := Value → List Value → Except (InvokeError ε) Value

/-- Calls back by answering, and does nothing else. -/
def Invoke.answering (answer : Answers ε) : Invoke σ ε := fun callee args w =>
  some (answer callee args, w)

/-! ### Actions that leave the world alone -/

/-- The action comes to that result and leaves the world as it is, or fails where there is none. -/
def Act.Settles (a : Act σ ε α) (w : World σ) : Option α → Prop
  | some x => a w = some (.ok x, w)
  | none => ∃ e v, a w = some (.error e, v)

namespace Act.Settles

variable {a : Act σ ε α} {w : World σ} {r : Option α}

theorem pure (x : α) : (Pure.pure x : Act σ ε α).Settles w (some x) := rfl

theorem throw (e : ε) : (MonadExcept.throw e : Act σ ε α).Settles w none := ⟨e, w, rfl⟩

theorem bind {f : α → Act σ ε β} {k : α → Option β} (ha : a.Settles w r)
    (hf : ∀ x, r = some x → (f x).Settles w (k x)) : (a >>= f).Settles w (r.bind k) := by
  cases r with
  | none =>
    obtain ⟨e, v, hrun⟩ := ha
    refine ⟨e, v, ?_⟩
    rw [Act.run_bind, hrun]
  | some x =>
    have hrun : (a >>= f) w = f x w := by
      rw [Act.run_bind, show a w = some (.ok x, w) from ha]
    have hrest := hf x rfl
    rw [Option.bind_some]
    cases hk : k x with
    | none =>
      rw [hk] at hrest
      obtain ⟨e, v, hfail⟩ := hrest
      exact ⟨e, v, hrun.trans hfail⟩
    | some y =>
      rw [hk] at hrest
      exact hrun.trans hrest

theorem map (f : α → β) (ha : a.Settles w r) : (f <$> a).Settles w (r.map f) := by
  rw [map_eq_pure_bind, Option.map_eq_bind]
  exact ha.bind fun x _ => .pure (f x)

theorem of_run_eq {b : Act σ ε α} (h : a w = b w) (hb : b.Settles w r) : a.Settles w r := by
  cases r with
  | none =>
    obtain ⟨e, v, hrun⟩ := hb
    exact ⟨e, v, h.trans hrun⟩
  | some x => exact h.trans hb

/-- A result is replaced by a fixed one. -/
theorem then_pure (ha : a.Settles w r) (y : β) :
    (a >>= fun _ => (Pure.pure y : Act σ ε β)).Settles w (r.map fun _ => y) := by
  rw [Option.map_eq_bind]
  exact ha.bind fun _ _ => .pure y

end Act.Settles

/-! ### What rules make of values -/

/-- Whether what is answered about a value counts as true, if there is an answer. -/
def Answers.holds? (answer : Answers ε) (s : Store) (callee value : Value) : Option Bool :=
  (answer callee [value]).toOption.map s.isTruthy

/-- What a transform makes of a value, if it succeeds. -/
def Transform.result? (answer : Answers ε) (s : Store) (r : Transform) (value : Value) :
    Option Value :=
  match r with
  | .custom _ callee => (answer callee [value]).toOption
  | r => (r.apply s value).toOption

/-- Whether a value is a frozen container. -/
def Store.isFrozen (s : Store) : Value → Bool
  | .graph g => (s.get g).frozen
  | _ => false

namespace Rule

/-- What a rule makes of a value that comes into an unfrozen list, if it lets the value in. -/
def result? (answer : Answers ε) (s : Store) (rule : Rule) (value : Value) : Option Value :=
  match rule with
  | .validate (.predicate _ callee) =>
    if answer.holds? s callee value = some true then some value else none
  | .transform r => r.result? answer s value
  | .conditional predicate whenTrue whenFalse =>
    (answer.holds? s predicate value).bind fun holds =>
      if holds then whenTrue.result? answer s value
      else (whenFalse.map fun r => r.result? answer s value).getD (some value)
  | .freeze .rejectMixed => if s.isFrozen value then none else some value
  | _ => some value

/-- Whether a rule lets a list have these values together. -/
def allows (s : Store) : Rule → List Value → Bool
  | .validate (.maxSize limit), values => values.length ≤ limit
  | .validate .homogeneous, first :: rest => rest.all fun value => s.typeOf value == s.typeOf first
  | _, _ => true

/-- What a rule makes of values that come into an unfrozen list after others, if it lets the list
have all of them. -/
def results? (answer : Answers ε) (s : Store) (rule : Rule) (done values : List Value) :
    Option (List Value) :=
  (values.mapM (rule.result? answer s)).filter fun results => rule.allows s (done ++ results)

/-- The procedure that a rule asks whether it applies. -/
def asked? : Rule → Option Value
  | .validate (.predicate _ callee) => some callee
  | .conditional predicate _ _ => some predicate
  | _ => none

variable {answer : Answers ε} {s : Store} {rule : Rule} {values : List Value}

theorem allows_nil : rule.allows s [] = true := by
  unfold allows
  split <;> simp_all

/-- A rule that lets a list have values lets it have the first ones of them. -/
theorem allows_append {more : List Value} (h : rule.allows s (values ++ more) = true) :
    rule.allows s values = true := by
  cases values with
  | nil => exact allows_nil
  | cons first rest =>
    cases rule with
    | validate x =>
      cases x with
      | maxSize limit =>
        simp only [allows, decide_eq_true_eq, List.length_append] at h ⊢
        omega
      | homogeneous =>
        simp only [allows, List.cons_append, List.all_append, Bool.and_eq_true] at h ⊢
        exact h.1
      | _ => rfl
    | _ => rfl

/-- Only validations look at the values of a list together. -/
theorem allows_of_transformsIncoming (h : rule.transformsIncoming = true) :
    rule.allows s values = true := by
  cases rule with
  | validate x => cases h
  | _ => rfl

/-- A rule that rewrites nothing lets values in as they are. -/
theorem result?_eq_some (h : rule.transformsIncoming = false) {value result : Value}
    (hresult : rule.result? answer s value = some result) : result = value := by
  have hsome {x : Value} (heq : some x = some result) : result = x := (Option.some.inj heq).symm
  cases rule with
  | validate x =>
    cases x with
    | predicate name callee =>
      rw [result?] at hresult
      split at hresult
      · exact hsome hresult
      · cases hresult
    | _ => exact hsome hresult
  | freeze f =>
    cases f with
    | rejectMixed =>
      rw [result?] at hresult
      split at hresult
      · cases hresult
      · exact hsome hresult
    | copyElements => cases h
  | _ => cases h

/-- Only a predicate is asked about a single value. -/
theorem result?_validate {x : Validation} (hx : ∀ name callee, x ≠ .predicate name callee) :
    (validate x).result? answer s = some := by
  cases x with
  | predicate name callee => exact absurd rfl (hx name callee)
  | _ => rfl

/-- A rule that lets a list have all values together is only asked about each one. -/
theorem filter_allows (h : ∀ values, rule.allows s values = true) (r : Option α)
    (f : α → List Value) : r.filter (fun x => rule.allows s (f x)) = r := by
  cases r with
  | none => rfl
  | some x => exact Option.filter_some_pos (h _)

theorem results?_nil {done : List Value} (hdone : rule.allows s done = true) :
    rule.results? answer s done [] = some [] := by
  rw [results?, List.mapM_nil]
  exact Option.filter_some_pos (by rwa [List.append_nil])

/-- Values come in one after the other. -/
theorem results?_cons {done rest : List Value} {value : Value} :
    rule.results? answer s done (value :: rest) =
      ((rule.result? answer s value).filter fun result => rule.allows s (done ++ [result])).bind
        fun result => (rule.results? answer s (done ++ [result]) rest).map (result :: ·) := by
  unfold results?
  rw [List.mapM_cons]
  cases rule.result? answer s value with
  | none => rfl
  | some result =>
    rw [Option.filter_some]
    cases rest.mapM (rule.result? answer s) with
    | none => split <;> rfl
    | some results =>
      change Option.filter _ (some (result :: results)) = _
      rw [Option.filter_some, List.append_cons]
      by_cases hallows : rule.allows s (done ++ [result]) = true
      · rw [if_pos hallows, Option.bind_some, Option.filter_some]
        split <;> rfl
      · rw [if_neg hallows, if_neg (mt allows_append hallows)]
        rfl

/-- A rule that rewrites nothing leaves values as they are. -/
theorem results?_eq_some (h : rule.transformsIncoming = false) {done results : List Value}
    (hresults : rule.results? answer s done values = some results) : results = values := by
  induction values generalizing done results with
  | nil =>
    rw [results?, List.mapM_nil] at hresults
    obtain ⟨heq, -⟩ := Option.filter_eq_some_iff.1 hresults
    exact (Option.some.inj heq).symm
  | cons value rest ih =>
    rw [results?_cons] at hresults
    obtain ⟨result, hfirst, hrest⟩ := Option.bind_eq_some_iff.1 hresults
    obtain ⟨others, hothers, rfl⟩ := Option.map_eq_some_iff.1 hrest
    rw [result?_eq_some h (Option.filter_eq_some_iff.1 hfirst).1, ih hothers]

end Rule

namespace Engine

variable {answer : Answers ε} {w : World σ} {g : GraphId} {c : Container} {rule : Rule}
  {values : List Value} {value : Value}

/-! ### Asking -/

theorem settles_attempt {ε' : Type} (callee : Value) (args : List Value) :
    ((Invoke.answering answer callee args).attempt : Act σ ε' _).Settles w
      (some (answer callee args)) := rfl

theorem settles_store : (Act.store : Act σ ε Store).Settles w (some w.store) := rfl

/-- What an answer to a predicate comes to. -/
def Verdict.ofAnswer (s : Store) : Except (InvokeError ε) Value → Verdict ε
  | .ok result => if s.isTruthy result then .holds else .refused none
  | .error (.raised r) => .refused (some (.predicateRaised (s.display r.exception)))
  | .error (.fatal cause) => .aborted cause

/-- What is left of a verdict for one that goes on only where the predicate holds. -/
def Verdict.passed? : Verdict ε → Option Unit
  | .holds => some ()
  | _ => none

/-- A predicate holds where there is an answer that counts as true. -/
theorem passed?_ofAnswer (s : Store) (callee value : Value) :
    (Verdict.ofAnswer s (answer callee [value])).passed? =
      if answer.holds? s callee value = some true then some () else none := by
  unfold Answers.holds? Verdict.ofAnswer
  cases answer callee [value] with
  | ok result =>
    cases htrue : s.isTruthy result <;> simp [Except.toOption, htrue, Verdict.passed?]
  | error e => cases e <;> simp [Except.toOption, Verdict.passed?]

theorem settles_ask (callee : Value) :
    (ask (.answering answer) callee value).Settles w
      (some (Verdict.ofAnswer w.store (answer callee [value]))) := by
  unfold ask
  refine (settles_attempt callee [value]).bind
    (k := fun answered => some (Verdict.ofAnswer w.store answered)) fun answered _ => ?_
  cases answered with
  | ok result => rfl
  | error e => cases e <;> rfl

theorem settles_runTransform (r : Transform) :
    (runTransform (.answering answer) r value).Settles w (r.result? answer w.store value) := by
  have hbuiltin (hr : ∀ name callee, r ≠ .custom name callee) :
      (runTransform (.answering answer) r value).Settles w (r.apply w.store value).toOption := by
    rw [runTransform]
    · refine settles_store.bind (k := fun s => (r.apply s value).toOption) fun s _ => ?_
      cases happly : r.apply s value with
      | ok result => exact .pure result
      | error cause => exact .throw _
    · exact hr
  cases r with
  | custom name callee =>
    refine (settles_attempt callee [value]).bind (k := Except.toOption) fun answered _ => ?_
    cases answered with
    | ok result => exact .pure result
    | error e =>
      cases e with
      | raised raised => exact ⟨.transformRaised name raised, _, rfl⟩
      | fatal cause => exact .throw _
  | _ => exact hbuiltin (by simp)

theorem settles_transform (answer : Answers ε) (hrule : rule.transformsIncoming = true)
    (hcopy : rule ≠ .freeze .copyElements) (value : Value) :
    (transform (.answering answer) rule value).Settles w
      (rule.result? answer w.store value) := by
  cases rule with
  | validate x => cases hrule
  | transform r => exact settles_runTransform r
  | freeze f =>
    cases f with
    | rejectMixed => cases hrule
    | copyElements => exact absurd rfl hcopy
  | conditional predicate whenTrue whenFalse =>
    unfold transform Rule.result? Answers.holds?
    dsimp only
    refine (settles_attempt predicate [value]).bind
      (k := fun answered => (answered.toOption.map w.store.isTruthy).bind fun holds =>
        if holds = true then whenTrue.result? answer w.store value
        else (whenFalse.map fun r => r.result? answer w.store value).getD (some value))
      fun answered _ => ?_
    cases answered with
    | error e =>
      cases e with
      | raised raised => exact .of_run_eq (Act.run_store_bind _ w) (.throw _)
      | fatal cause => exact .throw _
    | ok result =>
      refine settles_store.bind
        (k := fun s => if s.isTruthy result = true then whenTrue.result? answer w.store value
          else (whenFalse.map fun r => r.result? answer w.store value).getD (some value))
        fun s _ => ?_
      by_cases htrue : s.isTruthy result = true
      · rw [if_pos htrue, if_pos htrue]
        exact settles_runTransform whenTrue
      · rw [if_neg htrue, if_neg htrue]
        cases whenFalse with
        | some r => exact settles_runTransform r
        | none => exact .pure value

theorem settles_rejectMixed_unfrozen (answer : Answers ε)
    (hmutable : (w.store.get g).frozen = false) (rule : Rule) (value : Value) :
    (rejectMixed g rule value : Act σ (MutationError ε) Unit).Settles w
      (((Rule.freeze .rejectMixed).result? answer w.store value).map fun _ => ()) := by
  rw [Rule.result?]
  cases value with
  | graph inner =>
    rw [Store.isFrozen]
    refine .of_run_eq (Act.run_store_bind _ w) ?_
    rw [hmutable]
    cases hfrozen : (w.store.get inner).frozen with
    | false =>
      rw [beq_self_eq_true, Bool.or_true]
      exact .pure ()
    | true =>
      have hne : (inner == g) = false := by
        rw [beq_eq_false_iff_ne]
        rintro rfl
        rw [hmutable] at hfrozen
        cases hfrozen
      rw [hne]
      exact ⟨_, _, rfl⟩
  | _ => exact .pure ()

end Engine

end GraphLang
