import GraphLang.Eval.Session
import Mathlib.Data.List.Forall2
import Mathlib.Order.Defs.PartialOrder

/-!
# Bridges between runs

Two runs of one program can number their scopes differently: a number that one of them gives away
again may still be in use in the other one. A bridge joins the numbers of the one run to those of
the other one and says which containers both runs know. Two values correspond across a bridge if
they differ at most in the numbers of closures, and then a program cannot tell them apart.
-/

namespace GraphLang

/-- The kinds of nodes that a run refers to. Values are only reached through their variables. -/
inductive NodeKind where
  /-- Scopes. -/
  | scope
  /-- Variables. -/
  | var
  /-- Closures. -/
  | closure
deriving DecidableEq

/-- The kind of a node that a run refers to. -/
def ScopeNode.kind? : ScopeNode → Option NodeKind
  | .scope .. => some .scope
  | .variable .. => some .var
  | .binding _ => none
  | .closure _ => some .closure

/-- What the numbers of one run stand for in another one. -/
structure Bridge where
  /-- The node of the first run stands for the node of the second one. -/
  joins : NodeKind → Nat → Nat → Prop
  /-- Both runs know the container. -/
  shares : GraphId → Prop
  /-- No number stands for two others, and no two numbers for one. -/
  oneToOne : ∀ {k l n n' m m'}, joins k n n' → joins l m m' → (n = m ↔ n' = m')

namespace Bridge

variable {B C : Bridge}

/-- A larger bridge joins more nodes and shares more containers. -/
instance : Preorder Bridge where
  le B C := (∀ {k n n'}, B.joins k n n' → C.joins k n n') ∧ ∀ {g}, B.shares g → C.shares g
  le_refl _ := ⟨id, id⟩
  le_trans _ _ _ h h' := ⟨h'.1 ∘ h.1, h'.2 ∘ h.2⟩

theorem joins_mono (h : B ≤ C) {k : NodeKind} {n n' : Nat} (hn : B.joins k n n') :
    C.joins k n n' := h.1 hn

theorem shares_mono (h : B ≤ C) {g : GraphId} (hg : B.shares g) : C.shares g := h.2 hg

/-- The bridge with more containers. -/
def share (B : Bridge) (more : GraphId → Prop) : Bridge :=
  { B with shares := fun g => B.shares g ∨ more g }

theorem le_share (B : Bridge) (more : GraphId → Prop) : B ≤ B.share more := ⟨id, Or.inl⟩

/-- Neither number is joined to any. -/
structure Free (B : Bridge) (n n' : Nat) : Prop where
  apart : ∀ {k m m'}, B.joins k m m' → m ≠ n ∧ m' ≠ n'

/-- The bridge with two more nodes joined. -/
def join (B : Bridge) (k : NodeKind) {n n' : Nat} (h : B.Free n n') : Bridge where
  joins l m m' := B.joins l m m' ∨ l = k ∧ m = n ∧ m' = n'
  shares := B.shares
  oneToOne := by
    rintro l l' m m' x x' (hm | ⟨-, rfl, rfl⟩) (hx | ⟨-, rfl, rfl⟩)
    · exact B.oneToOne hm hx
    · exact iff_of_false (h.apart hm).1 (h.apart hm).2
    · exact iff_of_false (h.apart hx).1.symm (h.apart hx).2.symm
    · exact iff_of_true rfl rfl

theorem le_join (B : Bridge) (k : NodeKind) {n n' : Nat} (h : B.Free n n') : B ≤ B.join k h :=
  ⟨Or.inl, id⟩

theorem joins_join (B : Bridge) (k : NodeKind) {n n' : Nat} (h : B.Free n n') :
    (B.join k h).joins k n n' := Or.inr ⟨rfl, rfl, rfl⟩

end Bridge

/-- A relation between what two runs come to, which depends on the bridge between them. -/
abbrev Span (α : Type) := Bridge → α → α → Prop

/-- What is related stays so across larger bridges. -/
def Span.Grows {α : Type} (A : Span α) : Prop :=
  ∀ {B C : Bridge}, B ≤ C → ∀ {a a'}, A B a a' → A C a a'

namespace Span

variable {α : Type} {A : Span α} {B C : Bridge}

/-- Both runs come to the same. -/
def same : Span α := fun _ => Eq

/-- Both runs come to lists of as many things, related one by one. -/
def each (A : Span α) : Span (List α) := fun B => List.Forall₂ (A B)

/-- Both runs come to nothing, or to things that are related. -/
def maybe (A : Span α) : Span (Option α) := fun B => Option.Rel (A B)

theorem grows_same : (same : Span α).Grows := fun _ _ _ h => h

theorem Grows.each (hA : A.Grows) : A.each.Grows := fun h _ _ => List.Forall₂.imp fun _ _ => hA h

theorem Grows.maybe (hA : A.Grows) : A.maybe.Grows := by
  rintro B C h a a' (ha | -)
  · exact .some (hA h ha)
  · exact .none

end Span

/-! ### Values -/

/-- The values differ at most in the numbers of closures, and what is in them is on the bridge. -/
inductive Value.Across (B : Bridge) : Value → Value → Prop
  | nil : Across B .nil .nil
  | bool (b : Bool) : Across B (.bool b) (.bool b)
  | int (i : Int64) : Across B (.int i) (.int i)
  | float (x : Float) : Across B (.float x) (.float x)
  | str (s : String) : Across B (.str s) (.str s)
  | graph {g : GraphId} (h : B.shares g) : Across B (.graph g) (.graph g)
  | function {f : FunctionValue} {c : ClosureId} (h : B.joins .closure f.closure c) :
    Across B (.function f) (.function { f with closure := c })
  | native {n : Native} (h : ∀ name arity, n ≠ .host name arity) : Across B (.native n) (.native n)
  | exception {serial : Nat} {kind message : String} {payload payload' : Value}
    {path : List CallSite} (h : Across B payload payload') :
    Across B (.exception serial kind message payload path)
      (.exception serial kind message payload' path)

variable {B C : Bridge}

theorem Value.grows_across : Span.Grows Value.Across := by
  intro B C h v v' hv
  induction hv with
  | graph hg => exact .graph (h.2 hg)
  | function hc => exact .function (h.1 hc)
  | native hn => exact .native hn
  | exception _ ih => exact .exception ih
  | _ => constructor

namespace Value.Across

variable {v v' x x' : Value}

theorem mono (hv : v.Across B v') (h : B ≤ C) : v.Across C v' := grows_across h hv

theorem exists_joins {f : FunctionValue} (hv : (Value.function f).Across B x) :
    ∃ c, B.joins .closure f.closure c := by
  cases hv with
  | function hc => exact ⟨_, hc⟩

theorem literal (l : Literal) : l.toValue.Across B l.toValue := by
  cases l <;> constructor

theorem key (k : Key) : k.toValue.Across B k.toValue := by
  cases k <;> constructor

theorem ofKey? (hv : v.Across B v') : Key.ofValue? v' = Key.ofValue? v := by
  cases hv <;> rfl

theorem number? (hv : v.Across B v') : v'.number? = v.number? := by
  cases hv <;> rfl

theorem recordedPath (hv : v.Across B v') : v'.recordedPath = v.recordedPath := by
  cases hv <;> rfl

/-- A program cannot tell the two sides of a bridge apart by comparing. -/
theorem same (hv : v.Across B v') (hx : x.Across B x') : v'.same x' = v.same x := by
  cases hv with
  | function hc =>
    cases hx with
    | function hc' =>
      rw [Value.same, Value.same, Bool.eq_iff_iff]
      simp [B.oneToOne hc hc']
    | _ => rfl
  | _ => cases hx <;> rfl

end Value.Across

/-! ### Rules -/

/-- The validations are the same, but for the numbers of closures. -/
inductive Validation.Across (B : Bridge) : Validation → Validation → Prop
  | maxSize (limit : Nat) : Across B (.maxSize limit) (.maxSize limit)
  | acyclic : Across B .acyclic .acyclic
  | singleRoot : Across B .singleRoot .singleRoot
  | homogeneous : Across B .homogeneous .homogeneous
  | predicate (name : String) {callee callee' : Value} (h : callee.Across B callee') :
    Across B (.predicate name callee) (.predicate name callee')

/-- The transforms are the same, but for the numbers of closures. What takes the place of other
values is a literal, as in every rule that a program describes. -/
inductive Transform.Across (B : Bridge) : Transform → Transform → Prop
  | noneToZero : Across B .noneToZero .noneToZero
  | coalesce (l : Literal) : Across B (.coalesce l.toValue) (.coalesce l.toValue)
  | clamp (min max : Literal) :
    Across B (.clamp min.toValue max.toValue) (.clamp min.toValue max.toValue)
  | round (digits : Nat) : Across B (.round digits) (.round digits)
  | lowercase : Across B .lowercase .lowercase
  | uppercase : Across B .uppercase .uppercase
  | trim : Across B .trim .trim
  | lookup {table table' : Value} (l : Literal) (h : table.Across B table') :
    Across B (.lookup table l.toValue) (.lookup table' l.toValue)
  | custom (name : String) {callee callee' : Value} (h : callee.Across B callee') :
    Across B (.custom name callee) (.custom name callee')

/-- The rules are the same, but for the numbers of closures. -/
inductive Rule.Across (B : Bridge) : Rule → Rule → Prop
  | validate {v v' : Validation} (h : v.Across B v') : Across B (.validate v) (.validate v')
  | transform {r r' : Transform} (h : r.Across B r') : Across B (.transform r) (.transform r')
  | conditional {predicate predicate' : Value} {whenTrue whenTrue' : Transform}
    {whenFalse whenFalse' : Option Transform} (h : predicate.Across B predicate')
    (htrue : whenTrue.Across B whenTrue')
    (hfalse : Option.Rel (Transform.Across B) whenFalse whenFalse') :
    Across B (.conditional predicate whenTrue whenFalse)
      (.conditional predicate' whenTrue' whenFalse')
  | freeze (f : FreezeRule) : Across B (.freeze f) (.freeze f)

/-- Rulesets of one name with corresponding rules. -/
structure Ruleset.Across (B : Bridge) (set set' : Ruleset) : Prop where
  name : set'.name = set.name
  rules : Span.each Rule.Across B set.rules set'.rules

theorem Validation.grows_across : Span.Grows Validation.Across := by
  rintro B C h v v' hv
  cases hv with
  | predicate name hc => exact .predicate name (hc.mono h)
  | _ => constructor

theorem Transform.grows_across : Span.Grows Transform.Across := by
  rintro B C h r r' hr
  cases hr with
  | lookup l ht => exact .lookup l (ht.mono h)
  | custom name hc => exact .custom name (hc.mono h)
  | _ => constructor

theorem Rule.grows_across : Span.Grows Rule.Across := by
  rintro B C h rule rule' hrule
  cases hrule with
  | validate hv => exact .validate (Validation.grows_across h hv)
  | transform hr => exact .transform (Transform.grows_across h hr)
  | conditional hp htrue hfalse =>
    exact .conditional (hp.mono h) (Transform.grows_across h htrue)
      (Transform.grows_across.maybe h hfalse)
  | freeze f => exact .freeze f

theorem Ruleset.grows_across : Span.Grows Ruleset.Across :=
  fun h _ _ hset => ⟨hset.name, Rule.grows_across.each h hset.rules⟩

theorem Validation.Across.display {v v' : Validation} (h : v.Across B v') :
    v'.display = v.display := by
  cases h <;> rfl

theorem Transform.Across.display {r r' : Transform} (h : r.Across B r') (s s' : Store)
    (inUse : Option GraphId) : r'.display s' inUse = r.display s inUse := by
  cases h with
  | coalesce l => cases l <;> rfl
  | clamp min max => cases min <;> cases max <;> rfl
  | _ => rfl

theorem Transform.Across.self {r : Transform} (h : r.Across B r)
    (hvalues : ∀ v ∈ r.callbacks, v.Across B v → v.Across C v) : r.Across C r := by
  cases h with
  | lookup l ht => exact .lookup l (hvalues _ List.mem_cons_self ht)
  | custom name hc => exact .custom name (hvalues _ List.mem_cons_self hc)
  | _ => constructor

theorem Transform.Across.callbacks {r r' : Transform} (h : r.Across B r') :
    Span.each Value.Across B r.callbacks r'.callbacks := by
  cases h with
  | coalesce l => exact .cons (.literal l) .nil
  | lookup l h => exact .cons h (.cons (.literal l) .nil)
  | custom name h => exact .cons h .nil
  | _ => exact .nil

namespace Rule.Across

variable {rule rule' : Rule}

/-- Corresponding rules hold corresponding values. -/
theorem callbacks (h : rule.Across B rule') :
    Span.each Value.Across B rule.callbacks rule'.callbacks := by
  cases h with
  | validate hv =>
    cases hv with
    | predicate name hc => exact .cons hc .nil
    | _ => exact .nil
  | transform hr => exact hr.callbacks
  | conditional hp htrue hfalse =>
    refine .cons hp (List.rel_append htrue.callbacks ?_)
    cases hfalse with
    | none => exact .nil
    | some hfalse => exact hfalse.callbacks
  | freeze f => exact .nil

/-- A rule corresponds to itself across a bridge if the values that it holds do. -/
theorem self (h : rule.Across B rule)
    (hvalues : ∀ v ∈ rule.callbacks, v.Across B v → v.Across C v) : rule.Across C rule := by
  cases h with
  | validate hv =>
    cases hv with
    | predicate name hc =>
      exact .validate (.predicate name (hvalues _ List.mem_cons_self hc))
    | _ => exact .validate (by constructor)
  | transform hr => exact .transform (hr.self hvalues)
  | conditional hp htrue hfalse =>
    refine .conditional (hvalues _ List.mem_cons_self hp) (htrue.self fun v hv => hvalues v ?_) ?_
    · exact List.mem_cons_of_mem _ (List.mem_append_left _ hv)
    · cases hfalse with
      | none => exact .none
      | some hfalse =>
        refine .some (hfalse.self fun v hv => hvalues v ?_)
        exact List.mem_cons_of_mem _ (List.mem_append_right _ hv)
  | freeze f => exact .freeze f

theorem display (h : rule.Across B rule') (s s' : Store) (inUse : Option GraphId) :
    rule'.display s' inUse = rule.display s inUse := by
  cases h with
  | validate h => exact h.display
  | transform h => exact h.display s s' inUse
  | conditional _ htrue _ =>
    exact congrArg (fun r => "conditional(" ++ r ++ ")") (htrue.display s s' inUse)
  | freeze f => cases f <;> rfl

theorem transformsIncoming (h : rule.Across B rule') :
    rule'.transformsIncoming = rule.transformsIncoming := by
  cases h <;> rfl

end Rule.Across

/-! ### Descriptions of rules -/

/-- Both runs fail in related ways, or come to related things. -/
inductive Outcomes {ε α : Type} (F : ε → ε → Prop) (A : α → α → Prop) :
    Except ε α → Except ε α → Prop
  | ok {a a' : α} (h : A a a') : Outcomes F A (.ok a) (.ok a')
  | error {e e' : ε} (h : F e e') : Outcomes F A (.error e) (.error e')

namespace Outcomes

variable {ε α β : Type} {F F' : ε → ε → Prop} {A A' : α → α → Prop} {D : β → β → Prop}
  {r r' : Except ε α}

theorem mono (h : Outcomes F A r r') (hF : ∀ {e e'}, F e e' → F' e e')
    (hA : ∀ {a a'}, A a a' → A' a a') : Outcomes F' A' r r' := by
  cases h with
  | ok h => exact .ok (hA h)
  | error h => exact .error (hF h)

theorem bind {f f' : α → Except ε β} (h : Outcomes F A r r')
    (hf : ∀ {a a'}, A a a' → Outcomes F D (f a) (f' a')) :
    Outcomes F D (r >>= f) (r' >>= f') := by
  cases h with
  | ok h => exact hf h
  | error h => exact .error h

end Outcomes

namespace RuleSpec

variable {args args' : List Value}

/-- Corresponding transforms and rests of the arguments. -/
def Taken (B : Bridge) (r r' : Transform × List Value) : Prop :=
  r.1.Across B r'.1 ∧ Span.each Value.Across B r.2 r'.2

theorem next_across (h : Span.each Value.Across B args args') :
    Outcomes Eq (fun r r' => r.1.Across B r'.1 ∧ Span.each Value.Across B r.2 r'.2) (next args)
      (next args') := by
  cases h with
  | nil => exact .error rfl
  | cons hv h => exact .ok ⟨hv, h⟩

theorem toTransform_across (spec : RuleSpec) (h : Span.each Value.Across B args args') :
    Outcomes Eq (Taken B) (spec.toTransform args) (spec.toTransform args') := by
  cases spec with
  | lookup l => exact (next_across h).bind fun hnext => .ok ⟨.lookup l hnext.1, hnext.2⟩
  | custom name => exact (next_across h).bind fun hnext => .ok ⟨.custom name hnext.1, hnext.2⟩
  | noneToZero => exact .ok ⟨.noneToZero, h⟩
  | coalesce l => exact .ok ⟨.coalesce l, h⟩
  | clamp min max => exact .ok ⟨.clamp min max, h⟩
  | round digits => exact .ok ⟨.round digits, h⟩
  | lowercase => exact .ok ⟨.lowercase, h⟩
  | uppercase => exact .ok ⟨.uppercase, h⟩
  | trim => exact .ok ⟨.trim, h⟩
  | _ => exact .error rfl

/-- A description makes corresponding rules of corresponding arguments, or fails in the same way. -/
theorem instantiate_across (spec : RuleSpec) (h : Span.each Value.Across B args args') :
    Outcomes Eq (Rule.Across B) (spec.instantiate args) (spec.instantiate args') := by
  unfold instantiate
  rw [← h.length_eq]
  by_cases hcount : (args.length != spec.argCount) = true
  · rw [if_pos hcount, if_pos hcount]
    exact .error rfl
  · rw [if_neg hcount, if_neg hcount]
    have hplain : Outcomes Eq (Rule.Across B)
        (spec.toTransform args >>= fun r => pure (.transform r.1))
        (spec.toTransform args' >>= fun r => pure (.transform r.1)) :=
      (spec.toTransform_across h).bind fun hr => .ok (.transform hr.1)
    cases spec with
    | maxSize n => exact .ok (.validate (.maxSize n))
    | acyclic => exact .ok (.validate .acyclic)
    | singleRoot => exact .ok (.validate .singleRoot)
    | homogeneous => exact .ok (.validate .homogeneous)
    | predicate name =>
      exact (next_across h).bind fun hcallee => .ok (.validate (.predicate name hcallee.1))
    | conditional t =>
      refine (next_across h).bind fun htest => ?_
      refine (t.toTransform_across htest.2).bind fun htrue => ?_
      exact .ok (.conditional htest.1 htrue.1 .none)
    | conditionalElse t f =>
      refine (next_across h).bind fun htest => ?_
      refine (t.toTransform_across htest.2).bind fun htrue => ?_
      refine (f.toTransform_across htrue.2).bind fun hfalse => ?_
      exact .ok (.conditional htest.1 htrue.1 (.some hfalse.1))
    | rejectMixedFreeze => exact .ok (.freeze .rejectMixed)
    | copyElements => exact .ok (.freeze .copyElements)
    | _ => exact hplain

theorem instantiateAll_across (specs : List RuleSpec) (h : Span.each Value.Across B args args') :
    Outcomes Eq (Span.each Rule.Across B) (instantiateAll specs args)
      (instantiateAll specs args') := by
  induction specs generalizing args args' with
  | nil => exact .ok .nil
  | cons spec rest ih =>
    refine (spec.instantiate_across (List.forall₂_take _ h)).bind fun hrule => ?_
    refine (ih (List.forall₂_drop _ h)).bind fun hrules => ?_
    exact .ok (.cons hrule hrules)

end RuleSpec

/-! ### Signals and errors -/

/-- Corresponding exceptions that left the same frames. -/
structure Raised.Across (B : Bridge) (r r' : Raised) : Prop where
  exception : r.exception.Across B r'.exception
  path : r'.path = r.path

/-- Signals of one kind with corresponding values. -/
inductive Signal.Across (B : Bridge) : Signal → Signal → Prop
  | normal {v v' : Value} (h : v.Across B v') : Across B (.normal v) (.normal v')
  | returning {v v' : Value} (h : v.Across B v') : Across B (.returning v) (.returning v')
  | breaking : Across B .breaking .breaking
  | continuing : Across B .continuing .continuing
  | raised {r r' : Raised} (h : r.Across B r') : Across B (.raised r) (.raised r')

/-- The same error, or corresponding exceptions that nobody caught. -/
inductive EvalError.Across (B : Bridge) : EvalError → EvalError → Prop
  | plain {e : EvalError} (h : ∀ exception path, e ≠ .uncaught exception path) : Across B e e
  | uncaught {x x' : Value} {path : List CallSite} (h : x.Across B x') :
    Across B (.uncaught x path) (.uncaught x' path)

/-- The same failure of a change, or corresponding exceptions of a transform. -/
inductive MutationError.Across (B : Bridge) : MutationError String → MutationError String → Prop
  | plain {e : MutationError String} (h : ∀ rule raised, e ≠ .transformRaised rule raised) :
    Across B e e
  | raised {rule : String} {r r' : Raised} (h : r.Across B r') :
    Across B (.transformRaised rule r) (.transformRaised rule r')

/-- The same failure of a callback, or corresponding exceptions. -/
inductive InvokeError.Across (B : Bridge) : InvokeError String → InvokeError String → Prop
  | raised {r r' : Raised} (h : r.Across B r') : Across B (.raised r) (.raised r')
  | fatal (text : String) : Across B (.fatal text) (.fatal text)

/-- The same change with corresponding values. -/
inductive Mutation.Across (B : Bridge) : Mutation → Mutation → Prop
  | insert {v v' : Value} (h : v.Across B v') : Across B (.insert v) (.insert v')
  | set (i : Nat) {v v' : Value} (h : v.Across B v') : Across B (.set i v) (.set i v')
  | put (key : Key) {v v' : Value} (h : v.Across B v') : Across B (.put key v) (.put key v')
  | remove (target : Target) : Across B (.remove target) (.remove target)
  | addMember {v v' : Value} (h : v.Across B v') (parent : Option (Nat × String)) :
    Across B (.addMember v parent) (.addMember v' parent)
  | link (source target : Nat) (name : String) {data data' : Option Value}
    (h : Option.Rel (Value.Across B) data data') :
    Across B (.link source target name data) (.link source target name data')

/-- The same outcome of a change, or corresponding values. -/
inductive Container.Applied.Across (B : Bridge) : Container.Applied → Container.Applied → Prop
  | node (n : Nat) : Across B (.node n) (.node n)
  | edge (e : Nat) : Across B (.edge e) (.edge e)
  | value {v v' : Value} (h : v.Across B v') : Across B (.value v) (.value v')

theorem Raised.grows_across : Span.Grows Raised.Across :=
  fun h _ _ hr => ⟨hr.exception.mono h, hr.path⟩

theorem Signal.grows_across : Span.Grows Signal.Across := by
  rintro B C h s s' hs
  cases hs with
  | normal hv => exact .normal (hv.mono h)
  | returning hv => exact .returning (hv.mono h)
  | breaking => exact .breaking
  | continuing => exact .continuing
  | raised hr => exact .raised (Raised.grows_across h hr)

theorem EvalError.grows_across : Span.Grows EvalError.Across := by
  rintro B C h e e' he
  cases he with
  | plain hplain => exact .plain hplain
  | uncaught hx => exact .uncaught (hx.mono h)

theorem Mutation.grows_across : Span.Grows Mutation.Across := by
  rintro B C h m m' hm
  cases hm with
  | insert hv => exact .insert (hv.mono h)
  | set i hv => exact .set i (hv.mono h)
  | put key hv => exact .put key (hv.mono h)
  | remove target => exact .remove target
  | addMember hv parent => exact .addMember (hv.mono h) parent
  | link source target name hdata =>
    exact .link source target name (Value.grows_across.maybe h hdata)

theorem Container.Applied.grows_across : Span.Grows Container.Applied.Across := by
  rintro B C h a a' ha
  cases ha with
  | node n => exact .node n
  | edge e => exact .edge e
  | value hv => exact .value (hv.mono h)

namespace Raised.Across

theorem new {v v' : Value} (h : v.Across B v') : (Raised.new v).Across B (.new v') :=
  ⟨h, h.recordedPath⟩

theorem leave {r r' : Raised} (h : r.Across B r') (site : CallSite) :
    (r.leave site).Across B (r'.leave site) := by
  unfold Raised.leave
  rw [h.path]
  split
  · exact h
  · exact ⟨h.exception, rfl⟩

end Raised.Across

theorem Signal.Across.kind {s s' : Signal} (h : s.Across B s') : s'.kind = s.kind := by
  cases h <;> rfl

theorem Signal.Across.isNormal {s s' : Signal} (h : s.Across B s') : s'.isNormal = s.isNormal := by
  cases h <;> rfl

namespace Mutation.Across

variable {m m' : Mutation}

theorem incoming? (h : m.Across B m') :
    Option.Rel (Value.Across B) m.incoming? m'.incoming? := by
  cases h with
  | remove target => exact .none
  | link _ _ _ hdata => exact hdata
  | _ => exact .some (by assumption)

theorem incomingMember? (h : m.Across B m') :
    Option.Rel (Value.Across B) m.incomingMember? m'.incomingMember? := by
  cases h with
  | remove target => exact .none
  | link _ _ _ hdata => exact .none
  | _ => exact .some (by assumption)

theorem withIncoming (h : m.Across B m') {v v' : Value} (hv : v.Across B v') :
    (m.withIncoming v).Across B (m'.withIncoming v') := by
  cases h with
  | insert => exact .insert hv
  | set i => exact .set i hv
  | put key => exact .put key hv
  | remove target => exact .remove target
  | addMember _ parent => exact .addMember hv parent
  | link source target name hdata =>
    cases hdata with
    | some => exact .link source target name (.some hv)
    | none => exact .link source target name .none

theorem describe (h : m.Across B m') : m'.describe = m.describe := by
  cases h <;> rfl

end Mutation.Across

end GraphLang
