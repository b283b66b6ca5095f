import GraphLang.Eval.Error
import GraphLang.Eval.Operators
import GraphLang.Proofs.Bridge.Container
import GraphLang.Store.Snapshot

/-!
# Stores across a bridge

Two stores correspond if the containers that both runs know do. Everything that a program can ask of
a value then has the same answer on both sides: its type, its text, whether it counts as true, what
operators and rules make of it, and its snapshot.
-/

namespace GraphLang

variable {B C : Bridge}

/-- The stores number new containers and exceptions alike, and the containers that both runs know
correspond. -/
structure Store.Across (B : Bridge) (s s' : Store) : Prop where
  size : s'.graphs.size = s.graphs.size
  exceptions : s'.exceptions = s.exceptions
  container : ∀ {g}, B.shares g → (s.get g).Across B (s'.get g)
  neat : ∀ {g}, B.shares g → (s.get g).Neat

namespace Store

/-- Both runs come to corresponding results and stores, if they go on knowing new containers. -/
def Leads (B : Bridge) {α : Type} (A : Span α) (r r' : α × Store) : Prop :=
  ∃ more, A (B.share more) r.1 r'.1 ∧ r.2.Across (B.share more) r'.2

/-! ### Containers that are met -/

/-- The same containers are met as long as those that were met hold the same ones. -/
theorem meet_congr {s s' : Store} {P : GraphId → Prop}
    (hnext : ∀ {g}, P g → payloadGraphs (s'.get g) = payloadGraphs (s.get g) ∧
      ∀ h ∈ payloadGraphs (s.get g), P h) (fuel : Nat) (met : List GraphId) {g : GraphId} (hg : P g) :
    s'.meet fuel met g = s.meet fuel met g := by
  induction fuel generalizing met g with
  | zero => rfl
  | succ fuel ih =>
    obtain ⟨hsame, hall⟩ := hnext hg
    rw [meet, meet, hsame]
    split
    · rfl
    · exact List.foldl_ext _ _ _ fun met h hh => ih met (hall h hh)

/-- Both runs know what the nodes of corresponding containers hold. -/
theorem shares_of_mem_payloadGraphs {c c' : Container} (h : c.Across B c') {g : GraphId}
    (hg : g ∈ payloadGraphs c) : B.shares g := by
  obtain ⟨n, hn⟩ := mem_payloadGraphs.1 hg
  obtain ⟨hv, -⟩ | ⟨v, v', hv, -, hacross⟩ := (h.value? n).none_or_some <;> cases hn.symm.trans hv
  cases hacross with
  | graph hg => exact hg

namespace Across

variable {s s' : Store} {v v' x x' : Value} {c c' : Container}

/-- A bridge with more nodes. -/
theorem mono (h : s.Across B s') (hBC : B ≤ C) (hshares : ∀ {g}, C.shares g → B.shares g) :
    s.Across C s' where
  size := h.size
  exceptions := h.exceptions
  container hg := Container.grows_across hBC (h.container (hshares hg))
  neat hg := h.neat (hshares hg)

/-! ### What a program can ask of a value -/

theorem typeOf (h : s.Across B s') (hv : v.Across B v') : s'.typeOf v' = s.typeOf v := by
  cases hv with
  | graph hg =>
    dsimp only [Store.typeOf]
    rw [(h.container hg).kind]
  | _ => rfl

theorem isTruthy (h : s.Across B s') (hv : v.Across B v') : s'.isTruthy v' = s.isTruthy v := by
  cases hv with
  | graph hg =>
    dsimp only [Store.isTruthy]
    rw [(h.container hg).size]
  | _ => rfl

theorem displayWithin (h : s.Across B s') (inUse : Option GraphId) (depth : Nat) (inQuotes : Bool)
    (hv : v.Across B v') :
    s'.displayWithin inUse depth inQuotes v' = s.displayWithin inUse depth inQuotes v := by
  induction depth generalizing inQuotes v v' with
  | zero => cases hv <;> rfl
  | succ depth ih =>
    cases hv with
    | graph hg =>
      have hc := h.container hg
      have helements := hc.elements.map_eq fun hx => ih true hx
      have hentries : (s'.get _).entries.map
          (fun e => e.1.display ++ ": " ++ s'.displayWithin inUse depth true e.2) =
            (s.get _).entries.map fun e =>
              e.1.display ++ ": " ++ s.displayWithin inUse depth true e.2 :=
        hc.entries.map_eq fun he => by rw [he.1, ih true he.2]
      rw [Store.displayWithin, Store.displayWithin]
      split
      · rfl
      · dsimp only
        rw [hc.kind, hc.size, helements, hentries]
    | _ => rfl

theorem display (h : s.Across B s') (hv : v.Across B v') : s'.display v' = s.display v :=
  h.displayWithin _ _ _ hv

theorem diagnostic (h : s.Across B s') (hv : v.Across B v') :
    s'.diagnostic v' = s.diagnostic v := by
  cases hv with
  | graph hg =>
    have htext := h.displayWithin none Store.displayDepth true (.graph hg)
    exact congrArg (fun text => "Graph(" ++ text ++ ")") htext
  | _ => rfl

theorem message (h : s.Across B s') {e e' : EvalError} (he : e.Across B e') :
    e'.message s' = e.message s := by
  unfold EvalError.message
  cases he with
  | plain hplain =>
    cases e with
    | uncaught exception path => exact absurd rfl (hplain exception path)
    | _ => rfl
  | uncaught hx =>
    dsimp only
    rw [h.display hx]

theorem mutationMessage (h : s.Across B s') {e e' : MutationError String} (he : e.Across B e') :
    e'.message s' id = e.message s id := by
  unfold MutationError.message
  cases he with
  | plain hplain =>
    cases e with
    | transformRaised rule raised => exact absurd rfl (hplain rule raised)
    | _ => rfl
  | raised hr =>
    dsimp only
    rw [h.display hr.exception]

/-! ### What rules decide -/

theorem check (h : s.Across B s') {r r' : Validation} (hr : r.Across B r') (hc : c.Across B c')
    {m m' : Mutation} (hm : m.Across B m') : r'.check s' c' m' = r.check s c m := by
  cases hr with
  | maxSize limit => rw [Validation.check, Validation.check, hc.size, hc.grows hm]
  | acyclic =>
    cases hm with
    | link source target => rw [Validation.check, Validation.check, hc.linkPath]
    | _ => rfl
  | singleRoot => exact hc.checkSingleRoot hm
  | homogeneous =>
    rw [Validation.check, Validation.check]
    obtain ⟨hx, hx'⟩ | ⟨x, x', hx, hx', hincoming⟩ := hm.incomingMember?.none_or_some <;>
      rw [hx, hx']
    dsimp only
    rw [hc.members, hc.replaced? hm]
    have hfirst := (hc.valuesOf (c.members.filter fun n => some n != m.replaced? c)).head?
    obtain ⟨hy, hy'⟩ | ⟨y, y', hy, hy', hy''⟩ := hfirst.none_or_some <;> rw [hy, hy']
    dsimp only
    rw [h.typeOf hy'', h.typeOf hincoming]
  | predicate => rfl

theorem checkNow (h : s.Across B s') {r r' : Validation} (hr : r.Across B r')
    (hc : c.Across B c') : r'.checkNow s' c' = r.checkNow s c := by
  cases hr with
  | maxSize limit => rw [Validation.checkNow, Validation.checkNow, hc.size]
  | acyclic => rw [Validation.checkNow, Validation.checkNow, hc.hasLinkCycle]
  | singleRoot => rw [Validation.checkNow, Validation.checkNow, hc.kind, hc.linkRoots]
  | homogeneous =>
    rw [Validation.checkNow, Validation.checkNow, hc.memberValues.map_eq fun hv => h.typeOf hv]
  | predicate => rfl

theorem apply (h : s.Across B s') {r r' : Transform} (hr : r.Across B r') (hv : v.Across B v') :
    Outcomes Eq (Value.Across B) (r.apply s v) (r'.apply s' v') := by
  cases hr with
  | clamp min max =>
    dsimp only [Transform.apply]
    rw [hv.number?]
    split
    · split
      · refine .ok ?_
        split
        · exact .literal min
        · split
          · exact .literal max
          · exact hv
      · exact .ok hv
    · exact .error rfl
  | lookup l ht =>
    cases ht with
    | graph hg =>
      have hc := h.container hg
      dsimp only [Transform.apply]
      rw [hc.kind, hv.ofKey?]
      split
      · refine .ok ?_
        cases Key.ofValue? v with
        | none => exact .literal l
        | some key =>
          obtain ⟨hx, hx'⟩ | ⟨x, x', hx, hx', hacross⟩ := (hc.entry? key).none_or_some
          · rw [Option.bind_some, Option.bind_some, hx, hx']
            exact .literal l
          · rw [Option.bind_some, Option.bind_some, hx, hx']
            exact hacross
      · exact .error rfl
    | _ => exact .error rfl
  | noneToZero =>
    have hkept := hv
    cases hv with
    | nil => exact .ok (.int 0)
    | _ => exact .ok hkept
  | coalesce l =>
    have hkept := hv
    cases hv with
    | nil => exact .ok (.literal l)
    | _ => exact .ok hkept
  | round digits =>
    have hkept := hv
    cases hv with
    | float x => exact .ok (.float (roundTo digits x))
    | _ => exact .ok hkept
  | custom name => exact .error rfl
  | _ =>
    have hkept := hv
    cases hv with
    | str t => exact .ok (.str _)
    | _ => exact .ok hkept

/-! ### Operators -/

open Operators

theorem fit_across (op : BinaryOp) (n : Int) : Outcomes Eq (Value.Across B)
    (match fit n with | some i => .ok (.int i) | none => .error (Fault.overflow op.symbol))
    (match fit n with | some i => .ok (.int i) | none => .error (Fault.overflow op.symbol)) := by
  split
  · exact .ok (.int _)
  · exact .error rfl

theorem intArith_across (op : BinaryOp) (a b : Int64) :
    Outcomes Eq (Value.Across B) (intArith op a b) (intArith op a b) := by
  cases op with
  | add | sub | mul => exact fit_across _ _
  | div =>
    dsimp only [intArith]
    split
    · exact .error rfl
    · exact fit_across .div _
  | mod =>
    dsimp only [intArith]
    split
    · exact .error rfl
    · split
      · exact .error rfl
      · exact fit_across .mod _
  | _ => exact .error rfl

theorem floatArith_across (op : BinaryOp) (a b : Float) :
    Outcomes Eq (Value.Across B) (floatArith op a b) (floatArith op a b) := by
  unfold floatArith
  cases op with
  | div | mod =>
    dsimp only
    split
    · exact .error rfl
    · exact .ok (.float _)
  | add | sub | mul => exact .ok (.float _)
  | _ => exact .error rfl

theorem order (h : s.Across B s') (hv : v.Across B v') (hx : x.Across B x') :
    Operators.order s' v' x' = Operators.order s v x := by
  have htypes := h.typeOf hv
  have htypes' := h.typeOf hx
  cases hv <;> cases hx <;> first
    | rfl
    | (unfold Operators.order; dsimp only [Value.number?]; rw [htypes, htypes'])

theorem concatenated {a b : GraphId} (h : s.Across B s') (ha : B.shares a) (hb : B.shares b) :
    Outcomes Eq (Span.each Value.Across B) (Operators.concatenated s a b)
      (Operators.concatenated s' a b) := by
  unfold Operators.concatenated
  rw [(h.container ha).kind, (h.container hb).kind]
  split
  · exact .ok (List.rel_append (h.container ha).elements (h.container hb).elements)
  · exact .error rfl

theorem unary (h : s.Across B s') (op : UnaryOp) (hv : v.Across B v') :
    Outcomes Eq (Value.Across B) (Operators.unary s op v) (Operators.unary s' op v') := by
  cases op with
  | not =>
    dsimp only [Operators.unary]
    rw [h.isTruthy hv]
    exact .ok (.bool _)
  | neg =>
    have htype := h.typeOf hv
    cases hv with
    | int i =>
      dsimp only [Operators.unary]
      split
      · exact .ok (.int _)
      · exact .error rfl
    | float x => exact .ok (.float _)
    | _ => exact .error (congrArg Fault.negation htype.symm)

theorem logical (h : s.Across B s') (op : LogicalOp) (hv : v.Across B v') (hx : x.Across B x') :
    (Operators.logical s op v x).Across B (Operators.logical s' op v' x') := by
  unfold Operators.logical
  rw [h.isTruthy hv, h.isTruthy hx]
  cases op <;> exact .bool _

theorem listIndex (h : s.Across B s') (hc : c.Across B c') (hv : v.Across B v') :
    Operators.listIndex s' c' v' = Operators.listIndex s c v := by
  have htype := h.typeOf hv
  have htext := h.display hv
  cases hv with
  | int i =>
    dsimp only [Operators.listIndex]
    rw [htext, hc.size]
  | _ => exact congrArg (fun t => Except.error (Fault.listIndex t)) htype

theorem mapKey (h : s.Across B s') (hv : v.Across B v') :
    Operators.mapKey s' v' = Operators.mapKey s v := by
  unfold Operators.mapKey
  rw [hv.ofKey?, h.typeOf hv]

theorem memberHandle (h : s.Across B s') (hv : v.Across B v') :
    Operators.memberHandle s' v' = Operators.memberHandle s v := by
  have htext := h.display hv
  cases hv with
  | int i =>
    dsimp only [Operators.memberHandle]
    rw [htext]
  | _ => exact congrArg (fun t => Except.error (Fault.notHandle t)) htext

theorem index (h : s.Across B s') (hv : v.Across B v') (hx : x.Across B x') :
    Outcomes Eq (Value.Across B) (Operators.index s v x) (Operators.index s' v' x') := by
  have htype := h.typeOf hv
  have htext := h.display hx
  cases hv with
  | @graph g hg =>
    have hc := h.container hg
    dsimp only [Operators.index]
    rw [hc.kind]
    split
    · rw [h.listIndex hc hx, htext, hc.size]
      cases Operators.listIndex s _ x with
      | error fault => exact .error rfl
      | ok i =>
        dsimp only [bind, Except.bind]
        obtain ⟨hy, hy'⟩ | ⟨y, y', hy, hy', hx⟩ := (hc.element? i).none_or_some <;> rw [hy, hy']
        · exact .error rfl
        · exact .ok hx
    · rw [h.mapKey hx]
      cases Operators.mapKey s x with
      | error fault => exact .error rfl
      | ok key =>
        dsimp only [bind, Except.bind]
        obtain ⟨hy, hy'⟩ | ⟨y, y', hy, hy', hx⟩ := (hc.entry? key).none_or_some <;> rw [hy, hy']
        · exact .error rfl
        · exact .ok hx
    · rw [h.memberHandle hx, hc.members]
      cases Operators.memberHandle s x with
      | error fault => exact .error rfl
      | ok n =>
        dsimp only [bind, Except.bind]
        by_cases hmember : (s.get g).members.contains n = true
        · rw [if_pos hmember, if_pos hmember]
          obtain ⟨hy, hy'⟩ | ⟨y, y', hy, hy', hx⟩ := (hc.value? n).none_or_some <;> rw [hy, hy']
          · exact .error rfl
          · exact .ok hx
        · rw [if_neg hmember, if_neg hmember]
          exact .error rfl
  | str t =>
    have htype' := h.typeOf hx
    cases hx with
    | int i =>
      dsimp only [Operators.index]
      rw [htext]
      split
      · exact .ok (.str _)
      · exact .error rfl
    | _ => exact .error (congrArg Fault.textIndex htype'.symm)
  | _ => exact .error (congrArg Fault.notIndexable htype.symm)

/-! ### New containers -/

theorem set (h : s.Across B s') {g : GraphId} (hc : c.Across B c') (hneat : c.Neat) :
    (s.set g c).Across B (s'.set g c') := by
  have hget (x : GraphId) : ((s.set g c).get x = s.get x ∧ (s'.set g c').get x = s'.get x) ∨
      ((s.set g c).get x = c ∧ (s'.set g c').get x = c') := by
    unfold Store.get Store.set
    rw [Array.getElem?_setIfInBounds, Array.getElem?_setIfInBounds, h.size]
    split
    · split
      · exact Or.inr ⟨rfl, rfl⟩
      · next heq hge =>
        have hnone : s.graphs[x]? = none := Array.getElem?_eq_none (heq ▸ Nat.le_of_not_lt hge)
        have hnone' : s'.graphs[x]? = none :=
          Array.getElem?_eq_none (h.size ▸ heq ▸ Nat.le_of_not_lt hge)
        exact Or.inl ⟨by rw [hnone], by rw [hnone']⟩
    · exact Or.inl ⟨rfl, rfl⟩
  refine ⟨?_, h.exceptions, fun {x} hx => ?_, fun {x} hx => ?_⟩
  · rw [Store.set, Array.size_setIfInBounds, h.size, Store.set, Array.size_setIfInBounds]
  · obtain ⟨hold, hold'⟩ | ⟨hnew, hnew'⟩ := hget x
    · rw [hold, hold']
      exact h.container hx
    · rw [hnew, hnew']
      exact hc
  · obtain ⟨hold, -⟩ | ⟨hnew, -⟩ := hget x
    · rw [hold]
      exact h.neat hx
    · rw [hnew]
      exact hneat

/-- New containers that correspond get the same numbers. -/
theorem append (h : s.Across B s') {cs cs' : List Container}
    (hcs : List.Forall₂ (Container.Across (B.share (s.graphs.size ≤ ·))) cs cs')
    (hneat : ∀ c ∈ cs, c.Neat) :
    Store.Across (B.share (s.graphs.size ≤ ·)) { s with graphs := s.graphs ++ cs.toArray }
      { s' with graphs := s'.graphs ++ cs'.toArray } := by
  have hget (x : GraphId) : (x < s.graphs.size ∧
      Store.get { s with graphs := s.graphs ++ cs.toArray } x = s.get x ∧
      Store.get { s' with graphs := s'.graphs ++ cs'.toArray } x = s'.get x) ∨
      (Container.Across (B.share (s.graphs.size ≤ ·))
        (Store.get { s with graphs := s.graphs ++ cs.toArray } x)
        (Store.get { s' with graphs := s'.graphs ++ cs'.toArray } x) ∧
      (Store.get { s with graphs := s.graphs ++ cs.toArray } x).Neat) := by
    unfold Store.get
    rw [Array.getElem?_append, Array.getElem?_append, h.size]
    split
    · next hlt => exact Or.inl ⟨hlt, rfl, rfl⟩
    · simp only [List.getElem?_toArray]
      cases hx : cs[x - s.graphs.size]? with
      | none =>
        rw [List.getElem?_eq_none_iff, hcs.length_eq, ← List.getElem?_eq_none_iff] at hx
        rw [hx]
        exact Or.inr ⟨.new .list, .new .list⟩
      | some c =>
        obtain ⟨hlt, rfl⟩ := List.getElem?_eq_some_iff.1 hx
        have hlt' := hcs.length_eq ▸ hlt
        rw [List.getElem?_eq_getElem hlt']
        exact Or.inr ⟨hcs.get hlt hlt', hneat _ (List.getElem_mem hlt)⟩
  refine ⟨?_, h.exceptions, fun {x} hx => ?_, fun {x} hx => ?_⟩
  · have hlength : cs'.toArray.size = cs.toArray.size := hcs.length_eq.symm
    rw [Array.size_append, Array.size_append, h.size, hlength]
  · obtain ⟨hlt, hold, hold'⟩ | ⟨hacross, -⟩ := hget x
    · rw [hold, hold']
      exact Container.grows_across (B.le_share _)
        (h.container (hx.resolve_right (Nat.not_le_of_lt hlt)))
    · exact hacross
  · obtain ⟨hlt, hold, -⟩ | ⟨-, hneat⟩ := hget x
    · rw [hold]
      exact h.neat (hx.resolve_right (Nat.not_le_of_lt hlt))
    · exact hneat

theorem alloc (h : s.Across B s') (hc : c.Across B c') (hneat : c.Neat) :
    Leads B (fun C g g' => g' = g ∧ C.shares g) (s.alloc c) (s'.alloc c') := by
  refine ⟨(s.graphs.size ≤ ·), ⟨h.size, Or.inr (Nat.le_refl _)⟩, ?_⟩
  have hacross := h.append (.cons (Container.grows_across (B.le_share _) hc) .nil)
    fun d hd => List.mem_singleton.1 hd ▸ hneat
  rwa [Array.append_singleton, Array.append_singleton] at hacross

theorem allocList (h : s.Across B s') {vs vs' : List Value}
    (hvs : Span.each Value.Across B vs vs') :
    Leads B Value.Across (s.allocList vs) (s'.allocList vs') := by
  obtain ⟨more, ⟨hsame, hshared⟩, hstore⟩ := h.alloc (.ofElements hvs) (.ofElements vs)
  refine ⟨more, ?_, hstore⟩
  dsimp only [Store.allocList]
  rw [hsame]
  exact .graph hshared

theorem newException (h : s.Across B s') (kind message : String) {payload payload' : Value}
    (hpayload : payload.Across B payload') (path : List CallSite) :
    Leads B Value.Across (s.newException kind message payload path)
      (s'.newException kind message payload' path) := by
  refine ⟨fun _ => False, ?_, ?_⟩
  · dsimp only [Store.newException]
    rw [h.exceptions]
    exact .exception (hpayload.mono (B.le_share _))
  · have hacross := h.mono (B.le_share fun _ => False) fun hg => hg.resolve_right id
    exact ⟨hacross.size, congrArg (· + 1) hacross.exceptions, hacross.container, hacross.neat⟩

theorem nested (h : s.Across B s') (hc : c.Across B c') :
    s'.nested c' = s.nested c ∧ ∀ g ∈ s.nested c, B.shares g := by
  have hstart : ∀ g ∈ payloadGraphs c, B.shares g := fun g => shares_of_mem_payloadGraphs hc
  have hnext {g : GraphId} (hg : B.shares g) :
      payloadGraphs (s'.get g) = payloadGraphs (s.get g) ∧
        ∀ x ∈ payloadGraphs (s.get g), B.shares x :=
    ⟨(h.container hg).payloadGraphs, fun x => shares_of_mem_payloadGraphs (h.container hg)⟩
  refine ⟨?_, forall_mem_nested hstart fun g hg => (hnext hg).2⟩
  rw [Store.nested, Store.nested, hc.payloadGraphs, h.size]
  exact List.foldl_ext _ _ _ fun met g hg => meet_congr hnext _ met (hstart g hg)

/-- Copies of corresponding containers correspond, with all that is copied along. -/
theorem deepCopy (h : s.Across B s') (hc : c.Across B c') (hneat : c.Neat) :
    Leads B (fun C c c' => c.Across C c' ∧ c.Neat) (s.deepCopy c) (s'.deepCopy c') := by
  obtain ⟨hnested, hshared⟩ := h.nested hc
  have hfresh (g : GraphId) (_ : B.shares g) :
      (B.share (s.graphs.size ≤ ·)).shares (freshId s.graphs.size (s.nested c) g) :=
    Or.inr (Nat.le_add_right _ _)
  rw [deepCopy_eq, deepCopy_eq, hnested, h.size]
  refine ⟨(s.graphs.size ≤ ·), ⟨?_, hneat.renamed _ _⟩, ?_⟩
  · exact hc.renamed (B.le_share _) hfresh
  · refine h.append ?_ fun d hd => ?_
    · refine List.forall₂_map_left_iff.2 (List.forall₂_map_right_iff.2 (List.forall₂_same.2 ?_))
      exact fun g hg => (h.container (hshared g hg)).renamed (B.le_share _) hfresh
    · obtain ⟨g, hg, rfl⟩ := List.mem_map.1 hd
      exact (h.neat (hshared g hg)).renamed _ _

/-- What is not a number on both sides is refused with the names of corresponding types. -/
theorem numbers_across (h : s.Across B s') (hv : v.Across B v') (hx : x.Across B x')
    (op : BinaryOp) : Outcomes Eq (Value.Across B)
      (match v.number?, x.number? with
        | some a, some b => floatArith op a b
        | _, _ => .error (.operandTypes op.symbol (s.typeOf v) (s.typeOf x)) : Except Fault Value)
      (match v'.number?, x'.number? with
        | some a, some b => floatArith op a b
        | _, _ => .error (.operandTypes op.symbol (s'.typeOf v') (s'.typeOf x')) :
        Except Fault Value) := by
  rw [hv.number?, hx.number?]
  split
  · exact floatArith_across op _ _
  · rw [h.typeOf hv, h.typeOf hx]
    exact .error rfl

theorem binary (h : s.Across B s') (op : BinaryOp) (hv : v.Across B v') (hx : x.Across B x') :
    Leads B (fun C => Outcomes Eq (Value.Across C)) (Operators.binary s op v x)
      (Operators.binary s' op v' x') := by
  have hkept {r r' : Except Fault Value} (hr : Outcomes Eq (Value.Across B) r r') :
      Leads B (fun C => Outcomes Eq (Value.Across C)) (r, s) (r', s') := by
    refine ⟨fun _ => False, hr.mono id fun hy => hy.mono (B.le_share _), ?_⟩
    exact h.mono (B.le_share _) fun hg => hg.resolve_right id
  have hnumbers := h.numbers_across hv hx
  cases op with
  | eq =>
    dsimp only [Operators.binary]
    rw [hv.same hx]
    exact hkept (.ok (.bool _))
  | ne =>
    dsimp only [Operators.binary]
    rw [hv.same hx]
    exact hkept (.ok (.bool _))
  | lt | le | gt | ge =>
    dsimp only [Operators.binary]
    rw [h.order hv hx]
    refine hkept ?_
    cases Operators.order s v x with
    | error fault => exact .error rfl
    | ok o => cases o <;> exact .ok (.bool _)
  | add =>
    cases hv with
    | int a =>
      cases hx with
      | int b => exact hkept (intArith_across _ _ _)
      | _ => exact hkept (hnumbers .add)
    | str t =>
      cases hx with
      | str u => exact hkept (.ok (.str _))
      | _ => exact hkept (hnumbers .add)
    | graph ha =>
      cases hx with
      | graph hb =>
        dsimp only [Operators.binary]
        have hlists := h.concatenated ha hb
        generalize Operators.concatenated s _ _ = r, Operators.concatenated s' _ _ = r' at hlists ⊢
        cases hlists with
        | ok hvalues =>
          obtain ⟨more, hlist, hstore⟩ := h.allocList hvalues
          exact ⟨more, .ok hlist, hstore⟩
        | error hfault => exact hkept (.error hfault)
      | _ => exact hkept (hnumbers .add)
    | float a => cases hx <;> exact hkept (hnumbers .add)
    | _ => exact hkept (hnumbers .add)
  | sub | mul | div | mod =>
    cases hv with
    | int a =>
      cases hx with
      | int b => exact hkept (intArith_across _ _ _)
      | _ => exact hkept (hnumbers _)
    | float a => cases hx <;> exact hkept (hnumbers _)
    | _ => exact hkept (hnumbers _)

/-! ### Snapshots -/

theorem snapshot {graph graph' : GraphId → Snapshot Json}
    (hgraph : ∀ {g}, B.shares g → graph' g = graph g) (hv : v.Across B v') :
    v'.snapshot graph' = v.snapshot graph := by
  induction hv with
  | graph hg => exact hgraph hg
  | exception _ ih => rw [Value.snapshot, Value.snapshot, ih]
  | _ => rfl

/-- A member is shown with its links, which carry corresponding values. -/
theorem member (hc : c.Across B c') (hneat : c.Neat) {value value' : Value → Snapshot Json}
    (hvalue : ∀ {v v'}, v.Across B v' → value' v' = value v) {n : Nat} (hn : n ∈ c.members) :
    View.member value' c' n = View.member value c n := by
  have hshown : value' ((c'.value? n).getD .nil) = value ((c.value? n).getD .nil) := by
    obtain ⟨hv, hv'⟩ | ⟨v, v', hv, hv', hacross⟩ := (hc.value? n).none_or_some <;> rw [hv, hv']
    · exact hvalue .nil
    · exact hvalue hacross
  have hedges := (hc.edgesFrom n).mapM_eq (m := Snapshot)
    (f := fun e => View.edge value [.nat e.source, .nat e.target, .str e.tie.label.display] e.tie)
    (g := fun e => View.edge value' [.nat e.source, .nat e.target, .str e.tie.label.display] e.tie)
    fun {e e'} hmem he => by
      rw [hneat.formed.timed.edgesFrom_eq] at hmem
      obtain ⟨hmem, hsource⟩ := List.mem_filter.1 hmem
      have hlink := hneat.formed.isLink e hmem
        (beq_iff_eq.1 hsource ▸ hneat.ne_root_of_mem_members hn)
      unfold View.edge
      rw [he.source, he.target, he.tie.label]
      obtain ⟨hd, hd'⟩ | ⟨d, d', hd, hd', hdata⟩ := (he.tie.data hlink).none_or_some
      · rw [hd, hd']
        rfl
      · rw [hd, hd', Option.toList_some, Option.toList_some, List.mapM_cons, List.mapM_cons,
          hvalue hdata]
        rfl
  unfold View.member
  rw [hshown, hedges]

theorem contents (hc : c.Across B c') (hneat : c.Neat) {value value' : Value → Snapshot Json}
    (hvalue : ∀ {v v'}, v.Across B v' → value' v' = value v) :
    View.contents value' c' = View.contents value c := by
  have helements := hc.elements.mapM_eq (m := Snapshot) fun _ => hvalue
  have hentries := hc.entries.mapM_eq (m := Snapshot)
    (f := fun e => do return Json.arr [e.1.encode, ← value e.2])
    (g := fun e => do return Json.arr [e.1.encode, ← value' e.2])
    fun _ he => by rw [he.1, hvalue he.2]
  have hmembers := (List.forall₂_same.2 fun _ _ => rfl :
    List.Forall₂ Eq c.members c.members).mapM_eq (m := Snapshot) (f := View.member value c)
    (g := View.member value' c') fun {n _} hn heq => heq ▸ member hc hneat hvalue hn
  unfold View.contents
  rw [hc.kind, helements, hentries, hc.members, hmembers]

theorem properties (hc : c.Across B c') (s s' : Store) :
    View.properties s' c' = View.properties s c := by
  have hrules : (c'.rules.map fun r => Json.str (r.display s' none)) =
      c.rules.map fun r => .str (r.display s none) :=
    hc.rules.map_eq fun hrule => by rw [hrule.display s s']
  have hempty : c'.rules.isEmpty = c.rules.isEmpty := by
    rw [Bool.eq_iff_iff, List.isEmpty_iff_length_eq_zero, List.isEmpty_iff_length_eq_zero,
      hc.rules.length_eq]
  unfold View.properties
  rw [hc.frozen, hempty, hrules]

theorem graphWithin (h : s.Across B s') (depth : Nat) {g : GraphId} (hg : B.shares g) :
    (View.anonymous s').graphWithin depth g = (View.anonymous s).graphWithin depth g := by
  induction depth generalizing g with
  | zero => rfl
  | succ depth ih =>
    have hc := h.container hg
    have hbody := contents hc (h.neat hg) fun hv => snapshot (fun {x} hx => ih (g := x) hx) hv
    unfold View.graphWithin
    dsimp only [View.anonymous] at hbody ⊢
    rw [hbody, properties hc s s']

/-- What a host sees of a value. -/
theorem one (h : s.Across B s') (hv : v.Across B v') :
    (View.anonymous s').one v' = (View.anonymous s).one v := by
  unfold View.one View.value
  rw [show (View.anonymous s').store.graphs.size = (View.anonymous s).store.graphs.size from h.size,
    snapshot (fun hg => h.graphWithin _ hg) hv]

end Across

end Store

end GraphLang
