import GraphLang.Proofs.Rule.Forming
import GraphLang.Proofs.Rule.Retroactive
import GraphLang.Proofs.Rule.Retyping
import GraphLang.Proofs.Store.DeepCopy

/-!
# What a copy shares with its original

A rule that copies puts a deep copy in the place of a container that is inserted. The copy is made
along the values of nodes, and everything that these lead to is new and unfrozen. Values on edges
and payloads of exceptions are taken over as they are: a container that they refer to is shared by
the copy and the original. Where there is no such container, the copy has nothing in common with the
original, unless this holds the container into which the copy goes.
-/

namespace GraphLang

open Container (Applied)
open Relation (ReflTransGen)

variable {σ ε : Type}

/-- The container that the payload of exceptions, however nested, leads to, or the closure. -/
inductive Reference where
  /-- A closure. -/
  | closure (c : ClosureId)
  /-- A container. -/
  | container (g : GraphId)
deriving Repr, DecidableEq, Inhabited

/-- What a value refers to: the closure of a function, a container, or what the payload of an
exception refers to. -/
def Value.reference? : Value → Option Reference
  | .function f => some (.closure f.closure)
  | .graph g => some (.container g)
  | .exception _ _ _ payload _ => payload.reference?
  | _ => none

namespace Store

variable {s t : Store} {g x y r : Nat}

/-- A value at a node or on an edge of the first container refers to the second one: it is that
container, or an exception whose payload refers to it. -/
def Refers (s : Store) (g h : GraphId) : Prop :=
  ∃ v : Value, v.reference? = some (.container h) ∧
    ((∃ n, (s.get g).value? n = some v) ∨
      ∃ e edge, (s.get g).graph.edge? e = some edge ∧ edge.weight.data = some v)

/-- Of the values of a container, only containers in nodes refer to containers. -/
structure Bare (s : Store) (g : GraphId) : Prop where
  /-- A value of a node that refers to a container is that container. -/
  node : ∀ n v h, (s.get g).value? n = some v → v.reference? = some (.container h) → v = .graph h
  /-- No value on an edge refers to a container. -/
  edge : ∀ e edge v h, (s.get g).graph.edge? e = some edge → edge.weight.data = some v →
    v.reference? ≠ some (.container h)

/-- What the nodes of a container hold, it refers to. -/
theorem Nests.refers (h : s.Nests x y) : s.Refers x y := by
  obtain ⟨n, hn⟩ := h
  exact ⟨.graph y, rfl, Or.inl ⟨n, hn⟩⟩

/-- A container that refers to none. -/
theorem bare_of_not_refers (h : ∀ y, ¬s.Refers x y) : s.Bare x where
  node n v y hvalue hv := absurd ⟨v, hv, Or.inl ⟨n, hvalue⟩⟩ (h y)
  edge e edge v y hedge hdata hv := h y ⟨v, hv, Or.inr ⟨e, edge, hedge, hdata⟩⟩

/-- Whether a container refers to none can be seen by going through its nodes and edges. -/
theorem not_refers_of_all
    (hnodes : (s.get x).graph.nodes.all (fun p => p.2.value.reference?.isNone) = true)
    (hedges : (s.get x).graph.edgeList.all (fun p => p.2.weight.data.isNone) = true) :
    ¬s.Refers x y := by
  rintro ⟨v, hv, ⟨n, hvalue⟩ | ⟨e, edge, hedge, hdata⟩⟩
  · obtain ⟨m, hm, rfl⟩ := Option.map_eq_some_iff.1 hvalue
    have hnone := List.all_eq_true.1 hnodes (n, m) (SlotGraph.mem_nodes.2 hm)
    dsimp only at hnone
    rw [hv] at hnone
    cases hnone
  · have hmem := SlotGraph.mem_edgesOf.2 ⟨List.mem_range.2 (SlotGraph.edge?_lt hedge), hedge⟩
    have hnone := List.all_eq_true.1 hedges (e, edge) hmem
    dsimp only at hnone
    rw [hdata] at hnone
    cases hnone

/-! ### What a copy refers to -/

theorem refers_congr (h : s.get x = t.get x) : s.Refers x y ↔ t.Refers x y := by
  unfold Refers
  rw [h]

theorem nests_congr (h : s.get x = t.get x) : s.Nests x y ↔ t.Nests x y := by
  unfold Nests NestsAt
  rw [h]

/-- What a copy of a container refers to its nodes hold, if that is so for the original. -/
theorem nests_of_refers_duplicate (hle : s.graphs.size ≤ x)
    (hlt : x < (s.duplicate g).2.graphs.size) (hbare : s.Bare (s.origin g x))
    (hrefers : (s.duplicate g).2.Refers x y) : (s.duplicate g).2.Nests x y := by
  obtain ⟨v, hv, ⟨n, hvalue⟩ | ⟨e, edge, hedge, hdata⟩⟩ := hrefers
  · refine ⟨n, ?_⟩
    rw [get_duplicate_of_le hle hlt, value?_renamed] at hvalue
    obtain ⟨v', hvalue', rfl⟩ := Option.map_eq_some_iff.1 hvalue
    cases v' with
    | graph z =>
      cases hv
      exact (nestsAt_duplicate hle hlt).2 ⟨z, hvalue', rfl⟩
    | exception serial kind message payload path => cases hbare.node n _ y hvalue' hv
    | _ => cases hv
  · rw [get_duplicate_of_le hle hlt] at hedge
    exact absurd hv (hbare.edge e edge v y hedge hdata)

/-- The second store has a copy of a container in addition to what the first one has, and no other
container than the one into which the copy goes has changed. -/
structure Copied (s t : Store) (g r into : GraphId) : Prop where
  /-- The number of the copy. -/
  number : r = (s.duplicate g).1
  /-- The container into which it goes was there when the copy was made. -/
  lt : into < s.graphs.size
  /-- All others are as the copying left them. -/
  get_eq : ∀ x, x ≠ into → t.get x = (s.duplicate g).2.get x

namespace Copied

variable {into : Nat} (h : s.Copied t g r into)

include h

theorem get_new (hle : s.graphs.size ≤ x) : t.get x = (s.duplicate g).2.get x :=
  h.get_eq x (Nat.ne_of_gt (Nat.lt_of_lt_of_le h.lt hle))

/-- Along the values of nodes, the copy leads to new containers only. They are not frozen, and their
edges are those of containers that the original leads to. -/
theorem new_of_nests (hpath : ReflTransGen t.Nests r x) : s.graphs.size ≤ x ∧
    (t.get x).frozen = false ∧ ∃ y, ReflTransGen s.Nests g y ∧
      ∀ e, (t.get x).graph.edge? e = (s.get y).graph.edge? e := by
  rw [h.number] at hpath
  obtain ⟨hle, hlt⟩ := new_of_path
    (fun y z hle _ hnests => (nests_congr (h.get_new hle)).1 hnests) hpath
  rw [h.get_new hle, get_duplicate_of_le hle hlt]
  exact ⟨hle, rfl, _, reached_origin hle hlt, fun e => rfl⟩

/-- Where values on edges and payloads of exceptions refer to no container, the copy leads to new
containers only, along whatever values. -/
theorem new_of_refers (hbare : ∀ y, ReflTransGen s.Nests g y → s.Bare y)
    (hpath : ReflTransGen t.Refers r x) : s.graphs.size ≤ x ∧ (t.get x).frozen = false := by
  rw [h.number] at hpath
  obtain ⟨hle, hlt⟩ := new_of_path (fun y z hle hlt hrefers =>
    nests_of_refers_duplicate hle hlt (hbare _ (reached_origin hle hlt))
      ((refers_congr (h.get_new hle)).1 hrefers)) hpath
  rw [h.get_new hle, get_duplicate_of_le hle hlt]
  exact ⟨hle, rfl⟩

/-- The original leads to old containers only, unless it leads to the one into which the copy
goes. -/
theorem old_of_refers (hold : ∀ y, ReflTransGen s.Refers g y → y < s.graphs.size ∧ y ≠ into)
    (hpath : ReflTransGen t.Refers g x) : x < s.graphs.size := by
  suffices ReflTransGen s.Refers g x from (hold x this).1
  induction hpath with
  | refl => exact .refl
  | @tail y z _ hrefers ih =>
    obtain ⟨hlt, hne⟩ := hold y ih
    have hsame : t.get y = s.get y := by
      rw [h.get_eq y hne, Store.get, Store.get, getElem?_duplicate_of_lt hlt]
    exact ih.tail ((refers_congr hsame).1 hrefers)

end Copied

end Store

namespace Engine

variable {invoke : Invoke σ ε} {g : GraphId} {c : Container} {u v w : World σ} {m : Mutation}
  {a : Applied} {value stored : Value}

/-! ### The last rule copies -/

/-- The last of the rules gets what the earlier ones have made of the value. -/
theorem transformAll_concat {earlier : List Rule} {rule : Rule}
    (h : transformAll invoke (earlier ++ [rule]) value u = some (.ok stored, v)) :
    ∃ source t, transformAll invoke earlier value u = some (.ok source, t) ∧
      transform invoke rule source t = some (.ok stored, v) := by
  induction earlier generalizing value u with
  | nil =>
    obtain ⟨x, t, hrule, hrest⟩ := Act.run_bind_eq_ok.1 h
    cases hrest
    exact ⟨value, u, rfl, hrule⟩
  | cons first earlier ih =>
    obtain ⟨x, t, hfirst, hrest⟩ := Act.run_bind_eq_ok.1 h
    obtain ⟨source, t', hearlier, hrule⟩ := ih hrest
    exact ⟨source, t', Act.run_bind_eq_ok.2 ⟨x, t, hfirst, hearlier⟩, hrule⟩

/-- A change that succeeds with a last rule that copies commits a copy of what the earlier rules
have made of the incoming value. -/
theorem copied_of_apply {earlier : List Rule} (hc : w.store.graphs[g]? = some c)
    (hrules : c.rules.filter (·.transformsIncoming) = earlier ++ [.freeze .copyElements])
    (hvalue : m.incoming? = some value) (h : apply invoke g m w = some (.ok a, v)) :
    ∃ source stored t t' u u', w.store.Led invoke t.store ∧
      transformAll invoke earlier value t' = some (.ok source, t) ∧
      unfrozenCopy source t = some ((.ok stored : Except (MutationError ε) Value), u) ∧
      commit g (m.withIncoming stored) u = some ((.ok a : Except (MutationError ε) Applied), u') ∧
      v.store = u'.store := by
  have hmutable : c.frozen = false := by
    by_contra hfrozen
    rw [Bool.not_eq_false] at hfrozen
    cases (run_apply_frozen hc hfrozen invoke m).symm.trans h
  rw [run_apply hc hmutable] at h
  obtain ⟨_, w', hpreflight, h⟩ := Act.run_bind_eq_ok.1 h
  obtain ⟨m', u, hgovern, h⟩ := Act.run_bind_eq_ok.1 h
  obtain ⟨a', u', hcommit, h⟩ := Act.run_bind_eq_ok.1 h
  rw [Act.run_bind, Act.run_report] at h
  cases h
  obtain rfl : w' = w := by
    cases hcheck : (c.preflight m : Except (MutationError ε) Unit) with
    | ok _ =>
      rw [hcheck] at hpreflight
      cases hpreflight
      rfl
    | error e =>
      rw [hcheck] at hpreflight
      cases hpreflight
  obtain ⟨t', hasked, ⟨hnone, -⟩ | ⟨value', stored, hvalue', rfl, htransform⟩⟩ :=
    rewritten_of_govern hgovern
  · rw [hvalue] at hnone
    cases hnone
  · obtain rfl := Option.some.inj (hvalue'.symm.trans hvalue)
    rw [hrules] at htransform
    obtain ⟨source, t, hearlier, hcopy⟩ := transformAll_concat htransform
    refine ⟨source, stored, t, t', u, u', ?_, hearlier, hcopy, hcommit, World.noted_store ..⟩
    exact (Store.Led.of_traces (.forM c.rules (traces_consult invoke g m)) hasked).trans
      (.of_traces (traces_transformAll invoke earlier value') hearlier)

end Engine

/-! ### Stored copies -/

/-- What a copy in a later store has in common with its original in an earlier one, where so many
containers were there at first. -/
structure Store.Isolated (s t : Store) (size : Nat) (g r into : GraphId) : Prop where
  /-- Along the values of nodes, the copy leads to unfrozen new containers only, whose edges are
  those of containers that the original leads to. -/
  nests : ∀ x, ReflTransGen t.Nests r x → size ≤ x ∧ (t.get x).frozen = false ∧
    ∃ y, ReflTransGen s.Nests g y ∧ ∀ e, (t.get x).graph.edge? e = (s.get y).graph.edge? e
  /-- Where these edges and the payloads of exceptions refer to no container, the copy leads to
  unfrozen new containers only, along whatever values. -/
  refers : (∀ y, ReflTransGen s.Nests g y → s.Bare y) →
    ∀ x, ReflTransGen t.Refers r x → size ≤ x ∧ (t.get x).frozen = false
  /-- Then it leads to nothing that the original leads to, unless that leads to the container into
  which the copy goes. -/
  apart : (∀ y, ReflTransGen s.Nests g y → s.Bare y) →
    (∀ y, ReflTransGen s.Refers g y → y < s.graphs.size ∧ y ≠ into) →
    ∀ x, ReflTransGen t.Refers g x → ¬ReflTransGen t.Refers r x

theorem Store.Copied.isolated {s t : Store} {g r into : GraphId} {size : Nat}
    (h : s.Copied t g r into) (hsize : size ≤ s.graphs.size) : s.Isolated t size g r into where
  nests x hpath := by
    obtain ⟨hle, hrest⟩ := h.new_of_nests hpath
    exact ⟨hsize.trans hle, hrest⟩
  refers hbare x hpath := by
    obtain ⟨hle, hmutable⟩ := h.new_of_refers hbare hpath
    exact ⟨hsize.trans hle, hmutable⟩
  apart hbare hold x hpath hpath' :=
    Nat.not_lt.2 (h.new_of_refers hbare hpath').1 (h.old_of_refers hold hpath)

open Engine in
/-- The last rewriting rule of a container copies, and a change with an incoming value succeeds.
Then it is made with what the earlier rules make of the value, and in the place of a container, with
an unfrozen copy that leads to new containers only along the values of nodes. The edges are taken
over from the original. If nothing on them and no payload of an exception refers to a container, the
copy has nothing in common with the original, unless that leads to the container that was
changed. -/
theorem stored_copy_isolated {invoke : Invoke σ ε} {g : GraphId} {c : Container} {m : Mutation}
    {earlier : List Rule} {value : Value} {w v : World σ} {a : Applied}
    (hkinds : invoke.KeepsKinds) (hforms : invoke.Forms g) (hc : w.store.graphs[g]? = some c)
    (hformed : c.Formed)
    (hrules : c.rules.filter (·.transformsIncoming) = earlier ++ [.freeze .copyElements])
    (hvalue : m.incoming? = some value) (h : apply invoke g m w = some (.ok a, v)) :
    ∃ source stored t t' d d', w.store.Led invoke t.store ∧
      transformAll invoke earlier value t' = some (.ok source, t) ∧
      t.store.graphs[g]? = some d ∧ v.store.graphs[g]? = some d' ∧
      d.model.Step (m.withIncoming stored) a d'.model ∧
      ((∀ h, source ≠ .graph h) → stored = source) ∧
      ∀ h, source = .graph h → ∃ r, stored = .graph r ∧
        t.store.Isolated v.store w.store.graphs.size h r g := by
  obtain ⟨source, stored, t, t', u, u', hled, hearlier, hcopy, hcommit, hstore⟩ :=
    copied_of_apply hc hrules hvalue h
  obtain ⟨d, hd, hformed', -⟩ := hled.forms hforms hc hformed
  have hlt := (Array.getElem?_eq_some_iff.1 hd).1
  have hspares : t.store.Spares u.store := by
    obtain ⟨copy, u'', hrun, hspares, -⟩ := run_unfrozenCopy (ε := ε) g source t
    cases hrun.symm.trans hcopy
    exact hspares
  have hkept : u.store.graphs[g]? = some d := (hspares.getElem? hlt).trans hd
  obtain ⟨e, herror⟩ | ⟨a', d', hmade, -, -, -, hstep⟩ :=
    commit_cases (ε := ε) hkept hformed' (m.withIncoming stored)
  · cases herror.symm.trans hcommit
  cases hmade.symm.trans hcommit
  refine ⟨source, stored, t, t', d, d', hled, hearlier, hd, ?_, hstep, fun hother => ?_, ?_⟩
  · rw [hstore]
    exact getElem?_set hkept d'
  · cases source with
    | graph h => exact absurd rfl (hother h)
    | _ =>
      cases hcopy
      rfl
  · rintro h rfl
    cases hcopy
    refine ⟨_, rfl, Store.Copied.isolated ⟨rfl, hlt, fun x hne => ?_⟩
      (hled.keepsKinds hkinds).size_le⟩
    rw [hstore]
    exact Store.get_set_of_ne hne d'

/-! ### Lists that copy -/

/-- An empty list whose only rule copies. -/
def copyingList : Container := { Container.new .list with rules := [.freeze .copyElements] }

/-- A list that copies, and a list of one. -/
def besideOne : World Unit := .holding #[copyingList, .ofElements [.int 1]]

/-- The list of one is inserted into the list that copies. What is stored leads to new containers
only and has nothing in common with it. -/
theorem copy_of_one : ∃ a v r,
    Engine.apply answerTrue 0 (.insert (.graph 1)) besideOne = some (.ok a, v) ∧
    (v.store.get 0).elements = [.graph r] ∧
    (∀ x, ReflTransGen v.store.Refers r x → 2 ≤ x ∧ (v.store.get x).frozen = false) ∧
    ∀ x, ReflTransGen v.store.Refers 1 x → ¬ReflTransGen v.store.Refers r x := by
  have hruns : (Engine.apply answerTrue 0 (.insert (.graph 1)) besideOne).map (·.1.isOk) =
      some true := by
    cbv
  obtain ⟨⟨a | a, v⟩, happly, hok⟩ := Option.map_eq_some_iff.1 hruns
  · cases hok
  have hkinds : answerTrue.KeepsKinds := by
    rintro callee args u r u' ⟨⟩
    exact .refl
  have hformed : copyingList.Formed := (Container.Formed.new .list).withRules _
  have hrules : copyingList.rules.filter (·.transformsIncoming) =
      [] ++ [.freeze .copyElements] := rfl
  obtain ⟨source, stored, t, t', d, d', hled, hearlier, hd, hd', hstep, -, hisolated⟩ :=
    stored_copy_isolated hkinds (answerTrue_spares 0).forms rfl hformed hrules rfl happly
  cases hearlier
  obtain ⟨r, rfl, hstored⟩ := hisolated 1 rfl
  have hzero := hled.getElem? (answerTrue_spares 0) (c := copyingList) rfl
  obtain rfl := Option.some.inj (hzero.symm.trans hd)
  have hone := hled.getElem? (answerTrue_spares 1) (c := .ofElements [.int 1]) rfl
  have hnothing (y : GraphId) : ¬t.store.Refers 1 y := by
    refine Store.not_refers_of_all ?_ ?_ <;> rw [Store.get_of_getElem? hone] <;> decide +kernel
  have hbare (y : GraphId) (hpath : ReflTransGen t.store.Nests 1 y) : t.store.Bare y := by
    obtain rfl | ⟨z, hnests, -⟩ := hpath.cases_head
    · exact Store.bare_of_not_refers hnothing
    · exact absurd hnests.refers (hnothing z)
  have hold (y : GraphId) (hpath : ReflTransGen t.store.Refers 1 y) :
      y < t.store.graphs.size ∧ y ≠ 0 := by
    obtain rfl | ⟨z, hrefers, -⟩ := hpath.cases_head
    · exact ⟨(Array.getElem?_eq_some_iff.1 hone).1, by decide⟩
    · exact absurd hrefers (hnothing z)
  refine ⟨a, v, r, happly, ?_, hstored.refers hbare, hstored.apart hbare hold⟩
  rw [Store.get_of_getElem? hd']
  have hempty : copyingList.model = .list [] := by cbv
  rw [hempty] at hstep
  generalize hmodel : d'.model = model at hstep
  cases hstep
  unfold Container.model at hmodel
  split at hmodel
  · exact Model.list.inj hmodel
  · cases hmodel
  · cases hmodel

/-- A user graph of two members, with a link that carries a container. -/
def carrying (g : GraphId) : Container :=
  let c := ((Container.new (.user "net")).attach .contains .nil).2
  ((c.attach .contains .nil).2.connect 1 2 (.link "l") (some (.graph g))).2

/-- A user graph is inserted into a list that copies, with a link that carries a list. What is
stored refers to that very list. -/
theorem link_data_shared : ∃ a v r,
    Engine.apply answerTrue 0 (.insert (.graph 1))
      (.holding #[copyingList, carrying 2, .ofElements [.int 1]]) = some (.ok a, v) ∧
    (v.store.get 0).elements = [.graph r] ∧ v.store.Refers r 2 := by
  have hruns : (Engine.apply answerTrue 0 (.insert (.graph 1))
      (.holding #[copyingList, carrying 2, .ofElements [.int 1]])).map (fun p =>
        (p.1.isOk, (p.2.store.get 0).elements,
          ((p.2.store.get 3).graph.edge? 2).bind (·.weight.data))) =
      some (true, [.graph 3], some (.graph 2)) := by
    cbv
  obtain ⟨⟨a | a, v⟩, happly, hfacts⟩ := Option.map_eq_some_iff.1 hruns
  · cases hfacts
  rw [Prod.mk.injEq, Prod.mk.injEq] at hfacts
  obtain ⟨-, helements, hdata⟩ := hfacts
  obtain ⟨edge, hedge, hdata⟩ := Option.bind_eq_some_iff.1 hdata
  exact ⟨a, v, 3, happly, helements, .graph 2, rfl, Or.inr ⟨2, edge, hedge, hdata⟩⟩

end GraphLang
