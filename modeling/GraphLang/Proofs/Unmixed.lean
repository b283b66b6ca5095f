import GraphLang.Proofs.Course.Later
import GraphLang.Proofs.Loading
import GraphLang.Proofs.Rule.Writes

/-!
# Frozen containers that hold frozen ones

A container with a rule against mixed freezing can be frozen only when all other containers in it
are frozen. From then on it does not change, and neither do they. So in every state of an evaluator
whatever such a container holds is frozen, though members can be frozen or copied at any time, and
callbacks may bring in containers that no rule has seen.
-/

namespace GraphLang

open Eval

variable {w v : Machine} {s t : Store} {g inner : GraphId} {c : Container}

/-- Every frozen container with a rule against mixed freezing holds no other container that is not
frozen. -/
def Store.Unmixed (s : Store) : Prop :=
  ∀ g c, s.graphs[g]? = some c → c.frozen = true → .freeze .rejectMixed ∈ c.rules →
    ∀ inner, .graph inner ∈ c.memberValues → inner ≠ g → (s.get inner).frozen = true

/-- The procedures of the host leave no frozen container mixed. -/
def Unmixing (natives : String → HostNative) : Prop :=
  ∀ name args (s : Store), s.Unmixed → (natives name args s).2.Unmixed

namespace Store

/-- There is a container where one is frozen. -/
theorem exists_of_frozen (h : (s.get g).frozen = true) : ∃ c, s.graphs[g]? = some c := by
  cases hg : s.graphs[g]? with
  | some c => exact ⟨c, rfl⟩
  | none =>
    rw [get, hg] at h
    cases h

theorem Retains.frozen (h : s.Retains t) (hg : (s.get g).frozen = true) :
    (t.get g).frozen = true := by
  obtain ⟨c, hc⟩ := exists_of_frozen hg
  rw [get_of_getElem? hc] at hg
  rwa [get_of_getElem? (h g c hc hg)]

namespace Unmixed

/-- Where frozen containers are retained, only those that are newly frozen matter. -/
theorem of_retains (hs : s.Unmixed) (h : s.Retains t)
    (hnew : ∀ g c, t.graphs[g]? = some c → c.frozen = true → s.graphs[g]? ≠ some c →
      .freeze .rejectMixed ∈ c.rules → ∀ inner, .graph inner ∈ c.memberValues → inner ≠ g →
        (s.get inner).frozen = true) : t.Unmixed := by
  intro g c hc hfrozen hrule inner hinner hne
  refine h.frozen ?_
  by_cases hold : s.graphs[g]? = some c
  · exact hs g c hold hfrozen hrule inner hinner hne
  · exact hnew g c hc hfrozen hold hrule inner hinner hne

theorem append {new : Array Container} (hs : s.Unmixed) (h : t.graphs = s.graphs ++ new)
    (hmutable : ∀ c ∈ new, c.frozen = false) : t.Unmixed := by
  refine hs.of_retains (.append h) fun g c hc hfrozen hold => ?_
  rw [h, Array.getElem?_append] at hc
  split at hc
  · exact absurd hc hold
  · rw [hmutable c (Array.mem_of_getElem? hc)] at hfrozen
    cases hfrozen

theorem set (hs : s.Unmixed) (hmutable : (s.get g).frozen = false) (hc : c.frozen = false) :
    (s.set g c).Unmixed := by
  refine hs.of_retains (.set hmutable c) fun g' c' hc' hfrozen hold => ?_
  by_cases hg : g = g'
  · subst hg
    rw [Store.set, Array.getElem?_setIfInBounds_self] at hc'
    split at hc'
    · cases hc'
      rw [hc] at hfrozen
      cases hfrozen
    · cases hc'
  · rw [Store.set, Array.getElem?_setIfInBounds_ne hg] at hc'
    exact absurd hc' hold

/-- The check before a container is frozen looks at all of its members. -/
theorem freeze (hs : s.Unmixed) (hmutable : (s.get g).frozen = false)
    (hmembers : ∀ rule, Engine.mixedRule? (s.get g) = some rule →
      (s.get g).memberValues.any (Engine.isUnfrozenOther s g) = false) :
    (s.set g (s.get g).freeze).Unmixed := by
  refine hs.of_retains (.set hmutable _) fun g' c' hc' hfrozen hold hrule inner hinner hne => ?_
  by_cases hg : g = g'
  · subst hg
    rw [Store.set, Array.getElem?_setIfInBounds_self] at hc'
    split at hc'
    · cases hc'
      have hfound : (Engine.mixedRule? (s.get g)).isSome = true :=
        List.find?_isSome.2 ⟨_, hrule, rfl⟩
      obtain ⟨rule, hrule⟩ := Option.isSome_iff_exists.1 hfound
      have hall := List.any_eq_false.1 (hmembers rule hrule) _ hinner
      simpa [Engine.isUnfrozenOther, hne] using hall
    · cases hc'
  · rw [Store.set, Array.getElem?_setIfInBounds_ne hg] at hc'
    exact absurd hc' hold

/-- No step of the store mixes anything, if the procedures of the host do not. -/
theorem advances {natives : String → HostNative} (hs : s.Unmixed) (h : s.Advances natives t)
    (hnatives : Unmixing natives) : t.Unmixed := by
  cases h with
  | append new hgraphs hmutable => exact hs.append hgraphs hmutable
  | set hmutable hc => exact hs.set hmutable hc
  | freeze hmutable hmembers => exact hs.freeze hmutable hmembers
  | native name args => exact hnatives name args s hs

end Unmixed

end Store

/-! ### Every state -/

/-- What is unmixed stays so, if the procedures of the host mix nothing. -/
structure Separate (w v : Machine) : Prop where
  /-- The procedures of the host are the same. -/
  natives : v.natives = w.natives
  /-- The containers stay unmixed. -/
  unmixed : Unmixing w.natives → w.store.Unmixed → v.store.Unmixed

namespace Separate

theorem of_graphs (hnatives : v.natives = w.natives) (hgraphs : v.store.graphs = w.store.graphs) :
    Separate w v := by
  refine ⟨hnatives, fun _ hw => ?_⟩
  unfold Store.Unmixed Store.get at hw ⊢
  rwa [hgraphs]

theorem trans {u : Machine} (h : Separate u w) (h' : Separate w v) : Separate u v :=
  ⟨h'.natives.trans h.natives, fun hnatives hu =>
    h'.unmixed (h.natives ▸ hnatives) (h.unmixed hnatives hu)⟩

end Separate

/-- The regime in which containers stay unmixed. -/
def Regime.separate : Regime where
  inv _ := True
  rel := Separate
  own _ := True
  refl _ := .of_graphs rfl rfl
  trans := .trans
  holds _ := trivial
  aside _ hnatives hgraphs _ _ _ := .of_graphs hnatives hgraphs
  withStore _ h := ⟨rfl, fun hnatives hw => hw.advances h hnatives⟩
  framed _ _ := .of_graphs rfl rfl
  unframed _ := .of_graphs rfl rfl
  push _ _ _ := ⟨.of_graphs rfl rfl, fun _ _ => trivial⟩
  pop _ _ := .of_graphs rfl rfl
  define _ _ _ _ _ := .of_graphs rfl rfl
  assign _ _ _ _ := .of_graphs rfl rfl
  createClosure _ _ _ _ := .of_graphs rfl rfl

theorem Later.separate (h : Later w v) : Separate w v := by
  have hstrides := h.strides
  clear h
  induction hstrides with
  | refl => exact .of_graphs rfl rfl
  | tail _ hstep ih =>
    rcases hstep with hstride | rfl
    · have hfree : Regime.separate.Free := ⟨fun _ => trivial, fun _ => trivial⟩
      exact ih.trans (hstride.rel hfree fun _ _ _ => .of_graphs rfl rfl)
    · exact ih.trans (.of_graphs rfl rfl)

/-- In every state of an evaluator, whatever programs it runs and whatever callbacks do, a frozen
container with a rule against mixed freezing holds no container that is not frozen, but for itself.
It suffices that this holds at the start, as it does where there are no containers yet, and that the
procedures of the host keep to it. -/
theorem frozen_hold_frozen :
    (∀ config verbosity natives, (World.evaluator config verbosity natives).store.Unmixed) ∧
    ∀ w v : Machine, Unmixing w.natives → w.store.Unmixed → Later w v →
      ∀ g c, v.store.graphs[g]? = some c → c.frozen = true → .freeze .rejectMixed ∈ c.rules →
        ∀ inner, .graph inner ∈ c.memberValues → inner ≠ g →
          (v.store.get inner).frozen = true := by
  refine ⟨fun config verbosity natives g c hc => ?_, fun w v hnatives hw hlater => ?_⟩
  · cases hc
  · exact hlater.separate.unmixed hnatives hw

/-! ### A list in a list -/

/-- A list that holds the container 0, with a rule against mixed freezing. -/
def outerList : Container :=
  { Container.ofElements [.graph 0] with rules := [.freeze .rejectMixed] }

/-- An evaluator with an empty list in such a list. -/
def nestedLists : Machine :=
  { World.evaluator .default .silent noNatives with store := ⟨#[.new .list, outerList], 0⟩ }

/-- The outer list is refused while the inner one is not frozen, and is frozen after it. -/
theorem freeze_nestedLists : ∃ u v,
    (Engine.freeze 1 : Act Session (MutationError String) Unit) nestedLists =
      some (.error (.validationFailed "reject_mixed_freeze" (some .memberUnfrozen)), u) ∧
    Later u v ∧ (v.store.get 1).frozen = true ∧ (v.store.get 0).frozen = true := by
  let inner : Machine := nestedLists.withStore ⟨#[(Container.new .list).freeze, outerList], 0⟩
  let v : Machine :=
    nestedLists.withStore ⟨#[(Container.new .list).freeze, outerList.freeze], 0⟩
  have hrefused : (Engine.freeze 1 : Act Session (MutationError String) Unit) nestedLists =
      some (.error (.validationFailed "reject_mixed_freeze" (some .memberUnfrozen)),
        nestedLists) := by cbv
  have hinner : (Act.attempt (Engine.freeze 0) : Eval (Except (MutationError String) Unit))
      nestedLists = some (.ok (.ok ()), inner) := rfl
  have houter : (Act.attempt (Engine.freeze 1) : Eval (Except (MutationError String) Unit))
      inner = some (.ok (.ok ()), v) := by cbv
  have hfirst : Later nestedLists inner := @Later.ends _ _ 0 _ _ _ (.freeze 0) hinner
  have hsecond : Later inner v := @Later.ends _ _ 0 _ _ _ (.freeze 1) houter
  have hlater : Later nestedLists v := .trans hfirst hsecond
  have hstart : nestedLists.store.Unmixed := by
    intro g c hc hfrozen
    have hmem : c ∈ nestedLists.store.graphs := Array.mem_of_getElem? hc
    have hmutable : c.frozen = false := by
      rcases (by simpa [nestedLists] using hmem : c = .new .list ∨ c = outerList) with rfl | rfl
      · rfl
      · rfl
    rw [hmutable] at hfrozen
    cases hfrozen
  have hnatives : Unmixing nestedLists.natives := fun _ _ _ hs => hs
  have hmembers : outerList.freeze.memberValues = [.graph 0] := by cbv
  exact ⟨nestedLists, v, hrefused, hlater, rfl,
    frozen_hold_frozen.2 nestedLists v hnatives hstart hlater 1 outerList.freeze rfl rfl
      (List.mem_singleton_self _) 0 (hmembers ▸ List.mem_singleton_self _) (by decide)⟩

end GraphLang
