import GraphLang.Proofs.Scopes.Opening
import GraphLang.Proofs.SlotGraph.Ties

/-!
# Regular scopes

In regular scopes every edge joins nodes of the kinds that it is for. A variable has exactly one
value, which is no other's; the declared names are those of the variables that scopes contain; a
scope has at most one parent, and parents never lead back; a closure has exactly one scope.
Each change of the graph keeps this, except at a variable or a closure that is being made.
-/

namespace GraphLang

/-- Whether an edge of that kind may lead from the one node to the other. -/
def ScopeNode.Fits : ScopeNode → ScopeEdge → ScopeNode → Prop
  | .scope .., .parent, .scope .. => True
  | .scope .., .contains, .variable .. => True
  | .variable .., .bindsTo, .binding _ => True
  | .scope .., .captures, .variable .. => True
  | .closure _, .captures, .scope .. => True
  | .closure _, .captures, .variable .. => True
  | _, _, _ => False

/-- Two nodes of one kind; of two variables, those of one name. -/
def ScopeNode.Like : ScopeNode → ScopeNode → Prop
  | .scope .., .scope .. => True
  | .variable name _, .variable name' _ => name = name'
  | .binding _, .binding _ => True
  | .closure _, .closure _ => True
  | _, _ => False

theorem ScopeNode.like_leave (a : ScopeNode) : a.leave.Like a := by
  cases a <;> simp [leave, Like]

theorem ScopeNode.like_withMutable (mutable : Bool) (a : ScopeNode) :
    (a.withMutable mutable).Like a := by
  cases a <;> simp [withMutable, Like]

theorem ScopeNode.Like.fits {a a' b b' : ScopeNode} {kind : ScopeEdge} (ha : a'.Like a)
    (hb : b'.Like b) (h : a.Fits kind b) : a'.Fits kind b' := by
  cases a <;> cases a' <;> simp only [Like] at ha <;>
    cases b <;> cases b' <;> simp only [Like] at hb <;> cases kind <;> simp_all [Fits]

namespace Scopes

open SlotGraph

variable {g : SlotGraph ScopeNode ScopeEdge} {d : Std.HashMap (ScopeId × String) VarId}
  {s : Scopes} {bare : Option Nat}

/-- The scopes are regular, but for one node that may still be without its value or its scope. -/
structure Regular (bare : Option Nat) (s : Scopes) : Prop where
  /-- The graph is sound. -/
  sound : s.graph.Sound
  /-- Every edge joins nodes of the kinds that it is for. -/
  fits : ∀ {e edge}, s.graph.edge? e = some edge → ∃ a b,
    s.graph.node? edge.source = some a ∧ s.graph.node? edge.target = some b ∧ a.Fits edge.weight b
  /-- A node leads to at most one value and to at most one scope. -/
  once : ∀ {e e' edge edge'}, s.graph.edge? e = some edge → s.graph.edge? e' = some edge' →
    edge.source = edge'.source → edge.weight = .bindsTo ∧ edge'.weight = .bindsTo ∨
      s.isScope edge.target = true ∧ s.isScope edge'.target = true → e = e'
  /-- Nothing else leads to the value of a variable. -/
  own : ∀ {e e' edge edge'}, s.graph.edge? e = some edge → s.graph.edge? e' = some edge' →
    edge.weight = .bindsTo → edge'.target = edge.target → e' = e
  /-- Every variable has a value. -/
  bound : ∀ {var name mutable}, s.graph.node? var = some (.variable name mutable) →
    bare ≠ some var → ∃ e t, s.graph.edge? e = some ⟨var, t, .bindsTo⟩
  /-- Every closure has a scope. -/
  made : ∀ {c name}, s.graph.node? c = some (.closure name) → bare ≠ some c →
    ∃ e t, s.graph.edge? e = some ⟨c, t, .captures⟩ ∧ s.isScope t = true
  /-- The declared names are those of the variables that scopes contain. -/
  declared : ∀ scope name var, s.declared[(scope, name)]? = some var ↔
    (∃ e, s.graph.edge? e = some ⟨scope, var, .contains⟩) ∧ s.variableName? var = some name
  /-- Parents never lead back. -/
  outward : ∃ rank : Nat → Nat, ∀ {e inner outer},
    s.graph.edge? e = some ⟨inner, outer, .parent⟩ → rank outer < rank inner

theorem Regular.weaken (h : Regular none s) (bare : Option Nat) : Regular bare s :=
  ⟨h.sound, h.fits, h.once, h.own, fun hn _ => h.bound hn (by simp),
    fun hn _ => h.made hn (by simp), h.declared, h.outward⟩

/-- A variable that has its value. -/
theorem Regular.settle_variable {var t e : Nat} (h : Regular (some var) s)
    (hedge : s.graph.edge? e = some ⟨var, t, .bindsTo⟩) : Regular none s := by
  refine ⟨h.sound, h.fits, h.once, h.own, fun {v _ _} hn _ => ?_, fun {c _} hn _ => ?_, h.declared,
    h.outward⟩
  · by_cases hv : var = v
    · exact ⟨e, t, hv ▸ hedge⟩
    · exact h.bound hn (by simpa using hv)
  · refine h.made hn ?_
    rw [ne_eq, Option.some.injEq]
    rintro rfl
    obtain ⟨a, b, ha, -, hfits⟩ := h.fits hedge
    rw [hn] at ha
    cases ha
    exact hfits.elim

/-- A closure that has its scope. -/
theorem Regular.settle_closure {c t e : Nat} {name : String} (h : Regular (some c) s)
    (hc : s.graph.node? c = some (.closure name))
    (hedge : s.graph.edge? e = some ⟨c, t, .captures⟩) (ht : s.isScope t = true) :
    Regular none s := by
  refine ⟨h.sound, h.fits, h.once, h.own, fun {v _ _} hn _ => h.bound hn ?_,
    fun {c' _} hn _ => ?_, h.declared, h.outward⟩
  · rw [ne_eq, Option.some.injEq]
    rintro rfl
    rw [hc] at hn
    cases hn
  · by_cases hc' : c = c'
    · exact ⟨e, t, hc' ▸ hedge, ht⟩
    · exact h.made hn (by simpa using hc')

theorem regular_empty : Regular none Scopes.empty where
  sound := sound_empty
  fits := by simp [Scopes.empty, SlotGraph.empty, edge?_eq]
  once := by simp [Scopes.empty, SlotGraph.empty, edge?_eq]
  own := by simp [Scopes.empty, SlotGraph.empty, edge?_eq]
  bound := by simp [Scopes.empty, SlotGraph.empty, node?_eq]
  made := by simp [Scopes.empty, SlotGraph.empty, node?_eq]
  declared := by simp [Scopes.empty, SlotGraph.empty, edge?_eq]
  outward := ⟨fun _ => 0, by simp [Scopes.empty, SlotGraph.empty, edge?_eq]⟩

/-! ### New nodes and new edges -/

theorem Regular.hasNode_ends (h : Regular bare s) {e : Nat} {edge : Edge ScopeEdge}
    (hedge : s.graph.edge? e = some edge) :
    (∃ a, s.graph.node? edge.source = some a) ∧ ∃ b, s.graph.node? edge.target = some b := by
  obtain ⟨a, b, ha, hb, -⟩ := h.fits hedge
  exact ⟨⟨a, ha⟩, b, hb⟩

/-- A new node; a variable or closure is bare at first. -/
theorem Regular.addNode (h : Regular bare ⟨g, d⟩) {a : ScopeNode}
    (hnew : bare = some (g.addNode a).1 ∨
      (∀ name mutable, a ≠ .variable name mutable) ∧ ∀ name, a ≠ .closure name) :
    Regular bare ⟨(g.addNode a).2, d⟩ := by
  have hsound := h.sound
  have hold {n : Nat} {b : ScopeNode} (hn : g.node? n = some b) :
      (g.addNode a).2.node? n = some b := node?_addNode_old hsound hn
  have hscope {n : Nat} {b : ScopeNode} (hn : g.node? n = some b) :
      Scopes.isScope ⟨(g.addNode a).2, d⟩ n = Scopes.isScope ⟨g, d⟩ n :=
    isScope_congr ((hold hn).trans hn.symm)
  have hback {n : Nat} {b : ScopeNode} (hb : ∀ bare', bare' = bare → bare' ≠ some n)
      (hkind : (∃ name mutable, b = .variable name mutable) ∨ ∃ name, b = .closure name)
      (hn : (g.addNode a).2.node? n = some b) : g.node? n = some b := by
    rw [hsound.node?_addNode] at hn
    by_cases hnn : n = (g.addNode a).1
    · rw [if_pos hnn] at hn
      cases hn
      rcases hnew with hbare | ⟨hvar, hclosure⟩
      · exact absurd (hbare.trans (congrArg some hnn.symm)) (hb bare rfl)
      · rcases hkind with ⟨name, mutable, rfl⟩ | ⟨name, rfl⟩
        · exact absurd rfl (hvar name mutable)
        · exact absurd rfl (hclosure name)
    · rwa [if_neg hnn] at hn
  refine ⟨hsound.addNode a, ?_, ?_, ?_, ?_, ?_, ?_, ?_⟩
  · intro e edge hedge
    rw [edge?_addNode] at hedge
    obtain ⟨b, c, hb, hc, hfits⟩ := h.fits hedge
    exact ⟨b, c, hold hb, hold hc, hfits⟩
  · intro e e' edge edge' hedge hedge' hsource hkind
    rw [edge?_addNode] at hedge hedge'
    obtain ⟨-, b, hb⟩ := h.hasNode_ends hedge
    obtain ⟨-, b', hb'⟩ := h.hasNode_ends hedge'
    rw [hscope hb, hscope hb'] at hkind
    exact h.once hedge hedge' hsource hkind
  · intro e e' edge edge' hedge hedge' hbinds htarget
    rw [edge?_addNode] at hedge hedge'
    exact h.own hedge hedge' hbinds htarget
  · intro var name mutable hn hbare
    obtain ⟨e, t, hedge⟩ := h.bound (hback (by rintro _ rfl; exact hbare)
      (Or.inl ⟨name, mutable, rfl⟩) hn) hbare
    exact ⟨e, t, by rw [edge?_addNode, hedge]⟩
  · intro c name hn hbare
    obtain ⟨e, t, hedge, ht⟩ := h.made (hback (by rintro _ rfl; exact hbare)
      (Or.inr ⟨name, rfl⟩) hn) hbare
    obtain ⟨-, b, hb⟩ := h.hasNode_ends hedge
    exact ⟨e, t, by rw [edge?_addNode, hedge], by rwa [hscope hb]⟩
  · intro scope name var
    rw [h.declared]
    simp only [edge?_addNode]
    refine and_congr_right ?_
    rintro ⟨e, hedge⟩
    obtain ⟨-, b, hb⟩ := h.hasNode_ends hedge
    rw [variableName?, variableName?]
    dsimp only at hb ⊢
    rw [hold hb, hb]
  · obtain ⟨rank, hrank⟩ := h.outward
    exact ⟨rank, fun hedge => hrank (by rwa [edge?_addNode] at hedge)⟩

/-- What a new edge from one node to another may not disturb. -/
structure Admits (g : SlotGraph ScopeNode ScopeEdge) (d : Std.HashMap (ScopeId × String) VarId)
    (n t : Nat) (kind : ScopeEdge) : Prop where
  /-- The edge joins nodes of the kinds that it is for. -/
  fits : ∃ a b, g.node? n = some a ∧ g.node? t = some b ∧ a.Fits kind b
  /-- A variable has no value yet, and nothing leads to the new one. -/
  binds : kind = .bindsTo → ∀ {e edge}, g.edge? e = some edge →
    ¬(edge.source = n ∧ edge.weight = .bindsTo) ∧ edge.target ≠ t
  /-- A node that gets a scope leads to none yet. -/
  scope : Scopes.isScope ⟨g, d⟩ t = true → ∀ {e edge}, g.edge? e = some edge → edge.source = n →
    Scopes.isScope ⟨g, d⟩ edge.target = false
  /-- A scope that gets a parent is the parent of none. -/
  parent : kind = .parent → n ≠ t ∧ ∀ {e edge}, g.edge? e = some edge → edge.target ≠ n

theorem Regular.addEdge (h : Regular bare ⟨g, d⟩) {n t : Nat} {kind : ScopeEdge}
    (hadmits : Admits g d n t kind) (d' : Std.HashMap (ScopeId × String) VarId)
    (hdeclared : ∀ scope name var, d'[(scope, name)]? = some var ↔
      d[(scope, name)]? = some var ∨
        kind = .contains ∧ scope = n ∧ var = t ∧ Scopes.variableName? ⟨g, d⟩ t = some name) :
    Regular bare ⟨(g.addEdge n t kind).2, d'⟩ := by
  obtain ⟨a, b, ha, hb, hfits⟩ := hadmits.fits
  have hsound := h.sound
  have hscope (m : Nat) : Scopes.isScope ⟨(g.addEdge n t kind).2, d'⟩ m =
      Scopes.isScope ⟨g, d⟩ m := isScope_congr (node?_addEdge n t kind m)
  have hnode (m : Nat) : (g.addEdge n t kind).2.node? m = g.node? m := node?_addEdge n t kind m
  have hcases {e : Nat} {edge : Edge ScopeEdge} (hedge : (g.addEdge n t kind).2.edge? e = some edge) :
      (e = g.nextEdge ∧ edge = ⟨n, t, kind⟩) ∨ g.edge? e = some edge := by
    rw [hsound.edge?_addEdge] at hedge
    split at hedge
    · exact Or.inl ⟨by assumption, (Option.some.inj hedge).symm⟩
    · exact Or.inr hedge
  have hkept {e : Nat} {edge : Edge ScopeEdge} (hedge : g.edge? e = some edge) :
      (g.addEdge n t kind).2.edge? e = some edge := by
    rw [hsound.edge?_addEdge, if_neg, hedge]
    rintro rfl
    rw [hsound.edge?_nextEdge] at hedge
    cases hedge
  refine ⟨hsound.addEdge (hasNode_iff.2 ⟨a, ha⟩) (hasNode_iff.2 ⟨b, hb⟩) kind, ?_, ?_, ?_, ?_, ?_,
    ?_, ?_⟩
  · intro e edge hedge
    dsimp only
    simp only [hnode]
    rcases hcases hedge with ⟨-, rfl⟩ | hedge
    · exact ⟨a, b, ha, hb, hfits⟩
    · exact h.fits hedge
  · intro e e' edge edge' hedge hedge' hsource hkind
    simp only [hscope] at hkind
    rcases hcases hedge with ⟨rfl, rfl⟩ | hold <;> rcases hcases hedge' with ⟨rfl, rfl⟩ | hold'
    · rfl
    · rcases hkind with ⟨hbinds, hbinds'⟩ | ⟨ht, ht'⟩
      · exact absurd ⟨hsource.symm, hbinds'⟩ (hadmits.binds hbinds hold').1
      · rw [hadmits.scope ht hold' hsource.symm] at ht'
        cases ht'
    · rcases hkind with ⟨hbinds, hbinds'⟩ | ⟨ht, ht'⟩
      · exact absurd ⟨hsource, hbinds⟩ (hadmits.binds hbinds' hold).1
      · rw [hadmits.scope ht' hold hsource] at ht
        cases ht
    · exact h.once hold hold' hsource hkind
  · intro e e' edge edge' hedge hedge' hbinds htarget
    rcases hcases hedge with ⟨rfl, rfl⟩ | hold <;> rcases hcases hedge' with ⟨rfl, rfl⟩ | hold'
    · rfl
    · exact absurd htarget (hadmits.binds hbinds hold').2
    · by_cases hkind : kind = .bindsTo
      · exact absurd htarget.symm (hadmits.binds hkind hold).2
      · -- Only edges of this kind lead to values.
        obtain ⟨a', b', -, hb', hfits'⟩ := h.fits hold
        rw [← htarget] at hb'
        dsimp only at hb'
        rw [hb] at hb'
        cases hb'
        cases a' <;> cases b <;> simp [hbinds, ScopeNode.Fits] at hfits'
        cases a <;> cases kind <;> simp [ScopeNode.Fits] at hfits hkind
    · exact h.own hold hold' hbinds htarget
  · intro var name mutable hn hbare
    rw [hnode] at hn
    obtain ⟨e, t', hedge⟩ := h.bound hn hbare
    exact ⟨e, t', hkept hedge⟩
  · intro c name hn hbare
    rw [hnode] at hn
    obtain ⟨e, t', hedge, ht'⟩ := h.made hn hbare
    exact ⟨e, t', hkept hedge, by rwa [hscope]⟩
  · intro scope name var
    have hname : Scopes.variableName? ⟨(g.addEdge n t kind).2, d'⟩ var =
        Scopes.variableName? ⟨g, d⟩ var := by
      rw [variableName?, variableName?]
      dsimp only
      rw [hnode]
    rw [hdeclared, h.declared, hname]
    constructor
    · rintro (⟨⟨e, hedge⟩, hvar⟩ | ⟨rfl, rfl, rfl, hvar⟩)
      · exact ⟨⟨e, hkept hedge⟩, hvar⟩
      · exact ⟨⟨g.nextEdge, by rw [hsound.edge?_addEdge, if_pos rfl]⟩, hvar⟩
    · rintro ⟨⟨e, hedge⟩, hvar⟩
      rcases hcases hedge with ⟨-, heq⟩ | hedge
      · cases heq
        exact Or.inr ⟨rfl, rfl, rfl, hvar⟩
      · exact Or.inl ⟨⟨e, hedge⟩, hvar⟩
  · obtain ⟨rank, hrank⟩ := h.outward
    by_cases hkind : kind = .parent
    · obtain ⟨hne, hno⟩ := hadmits.parent hkind
      refine ⟨Function.update rank n (rank t + 1), ?_⟩
      intro e inner outer hedge
      rcases hcases hedge with ⟨-, heq⟩ | hold
      · cases heq
        rw [Function.update_self, Function.update_of_ne hne.symm]
        exact Nat.lt_succ_self _
      · rw [Function.update_of_ne (hno hold)]
        by_cases hinner : inner = n
        · -- A scope that gets a parent has none before.
          obtain ⟨a', b', -, hb', hfits'⟩ := h.fits hold
          have houter : Scopes.isScope ⟨g, d⟩ outer = true := by
            cases a' <;> cases b' <;> simp [ScopeNode.Fits] at hfits'
            exact isScope_iff.2 ⟨_, _, hb'⟩
          have ht : Scopes.isScope ⟨g, d⟩ t = true := by
            rw [hkind] at hfits
            cases a <;> cases b <;> simp [ScopeNode.Fits] at hfits
            exact isScope_iff.2 ⟨_, _, hb⟩
          have hfalse := hadmits.scope ht hold hinner
          rw [houter] at hfalse
          cases hfalse
        · rw [Function.update_of_ne hinner]
          exact hrank hold
    · refine ⟨rank, ?_⟩
      intro e inner outer hedge
      rcases hcases hedge with ⟨-, heq⟩ | hedge
      · cases heq
        exact absurd rfl hkind
      · exact hrank hedge

/-- An edge that is neither a declaration nor a binding nor leads to a scope: a capture. -/
theorem Regular.capture (h : Regular bare ⟨g, d⟩) {n var : Nat} {a : ScopeNode} {name : String}
    {mutable : Bool} (hn : g.node? n = some a) (hvar : g.node? var = some (.variable name mutable))
    (hfits : a.Fits .captures (.variable name mutable)) :
    Regular bare ⟨(g.addEdge n var .captures).2, d⟩ := by
  refine h.addEdge ⟨⟨a, _, hn, hvar, hfits⟩, by simp, fun hscope => ?_, by simp⟩ d (by simp)
  obtain ⟨kind, active, hnode⟩ := isScope_iff.1 hscope
  dsimp only at hnode
  rw [hvar] at hnode
  cases hnode

/-! ### Changed nodes -/

theorem node?_modifyNode_like {f : ScopeNode → ScopeNode} (hf : ∀ a, (f a).Like a) (m : Nat) {n : Nat}
    {a : ScopeNode} (hn : g.node? n = some a) :
    ∃ a', (g.modifyNode m f).node? n = some a' ∧ a'.Like a := by
  rw [node?_modifyNode, hn]
  by_cases hm : n = m
  · exact ⟨f a, by simp [hm], hf a⟩
  · refine ⟨a, by simp [hm], ?_⟩
    cases a <;> simp [ScopeNode.Like]

theorem node?_of_modifyNode_like {f : ScopeNode → ScopeNode} (hf : ∀ a, (f a).Like a) {m n : Nat}
    {a' : ScopeNode} (hn : (g.modifyNode m f).node? n = some a') :
    ∃ a, g.node? n = some a ∧ a'.Like a := by
  cases hold : g.node? n with
  | none =>
    rw [node?_modifyNode, hold] at hn
    split at hn <;> cases hn
  | some a =>
    obtain ⟨b, hb, hlike⟩ := node?_modifyNode_like hf m hold
    rw [hb] at hn
    cases hn
    exact ⟨a, rfl, hlike⟩

theorem isScope_modifyNode {f : ScopeNode → ScopeNode} (hf : ∀ a, (f a).Like a) (m n : Nat) :
    Scopes.isScope ⟨g.modifyNode m f, d⟩ n = Scopes.isScope ⟨g, d⟩ n := by
  unfold Scopes.isScope
  dsimp only
  cases hold : g.node? n with
  | none =>
    have hgone : (g.modifyNode m f).node? n = none := by
      rw [node?_modifyNode, hold]
      split <;> rfl
    rw [hgone]
  | some a =>
    obtain ⟨b, hb, hlike⟩ := node?_modifyNode_like hf m hold
    rw [hb]
    cases a <;> cases b <;> simp [ScopeNode.Like] at hlike <;> rfl

theorem variableName?_modifyNode {f : ScopeNode → ScopeNode} (hf : ∀ a, (f a).Like a) (m n : Nat) :
    Scopes.variableName? ⟨g.modifyNode m f, d⟩ n = Scopes.variableName? ⟨g, d⟩ n := by
  unfold Scopes.variableName?
  dsimp only
  cases hold : g.node? n with
  | none =>
    have hgone : (g.modifyNode m f).node? n = none := by
      rw [node?_modifyNode, hold]
      split <;> rfl
    rw [hgone]
  | some a =>
    obtain ⟨b, hb, hlike⟩ := node?_modifyNode_like hf m hold
    rw [hb]
    cases a <;> cases b <;> simp [ScopeNode.Like] at hlike <;> simp [hlike]

/-- A node may change within its kind. -/
theorem Regular.modifyNode (h : Regular bare ⟨g, d⟩) {f : ScopeNode → ScopeNode}
    (hf : ∀ a, (f a).Like a) (m : Nat) : Regular bare ⟨g.modifyNode m f, d⟩ where
  sound := h.sound.modifyNode m f
  fits := by
    intro e edge hedge
    obtain ⟨a, b, ha, hb, hfits⟩ := h.fits hedge
    obtain ⟨a', ha', hlike⟩ := node?_modifyNode_like hf m ha
    obtain ⟨b', hb', hlike'⟩ := node?_modifyNode_like hf m hb
    exact ⟨a', b', ha', hb', hlike.fits hlike' hfits⟩
  once := by
    intro e e' edge edge' hedge hedge' hsource hkind
    rw [isScope_modifyNode hf, isScope_modifyNode hf] at hkind
    exact h.once hedge hedge' hsource hkind
  own := fun hedge hedge' => h.own hedge hedge'
  bound := by
    intro var name mutable hn hbare
    obtain ⟨a, ha, hlike⟩ := node?_of_modifyNode_like hf hn
    cases a <;> simp only [ScopeNode.Like] at hlike
    exact h.bound ha hbare
  made := by
    intro c name hn hbare
    obtain ⟨a, ha, hlike⟩ := node?_of_modifyNode_like hf hn
    cases a <;> simp only [ScopeNode.Like] at hlike
    obtain ⟨e, t, hedge, ht⟩ := h.made ha hbare
    exact ⟨e, t, hedge, by rwa [isScope_modifyNode hf]⟩
  declared scope name var := by
    rw [variableName?_modifyNode hf]
    exact h.declared scope name var
  outward := h.outward

/-! ### Values -/

/-- Releasing a variable takes its value away and nothing else. -/
theorem Regular.unbind_eq (h : Regular none ⟨g, d⟩) {var : VarId} {name : String} {mutable : Bool}
    (hvar : g.node? var = some (.variable name mutable)) :
    ∃ e t, g.edge? e = some ⟨var, t, .bindsTo⟩ ∧
      (∀ n, (unbind g var).node? n = if n = t then none else g.node? n) ∧
      ∀ {e' edge}, (unbind g var).edge? e' = some edge ↔ g.edge? e' = some edge ∧ e' ≠ e := by
  obtain ⟨e₀, t₀, hedge₀⟩ := h.bound hvar (by simp)
  have hmem : (ScopeEdge.bindsTo, t₀) ∈ g.ties var := h.sound.mem_ties.2 ⟨e₀, hedge₀⟩
  obtain ⟨t, ht⟩ := exists_tied? hmem
  rw [← firstEdge?_target] at ht
  obtain ⟨⟨e, edge⟩, hfirst, htarget⟩ := Option.map_eq_some_iff.1 ht
  obtain ⟨hedge, hsource, -⟩ := firstEdge?_eq_some h.sound hfirst
  have hkind : edge.weight = .bindsTo := by simpa using List.find?_some hfirst
  obtain ⟨source, target, weight⟩ := edge
  cases hsource
  cases hkind
  refine ⟨e, target, hedge, fun n => ?_, fun {e' edge'} => ?_⟩
  · rw [unbind, hfirst]
    dsimp only
    rw [node?_removeNode, node?_removeEdge]
  · rw [unbind, hfirst]
    dsimp only
    rw [(h.sound.removeEdge e).edge?_removeNode, Option.filter_eq_some_iff, edge?_removeEdge]
    simp only [Bool.and_eq_true, bne_iff_ne]
    constructor
    · rintro ⟨hkept, -⟩
      by_cases he : e' = e
      · simp [he] at hkept
      · exact ⟨by simpa [he] using hkept, he⟩
    · rintro ⟨hold, he⟩
      refine ⟨by rwa [if_neg he], ?_, fun htarget => he (h.own hedge hold rfl htarget)⟩
      -- A value leads nowhere.
      intro hsource
      obtain ⟨a, b, ha, hb, hfits⟩ := h.fits hold
      obtain ⟨a', b', -, hb', hfits'⟩ := h.fits hedge
      rw [hsource, hb'] at ha
      cases ha
      cases a' <;> cases a <;> simp [ScopeNode.Fits] at hfits' hfits

/-- A variable that was released is bare. -/
theorem Regular.unbind (h : Regular none ⟨g, d⟩) {var : VarId} {name : String} {mutable : Bool}
    (hvar : g.node? var = some (.variable name mutable)) :
    Regular (some var) ⟨unbind g var, d⟩ ∧
      ∀ {e edge}, (Scopes.unbind g var).edge? e = some edge →
        ¬(edge.source = var ∧ edge.weight = .bindsTo) := by
  obtain ⟨e, t, hbinding, hnode, hedges⟩ := h.unbind_eq hvar
  -- The other edges do not touch the value, whose slot is vacant now.
  have hold {n : Nat} {a : ScopeNode} (hn : (Scopes.unbind g var).node? n = some a) :
      n ≠ t ∧ g.node? n = some a := by
    rw [hnode] at hn
    by_cases hnt : n = t
    · simp [hnt] at hn
    · exact ⟨hnt, by rwa [if_neg hnt] at hn⟩
  have hends {e' : Nat} {edge : Edge ScopeEdge}
      (hedge : (Scopes.unbind g var).edge? e' = some edge) :
      (Scopes.unbind g var).node? edge.source = g.node? edge.source ∧
        (Scopes.unbind g var).node? edge.target = g.node? edge.target := by
    have hsound := sound_unbind h.sound var
    obtain ⟨a, ha⟩ := hasNode_iff.1 (hsound.hasNode_source hedge)
    obtain ⟨b, hb⟩ := hasNode_iff.1 (hsound.hasNode_target hedge)
    exact ⟨ha.trans (hold ha).2.symm, hb.trans (hold hb).2.symm⟩
  have hscope {e' : Nat} {edge : Edge ScopeEdge}
      (hedge : (Scopes.unbind g var).edge? e' = some edge) :
      Scopes.isScope ⟨Scopes.unbind g var, d⟩ edge.target = Scopes.isScope ⟨g, d⟩ edge.target :=
    isScope_congr (hends hedge).2
  refine ⟨⟨sound_unbind h.sound var, ?_, ?_, ?_, ?_, ?_, ?_, ?_⟩, ?_⟩
  · intro e' edge hedge
    rw [(hends hedge).1, (hends hedge).2]
    exact h.fits (hedges.1 hedge).1
  · intro e₁ e₂ edge₁ edge₂ hedge₁ hedge₂ hsource hkind
    rw [hscope hedge₁, hscope hedge₂] at hkind
    exact h.once (hedges.1 hedge₁).1 (hedges.1 hedge₂).1 hsource hkind
  · intro e₁ e₂ edge₁ edge₂ hedge₁ hedge₂ hbinds htarget
    exact h.own (hedges.1 hedge₁).1 (hedges.1 hedge₂).1 hbinds htarget
  · intro var' name' mutable' hn hbare
    obtain ⟨e', t', hedge⟩ := h.bound (hold hn).2 (by simp)
    refine ⟨e', t', hedges.2 ⟨hedge, ?_⟩⟩
    rintro rfl
    rw [hbinding] at hedge
    cases hedge
    exact hbare rfl
  · intro c name' hn hbare
    obtain ⟨e', t', hedge, ht'⟩ := h.made (hold hn).2 (by simp)
    have hkept : (Scopes.unbind g var).edge? e' = some ⟨c, t', .captures⟩ := by
      refine hedges.2 ⟨hedge, ?_⟩
      rintro rfl
      rw [hbinding] at hedge
      cases hedge
    exact ⟨e', t', hkept, (hscope hkept).trans ht'⟩
  · intro scope name' var'
    have hcontains {e' : Nat} : (Scopes.unbind g var).edge? e' = some ⟨scope, var', .contains⟩ ↔
        g.edge? e' = some ⟨scope, var', .contains⟩ := by
      refine ⟨fun hedge => (hedges.1 hedge).1, fun hedge => hedges.2 ⟨hedge, ?_⟩⟩
      rintro rfl
      rw [hbinding] at hedge
      cases hedge
    rw [h.declared]
    simp only [hcontains]
    refine and_congr_right ?_
    rintro ⟨e', hedge⟩
    rw [variableName?, variableName?]
    dsimp only
    rw [(hends (hcontains.2 hedge)).2]
  · obtain ⟨rank, hrank⟩ := h.outward
    exact ⟨rank, fun hedge => hrank (hedges.1 hedge).1⟩
  · rintro e' edge hedge ⟨hsource, hbinds⟩
    obtain ⟨hedge', hne⟩ := hedges.1 hedge
    exact hne (h.once hedge' hbinding hsource (Or.inl ⟨hbinds, rfl⟩))

/-- A variable without a value gets one. -/
theorem Regular.bind {var : VarId} {name : String} {mutable : Bool}
    (h : Regular (some var) ⟨g, d⟩) (hvar : g.node? var = some (.variable name mutable))
    (hbare : ∀ {e edge}, g.edge? e = some edge → ¬(edge.source = var ∧ edge.weight = .bindsTo))
    (value : Value) : Regular none ⟨bind g var value, d⟩ := by
  have hadd : Regular (some var) ⟨(g.addNode (.binding value)).2, d⟩ := h.addNode (by simp)
  have hnew := h.sound.node?_addNode (.binding value) (g.addNode (.binding value)).1
  rw [if_pos rfl] at hnew
  have hadmits : Admits (g.addNode (.binding value)).2 d var (g.addNode (.binding value)).1
      .bindsTo := by
    refine ⟨⟨_, _, node?_addNode_old h.sound hvar, hnew, trivial⟩, fun _ e edge hedge => ?_,
      fun hscope => ?_, by simp⟩
    · rw [edge?_addNode] at hedge
      obtain ⟨-, b, hb⟩ := h.hasNode_ends hedge
      exact ⟨hbare hedge, node?_ne_new h.sound hb⟩
    · obtain ⟨kind, active, hnode⟩ := isScope_iff.1 hscope
      dsimp only at hnode
      rw [hnew] at hnode
      cases hnode
  have hedge := hadd.addEdge hadmits d (by simp)
  refine hedge.settle_variable (e := (g.addNode (.binding value)).2.nextEdge)
    (t := (g.addNode (.binding value)).1) ?_
  exact (hadd.sound.edge?_addEdge _ _ _ _).trans (if_pos rfl)

/-! ### Removed nodes -/

/-- Removing nodes that no other node leads to. -/
theorem Regular.sweep (h : Regular none ⟨g, d⟩) {gone : List Nat}
    (hclosed : ∀ {e edge}, g.edge? e = some edge → edge.source ∉ gone → edge.target ∉ gone)
    {d' : Std.HashMap (ScopeId × String) VarId}
    (hdeclared : ∀ (scope : ScopeId) (name : String) (var : VarId),
      d'[(scope, name)]? = some var ↔ d[(scope, name)]? = some var ∧ scope ∉ gone ∧ var ∉ gone) :
    Regular none ⟨g.sweep gone, d'⟩ := by
  have hedges {e : Nat} {edge : Edge ScopeEdge} :
      (g.sweep gone).edge? e = some edge ↔ g.edge? e = some edge ∧ edge.source ∉ gone := by
    rw [h.sound.edge?_sweep]
    exact ⟨fun hedge => ⟨hedge.1, hedge.2.1⟩,
      fun hedge => ⟨hedge.1, hedge.2, hclosed hedge.1 hedge.2⟩⟩
  have hnode {n : Nat} (hn : n ∉ gone) : (g.sweep gone).node? n = g.node? n := by
    rw [node?_sweep, if_neg hn]
  have hold {n : Nat} {a : ScopeNode} (hn : (g.sweep gone).node? n = some a) :
      n ∉ gone ∧ g.node? n = some a := by
    rw [node?_sweep] at hn
    by_cases hgone : n ∈ gone
    · simp [hgone] at hn
    · exact ⟨hgone, by rwa [if_neg hgone] at hn⟩
  have htarget {e : Nat} {edge : Edge ScopeEdge} (hedge : (g.sweep gone).edge? e = some edge) :
      (g.sweep gone).node? edge.target = g.node? edge.target :=
    hnode (hclosed (hedges.1 hedge).1 (hedges.1 hedge).2)
  have hscope {e : Nat} {edge : Edge ScopeEdge} (hedge : (g.sweep gone).edge? e = some edge) :
      Scopes.isScope ⟨g.sweep gone, d'⟩ edge.target = Scopes.isScope ⟨g, d⟩ edge.target :=
    isScope_congr (htarget hedge)
  refine ⟨h.sound.sweep gone, ?_, ?_, ?_, ?_, ?_, ?_, ?_⟩
  · intro e edge hedge
    rw [htarget hedge, hnode (hedges.1 hedge).2]
    exact h.fits (hedges.1 hedge).1
  · intro e₁ e₂ edge₁ edge₂ hedge₁ hedge₂ hsource hkind
    rw [hscope hedge₁, hscope hedge₂] at hkind
    exact h.once (hedges.1 hedge₁).1 (hedges.1 hedge₂).1 hsource hkind
  · intro e₁ e₂ edge₁ edge₂ hedge₁ hedge₂ hbinds htarget
    exact h.own (hedges.1 hedge₁).1 (hedges.1 hedge₂).1 hbinds htarget
  · intro var name mutable hn _
    obtain ⟨e, t, hedge⟩ := h.bound (hold hn).2 (by simp)
    exact ⟨e, t, hedges.2 ⟨hedge, (hold hn).1⟩⟩
  · intro c name hn _
    obtain ⟨e, t, hedge, ht⟩ := h.made (hold hn).2 (by simp)
    have hkept : (g.sweep gone).edge? e = some ⟨c, t, .captures⟩ := hedges.2 ⟨hedge, (hold hn).1⟩
    exact ⟨e, t, hkept, (hscope hkept).trans ht⟩
  · intro scope name var
    rw [hdeclared, h.declared]
    have hname (hvar : var ∉ gone) : Scopes.variableName? ⟨g.sweep gone, d'⟩ var =
        Scopes.variableName? ⟨g, d⟩ var := by
      rw [variableName?, variableName?]
      dsimp only
      rw [hnode hvar]
    constructor
    · rintro ⟨⟨⟨e, hedge⟩, hvar⟩, hscope, hkept⟩
      exact ⟨⟨e, hedges.2 ⟨hedge, hscope⟩⟩, by rwa [hname hkept]⟩
    · rintro ⟨⟨e, hedge⟩, hvar⟩
      obtain ⟨hedge, hscope⟩ := hedges.1 hedge
      have hkept := hclosed hedge hscope
      exact ⟨⟨⟨e, hedge⟩, by rwa [hname hkept] at hvar⟩, hscope, hkept⟩
  · obtain ⟨rank, hrank⟩ := h.outward
    exact ⟨rank, fun hedge => hrank (hedges.1 hedge).1⟩

end Scopes

end GraphLang
