import GraphLang.Proofs.Scopes.Operations

/-!
# Opening and leaving scopes

A new scope has a number of its own and declares nothing, so locals can always be defined in it.
Leaving it after changes that keep the open scopes brings back those that were open before.
-/

namespace GraphLang.Scopes

open SlotGraph

variable {g : SlotGraph ScopeNode ScopeEdge} {d : Std.HashMap (ScopeId × String) VarId}
  {s s₁ s₂ : Scopes}

/-- The scopes after a change that opens one scope and loses none. -/
structure Opens (s : Scopes) (scope : ScopeId) (s' : Scopes) : Prop where
  /-- The scopes are tidy. -/
  tidy : s'.Tidy
  /-- The scope was not there before. -/
  fresh : s.graph.node? scope = none
  /-- The scope is there. -/
  opened : s'.isScope scope = true
  /-- No other scope was opened or left. -/
  isActive : ∀ {n}, n ≠ scope → s'.isActive n = s.isActive n
  /-- No scope is lost. -/
  isScope : ∀ {n}, s.isScope n = true → s'.isScope n = true
  /-- Closures stay in their scopes. -/
  closureScope : ∀ {c inner}, s.closureScope c = .ok inner → s'.closureScope c = .ok inner

theorem Opens.trans {scope : ScopeId} (h : Opens s scope s₁) (h₁ : Keeps s₁ s₂) :
    Opens s scope s₂ :=
  ⟨h₁.tidy, h.fresh, h₁.isScope h.opened, fun hn => (h₁.isActive _).trans (h.isActive hn),
    h₁.isScope ∘ h.isScope, h₁.closureScope ∘ h.closureScope⟩

/-- A new scope without a parent. -/
theorem Opens.addNode (h : Tidy ⟨g, d⟩) (kind : ScopeKind) :
    Opens ⟨g, d⟩ (g.addNode (.scope kind true)).1 ⟨(g.addNode (.scope kind true)).2, d⟩ where
  tidy := h.addNode _
  fresh := h.sound.node?_new _
  opened := by
    refine isScope_iff.2 ⟨kind, true, ?_⟩
    dsimp only
    rw [h.sound.node?_addNode, if_pos rfl]
  isActive := by
    intro n hn
    refine isActive_congr ?_
    dsimp only
    rw [h.sound.node?_addNode, if_neg hn]
  isScope := by
    intro n hn
    obtain ⟨kind', active, hnode⟩ := isScope_iff.1 hn
    exact isScope_iff.2 ⟨kind', active, node?_addNode_old h.sound hnode⟩
  closureScope := closureScope_addNode h.sound _

/-- The graph after a scope was opened inside another one. -/
def withScope (g : SlotGraph ScopeNode ScopeEdge) (parent : ScopeId) (kind : ScopeKind) :
    SlotGraph ScopeNode ScopeEdge :=
  ((g.addNode (.scope kind true)).2.addEdge (g.addNode (.scope kind true)).1 parent .parent).2

theorem push_of_isScope {parent : ScopeId} (hparent : s.isScope parent = true) (kind : ScopeKind) :
    s.push parent kind =
      (.ok (s.graph.addNode (.scope kind true)).1, ⟨withScope s.graph parent kind, s.declared⟩) := by
  rw [push, if_pos hparent]
  rfl

/-- A new scope inside another one. -/
theorem Opens.withScope (h : Tidy ⟨g, d⟩) {parent : ScopeId}
    (hparent : Scopes.isScope ⟨g, d⟩ parent = true) (kind : ScopeKind) :
    Opens ⟨g, d⟩ (g.addNode (.scope kind true)).1 ⟨Scopes.withScope g parent kind, d⟩ := by
  have hroot := Opens.addNode h kind
  obtain ⟨kind', active, hnode⟩ := isScope_iff.1 hroot.opened
  obtain ⟨kind'', active', hnode'⟩ := isScope_iff.1 (hroot.isScope hparent)
  refine hroot.trans (.addEdge hroot.tidy (hasNode_iff.2 ⟨_, hnode⟩) (hasNode_iff.2 ⟨_, hnode'⟩)
    (by simp) ?_)
  intro scope hc
  obtain ⟨⟨c, hclosure⟩, -⟩ := closureScope_eq_ok.1 hc
  rw [hnode] at hclosure
  cases hclosure

/-! ### Leaving scopes -/

theorem pop_of_isScope {scope : ScopeId} (hscope : s.isScope scope = true) :
    s.pop scope = (.ok (), ⟨s.graph.modifyNode scope ScopeNode.leave, s.declared⟩) := by
  rw [pop, if_pos hscope]

/-- Leaving a scope changes nothing but whether it is open. -/
theorem node?_leave {n : Nat} {a : ScopeNode} (ha : ∀ kind active, a ≠ .scope kind active)
    (scope : ScopeId) (hn : g.node? n = some a) :
    (g.modifyNode scope ScopeNode.leave).node? n = some a := by
  rw [node?_modifyNode, hn]
  split
  · cases a with
    | scope kind active => exact absurd rfl (ha kind active)
    | _ => rfl
  · rfl

theorem isScope_leave (scope n : ScopeId) :
    Scopes.isScope ⟨g.modifyNode scope ScopeNode.leave, d⟩ n = Scopes.isScope ⟨g, d⟩ n := by
  unfold Scopes.isScope
  dsimp only
  rw [node?_modifyNode]
  by_cases hn : n = scope
  · rw [if_pos hn]
    rcases g.node? n with - | (- | - | - | -) <;> rfl
  · rw [if_neg hn]

theorem isActive_leave (scope n : ScopeId) :
    Scopes.isActive ⟨g.modifyNode scope ScopeNode.leave, d⟩ n =
      (n != scope && Scopes.isActive ⟨g, d⟩ n) := by
  unfold Scopes.isActive
  dsimp only
  rw [node?_modifyNode]
  by_cases hn : n = scope
  · rw [if_pos hn, hn]
    rcases g.node? scope with - | (- | - | - | -) <;> simp [ScopeNode.leave]
  · rw [if_neg hn]
    simp [hn]

theorem Tidy.leave (h : Tidy ⟨g, d⟩) (scope : ScopeId) :
    Tidy ⟨g.modifyNode scope ScopeNode.leave, d⟩ where
  sound := h.sound.modifyNode _ _
  bound := by
    intro n t hmem
    rw [ties_modifyNode] at hmem
    obtain ⟨value, hvalue⟩ := h.bound hmem
    exact ⟨value, node?_leave (by simp) scope hvalue⟩
  declared := by
    intro inner name var hvar
    obtain ⟨hinner, hname⟩ := h.declared hvar
    obtain ⟨mutable, hnode⟩ := variableName?_iff.1 hname
    exact ⟨by rwa [isScope_leave], variableName?_iff.2 ⟨mutable, node?_leave (by simp) scope hnode⟩⟩

theorem closureScope_leave (scope : ScopeId) {c : ClosureId} {inner : ScopeId}
    (hc : Scopes.closureScope ⟨g, d⟩ c = .ok inner) :
    Scopes.closureScope ⟨g.modifyNode scope ScopeNode.leave, d⟩ c = .ok inner := by
  obtain ⟨⟨name, hnode⟩, -⟩ := closureScope_eq_ok.1 hc
  refine closureScope_congr hc ((node?_leave (by simp) scope hnode).trans hnode.symm) ?_
  dsimp only
  rw [ties_modifyNode, funext (isScope_leave scope)]

/-- A scope that was opened can be left, and then nothing was opened. -/
theorem Opens.pop {scope : ScopeId} (h : Opens s scope s₁) :
    (s₁.pop scope).1 = .ok () ∧ Keeps s (s₁.pop scope).2 := by
  rw [pop_of_isScope h.opened]
  refine ⟨rfl, h.tidy.leave scope, fun n => ?_, fun hn => ?_, fun hc => ?_⟩
  · rw [isActive_leave]
    by_cases hn : n = scope
    · rw [hn, isActive_eq_false h.fresh]
      simp
    · rw [← h.isActive hn]
      simp [hn]
  · rw [isScope_leave]
    exact h.isScope hn
  · exact closureScope_leave scope (h.closureScope hc)

/-! ### Locals -/

/-- Whatever the scope declares can be written. -/
def Open (s : Scopes) (scope : ScopeId) : Prop :=
  ∀ (name : String) (var : VarId), s.declared[(scope, name)]? = some var →
    s.isMutable? var = some true

theorem isMutable?_of_node? {var : VarId} {name : String} {mutable : Bool}
    (h : s.graph.node? var = some (.variable name mutable)) :
    s.isMutable? var = some mutable := by
  rw [isMutable?, h]

theorem node?_of_isMutable? {var : VarId} {mutable : Bool}
    (h : s.isMutable? var = some mutable) :
    ∃ name, s.graph.node? var = some (.variable name mutable) := by
  unfold isMutable? at h
  split at h
  · rename_i name mutable' hnode
    cases h
    exact ⟨name, hnode⟩
  · cases h

/-- A new scope declares nothing. -/
theorem Opens.declared_eq_none {scope : ScopeId} (h : Opens s scope s₁) (hs : s.Tidy)
    (name : String) : s.declared[(scope, name)]? = none := by
  cases hvar : s.declared[(scope, name)]? with
  | none => rfl
  | some var =>
    have hscope := (hs.declared hvar).1
    rw [isScope_eq_false h.fresh] at hscope
    cases hscope

/-- Redefining a variable that can be written. -/
theorem redefine_of_variable (h : s.Tidy) {var : VarId} {name : String} {mutable : Bool}
    (hvar : s.graph.node? var = some (.variable name mutable)) (value : Value) (mutable' : Bool) :
    ∃ s₂, s.redefine var value mutable' = (.ok var, s₂) ∧ s₂.declared = s.declared ∧
      s₂.graph.node? var = some (.variable name mutable') ∧
      ∀ {n name m}, n ≠ var → s.graph.node? n = some (.variable name m) →
        s₂.graph.node? n = some (.variable name m) := by
  have hmodify : Tidy ⟨s.graph.modifyNode var (ScopeNode.withMutable mutable'), s.declared⟩ :=
    (Keeps.modifyNode h var mutable').tidy
  have hvar' : (s.graph.modifyNode var (ScopeNode.withMutable mutable')).node? var =
      some (.variable name mutable') := by
    rw [node?_modifyNode, if_pos rfl, hvar]
    rfl
  have hname : Scopes.variableName?
      ⟨s.graph.modifyNode var (ScopeNode.withMutable mutable'), s.declared⟩ var = some name :=
    variableName?_iff.2 ⟨mutable', hvar'⟩
  refine ⟨⟨bind (unbind (s.graph.modifyNode var (ScopeNode.withMutable mutable')) var) var value,
    s.declared⟩, ?_, rfl, ?_, ?_⟩
  · rw [redefine]
    dsimp only
    rw [rebind_of_variable hname]
    rfl
  · exact node?_rebound hmodify value (by simp) hvar'
  · intro n name' m hn hnode
    refine node?_rebound hmodify value (by simp) ?_
    rw [node?_modifyNode, if_neg hn, hnode]

/-- Declaring a variable changes no other one. -/
theorem node?_declare (h : s.Tidy) {scope : ScopeId} (hscope : s.isScope scope = true)
    (name : String) (value : Value) (mutable : Bool) :
    (s.declare scope name value mutable).2.graph.node? (s.declare scope name value mutable).1 =
        some (.variable name mutable) ∧
      ∀ {n a}, s.graph.node? n = some a →
        (s.declare scope name value mutable).2.graph.node? n = some a := by
  have hadd : Keeps s ⟨withVariable s.graph scope name mutable, s.declared⟩ :=
    .withVariable h hscope name mutable
  have hsound := hadd.tidy.sound
  have hold {n : Nat} {a : ScopeNode}
      (hn : (withVariable s.graph scope name mutable).node? n = some a) :
      (s.declare scope name value mutable).2.graph.node? n = some a := by
    rw [declare_eq]
    dsimp only
    rw [node?_bind hsound, if_neg (node?_ne_new hsound hn), hn]
  refine ⟨hold ?_, fun hn => hold ?_⟩
  · rw [node?_withVariable h.sound, declare_eq, if_pos rfl]
  · rw [node?_withVariable h.sound, if_neg (node?_ne_new h.sound hn), hn]

/-- In a scope where everything can be written, a local can be defined. -/
theorem define_of_open (h : s.Tidy) {scope : ScopeId} (hscope : s.isScope scope = true)
    (hopen : s.Open scope) (name : String) (value : Value) :
    ∃ var s₂, s.define scope name value true = (.ok var, s₂) ∧ s₂.Open scope := by
  unfold Scopes.define
  rw [if_neg (by simp [hscope])]
  cases hvar : s.declared[(scope, name)]? with
  | some var =>
    obtain ⟨name', hnode⟩ := node?_of_isMutable? (hopen _ _ hvar)
    obtain ⟨s₂, hredefine, hdeclared, hvar', hother⟩ := redefine_of_variable h hnode value true
    dsimp only
    rw [if_neg (by simp [hopen _ _ hvar]), hredefine]
    refine ⟨var, s₂, rfl, ?_⟩
    intro name₁ var₁ hvar₁
    rw [hdeclared] at hvar₁
    by_cases heq : var₁ = var
    · rw [heq]
      exact isMutable?_of_node? hvar'
    · obtain ⟨name₂, hnode₁⟩ := node?_of_isMutable? (hopen _ _ hvar₁)
      exact isMutable?_of_node? (hother heq hnode₁)
  | none =>
    obtain ⟨hnew, hold⟩ := node?_declare h hscope name value true
    refine ⟨(s.declare scope name value true).1, (s.declare scope name value true).2, rfl, ?_⟩
    intro name₁ var₁ hvar₁
    rw [declare_eq] at hvar₁
    dsimp only at hvar₁
    rw [Std.HashMap.getElem?_insert] at hvar₁
    split at hvar₁
    · cases hvar₁
      exact isMutable?_of_node? hnew
    · obtain ⟨name₂, hnode₁⟩ := node?_of_isMutable? (hopen _ _ hvar₁)
      exact isMutable?_of_node? (hold hnode₁)

end GraphLang.Scopes
