import GraphLang.Proofs.Scopes.Full

/-!
# Scopes that are alike

Two scopes are alike if they differ at most in what closures have captured. Then all look-ups give
the same, and every operation keeps them alike, down to the numbers of new nodes.
-/

namespace GraphLang.Scopes

open SlotGraph

variable {g g' : SlotGraph ScopeNode ScopeEdge} {d : Std.HashMap (ScopeId × String) VarId}
  {s s' t t' : Scopes} {P P' : Value → Prop}

/-- The graphs have the same nodes in the same slots, and the same ties except for those of
closures. -/
structure Mirror (g g' : SlotGraph ScopeNode ScopeEdge) : Prop where
  /-- There are as many slots. -/
  size : g'.slots.size = g.slots.size
  /-- The same slots are used next. -/
  vacant : g'.vacantNodes = g.vacantNodes
  /-- The nodes are the same. -/
  node? : ∀ n, g'.node? n = g.node? n
  /-- The ties are the same, except for those of closures. -/
  ties : ∀ {n}, (∀ name, g.node? n ≠ some (.closure name)) → g'.ties n = g.ties n

namespace Mirror

theorem fst_addNode (h : Mirror g g') (a : ScopeNode) : (g'.addNode a).1 = (g.addNode a).1 := by
  unfold SlotGraph.addNode
  rw [h.vacant]
  cases g.vacantNodes with
  | nil => exact h.size
  | cons n rest => rfl

theorem addNode (h : Mirror g g') (hg : g.Sound) (hg' : g'.Sound) (a : ScopeNode) :
    Mirror (g.addNode a).2 (g'.addNode a).2 where
  size := by
    unfold SlotGraph.addNode
    rw [h.vacant]
    cases g.vacantNodes <;> simp [h.size]
  vacant := by
    unfold SlotGraph.addNode
    rw [h.vacant]
    cases g.vacantNodes <;> rfl
  node? n := by rw [hg'.node?_addNode, hg.node?_addNode, h.fst_addNode, h.node?]
  ties := by
    intro n hn
    rw [hg'.ties_addNode, hg.ties_addNode]
    refine h.ties fun name hclosure => ?_
    exact hn name (node?_addNode_old hg hclosure)

theorem addEdge (h : Mirror g g') (hg : g.Sound) (hg' : g'.Sound) {n : Nat}
    (hn : g.hasNode n = true) (t : Nat) (kind : ScopeEdge) :
    Mirror (g.addEdge n t kind).2 (g'.addEdge n t kind).2 where
  size := by
    rw [addEdge_slots, addEdge_slots]
    simp [linkEnds, h.size]
  vacant := by
    have hframe (g : SlotGraph ScopeNode ScopeEdge) :
        (g.addEdge n t kind).2.vacantNodes = g.vacantNodes := by
      unfold SlotGraph.addEdge
      split <;> rfl
    rw [hframe, hframe, h.vacant]
  node? m := by rw [node?_addEdge, node?_addEdge, h.node?]
  ties := by
    intro m hm
    have hn' : g'.hasNode n = true := by rwa [hasNode, h.node?]
    rw [node?_addEdge] at hm
    rw [hg'.ties_addEdge hn', hg.ties_addEdge hn, h.ties hm]

/-- Closures may capture different variables. -/
theorem capture (h : Mirror g g') (hg : g.Sound) {c : ClosureId} {name : String}
    (hc : g.node? c = some (.closure name)) (t : Nat) (kind : ScopeEdge) :
    Mirror (g.addEdge c t kind).2 g' where
  size := by
    rw [addEdge_slots]
    simp [linkEnds, h.size]
  vacant := by
    rw [h.vacant]
    unfold SlotGraph.addEdge
    split <;> rfl
  node? m := by rw [node?_addEdge, h.node?]
  ties := by
    intro m hm
    rw [node?_addEdge] at hm
    rw [hg.ties_addEdge (hasNode_iff.2 ⟨_, hc⟩), h.ties hm, if_neg]
    rintro rfl
    exact hm name hc

theorem symm (h : Mirror g g') : Mirror g' g where
  size := h.size.symm
  vacant := h.vacant.symm
  node? n := (h.node? n).symm
  ties := by
    intro n hn
    refine (h.ties fun name hclosure => ?_).symm
    exact hn name ((h.node? n).trans hclosure)

theorem modifyNode (h : Mirror g g') (m : Nat) {f : ScopeNode → ScopeNode}
    (hf : ∀ name, f (.closure name) = .closure name) :
    Mirror (g.modifyNode m f) (g'.modifyNode m f) where
  size := by simp [SlotGraph.modifyNode, h.size]
  vacant := h.vacant
  node? n := by rw [node?_modifyNode, node?_modifyNode, h.node?]
  ties := by
    intro n hn
    rw [ties_modifyNode, ties_modifyNode]
    refine h.ties fun name hclosure => ?_
    refine hn name ?_
    rw [node?_modifyNode, hclosure]
    split
    · rw [Option.map_some, hf]
    · rfl

theorem tied? (h : Mirror g g') {n : Nat} (hn : ∀ name, g.node? n ≠ some (.closure name))
    (kind : ScopeEdge) : Scopes.tied? g' n kind = Scopes.tied? g n kind := by
  rw [Scopes.tied?, Scopes.tied?, h.ties hn]

theorem unbind (h : Mirror g g') (hg : g.Sound) (hg' : g'.Sound) {var : VarId}
    (hvar : ∀ name, g.node? var ≠ some (.closure name)) :
    Mirror (Scopes.unbind g var) (Scopes.unbind g' var) := by
  have htied := h.tied? hvar .bindsTo
  cases ht : Scopes.tied? g var .bindsTo with
  | none =>
    rw [ht] at htied
    rwa [unbind_of_none ht, unbind_of_none htied]
  | some t =>
    rw [ht] at htied
    obtain ⟨e, edge, hedge, htarget, heq⟩ := exists_unbind hg ht
    obtain ⟨e', edge', hedge', htarget', heq'⟩ := exists_unbind hg' htied
    obtain ⟨a, ha⟩ := hasNode_iff.1 (hg.hasNode_of_mem_ties (tied?_eq_some ht)).2
    have ha₁ : (g.removeEdge e).node? t = some a := by rw [node?_removeEdge, ha]
    have ha' : (g'.removeEdge e').node? t = some a := by rw [node?_removeEdge, h.node?, ha]
    refine ⟨?_, ?_, fun n => ?_, fun {n} hn => ?_⟩
    · rw [heq, heq', size_removeNode, size_removeNode, (removeEdge_frame e).1,
        (removeEdge_frame e').1, h.size]
    · rw [heq, heq', vacantNodes_removeNode ha₁, vacantNodes_removeNode ha',
        (removeEdge_frame e).2, (removeEdge_frame e').2, h.vacant]
    · rw [node?_unbind hg' htied, node?_unbind hg ht, h.node?]
    · by_cases hnt : n = t
      · have hgone : (Scopes.unbind g var).node? n = none := by
          rw [node?_unbind hg ht, if_pos hnt]
        have hgone' : (Scopes.unbind g' var).node? n = none := by
          rw [node?_unbind hg' htied, if_pos hnt]
        rw [ties_of_vacant hgone, ties_of_vacant hgone']
      · rw [node?_unbind hg ht, if_neg hnt] at hn
        rw [ties_unbind hg' htied hnt, ties_unbind hg ht hnt, h.ties hn]

theorem bind (h : Mirror g g') (hg : g.Sound) (hg' : g'.Sound) {var : VarId}
    (hvar : g.hasNode var = true) (value : Value) :
    Mirror (Scopes.bind g var value) (Scopes.bind g' var value) := by
  unfold Scopes.bind
  dsimp only
  rw [h.fst_addNode]
  exact (h.addNode hg hg' _).addEdge (hg.addNode _) (hg'.addNode _) (hasNode_addNode hg _ hvar) _ _

end Mirror

/-! ### Look-ups -/

/-- The scopes differ at most in what closures have captured. -/
structure Alike (s s' : Scopes) : Prop where
  /-- The graphs differ at most in what closures have captured. -/
  graph : Mirror s.graph s'.graph
  /-- The same variables are declared. -/
  declared : s'.declared = s.declared
  /-- Closures were made in the same scopes. -/
  closureScope : ∀ {c scope}, s.closureScope c = .ok scope → s'.closureScope c = .ok scope

namespace Alike

theorem isScope (h : Alike s s') (n : Nat) : s'.isScope n = s.isScope n :=
  isScope_congr (h.graph.node? n)

theorem variableName? (h : Alike s s') (n : Nat) : s'.variableName? n = s.variableName? n := by
  rw [Scopes.variableName?, Scopes.variableName?, h.graph.node?]

theorem isMutable? (h : Alike s s') (n : Nat) : s'.isMutable? n = s.isMutable? n := by
  rw [Scopes.isMutable?, Scopes.isMutable?, h.graph.node?]

theorem not_closure_of_isScope {n : Nat} (hn : s.isScope n = true) (name : String) :
    s.graph.node? n ≠ some (.closure name) := by
  obtain ⟨kind, active, hnode⟩ := isScope_iff.1 hn
  simp [hnode]

theorem localVar? (h : Alike s s') (name : String) {scope : ScopeId}
    (hscope : s.isScope scope = true) : s'.localVar? name scope = s.localVar? name scope := by
  unfold Scopes.localVar?
  rw [h.declared, imported?_eq, imported?_eq, h.graph.ties (not_closure_of_isScope hscope),
    funext h.variableName?]

theorem lookup? (h : Alike s s') (hfull : Full P none s) (name : String) (fuel : Nat)
    {scope : ScopeId} (hscope : s.isScope scope = true) :
    s'.lookup? name fuel scope = s.lookup? name fuel scope := by
  induction fuel generalizing scope with
  | zero => rfl
  | succ fuel ih =>
    have hparent : s'.parent? scope = s.parent? scope := by
      rw [parent?_eq, parent?_eq, h.graph.tied? (not_closure_of_isScope hscope)]
    unfold Scopes.lookup?
    rw [h.localVar? name hscope, hparent]
    cases s.localVar? name scope with
    | some var => rfl
    | none =>
      cases hp : s.parent? scope with
      | none => rfl
      | some parent =>
        rw [parent?_eq] at hp
        exact ih (hfull.outer (tied?_eq_some hp))

theorem find (h : Alike s s') (hfull : Full P none s) {scope : ScopeId}
    (hscope : s.isScope scope = true) (name : String) : s'.find scope name = s.find scope name := by
  have hscope' : s'.isScope scope = true := by rwa [h.isScope]
  rw [find_of_isScope hscope, find_of_isScope hscope', h.graph.size, h.lookup? hfull _ _ hscope]

theorem get (h : Alike s s') (hfull : Full P none s) {scope : ScopeId}
    (hscope : s.isScope scope = true) (name : String) : s'.get scope name = s.get scope name := by
  unfold Scopes.get
  rw [h.find hfull hscope, find_of_isScope hscope]
  cases hlookup : s.lookup? name (s.graph.slots.size + 1) scope with
  | none => rfl
  | some var =>
    obtain ⟨mutable, hnode⟩ := variableName?_iff.1 (variableName?_lookup? hfull.tidy hlookup)
    have hvalue : s'.valueOf? var = s.valueOf? var := by
      rw [valueOf?_eq, valueOf?_eq, h.graph.tied? (by simp [hnode]), funext h.graph.node?]
    dsimp only [Bind.bind, Except.bind]
    rw [hvalue]

/-- In full scopes all closures were made in the same scopes, or are missing in both. -/
theorem closureScope_eq (h : Alike s s') (hfull : Full P none s) (c : ClosureId) :
    s'.closureScope c = s.closureScope c := by
  cases hc : s.closureScope c with
  | ok scope => exact h.closureScope hc
  | error e =>
    rw [closureScope_eq_error hc]
    cases hc' : s'.closureScope c with
    | error e' => rw [closureScope_eq_error hc']
    | ok scope =>
      obtain ⟨⟨name, hnode⟩, -⟩ := closureScope_eq_ok.1 hc'
      rw [h.graph.node?] at hnode
      obtain ⟨scope', hscope'⟩ := hfull.exists_closureScope hnode
      rw [hc] at hscope'
      cases hscope'

/-- Changes that lose no scope of a closure keep scopes alike if they keep the graphs so. -/
theorem of_mirror (h : Alike s s') (hfull : Full P none s) (hgraph : Mirror t.graph t'.graph)
    (hdeclared : t'.declared = t.declared)
    (hold : ∀ {c name}, t.graph.node? c = some (.closure name) →
      s.graph.node? c = some (.closure name))
    (hkeep : ∀ {c scope}, s.closureScope c = .ok scope → t.closureScope c = .ok scope)
    (hkeep' : ∀ {c scope}, s'.closureScope c = .ok scope → t'.closureScope c = .ok scope) :
    Alike t t' := by
  refine ⟨hgraph, hdeclared, fun {c scope} hc => ?_⟩
  obtain ⟨⟨name, hnode⟩, -⟩ := closureScope_eq_ok.1 hc
  obtain ⟨scope', hscope'⟩ := hfull.exists_closureScope (hold hnode)
  have hsame := hkeep hscope'
  rw [hc] at hsame
  cases hsame
  exact hkeep' (h.closureScope hscope')

end Alike

/-! ### Operations on scopes that are alike

The same operation on scopes that are alike gives the same result, and scopes that are alike again.
A closure may capture other variables in the second scopes. -/

namespace Alike

/-! ### Opening and leaving -/

theorem withScope (h : Alike s s') (hfull : Full P none s) (hfull' : Full P' none s')
    {parent : ScopeId} (hparent : s.isScope parent = true) (kind : ScopeKind) :
    Alike ⟨Scopes.withScope s.graph parent kind, s.declared⟩
      ⟨Scopes.withScope s'.graph parent kind, s'.declared⟩ := by
  have hsound := hfull.tidy.sound
  have hsound' := hfull'.tidy.sound
  have hparent' : s'.isScope parent = true := by rwa [h.isScope]
  refine h.of_mirror hfull ?_ h.declared ?_
    (Opens.withScope hfull.tidy hparent kind).closureScope
    (Opens.withScope hfull'.tidy hparent' kind).closureScope
  · dsimp only
    rw [Scopes.withScope, Scopes.withScope, h.graph.fst_addNode]
    exact (h.graph.addNode hsound hsound' _).addEdge (hsound.addNode _) (hsound'.addNode _)
      (hasNode_addNode_new hsound _) _ _
  · intro c name hc
    dsimp only at hc
    rw [Scopes.withScope, node?_addEdge, hsound.node?_addNode] at hc
    split at hc
    · cases hc
    · exact hc

theorem leave (h : Alike s s') (hfull : Full P none s) (scope : ScopeId) :
    Alike ⟨s.graph.modifyNode scope ScopeNode.leave, s.declared⟩
      ⟨s'.graph.modifyNode scope ScopeNode.leave, s'.declared⟩ := by
  refine h.of_mirror hfull (h.graph.modifyNode scope fun _ => rfl) h.declared ?_
    (closureScope_leave scope) (closureScope_leave scope)
  intro c name hc
  dsimp only at hc
  rw [node?_modifyNode] at hc
  split at hc
  · obtain ⟨a, ha, hleave⟩ := Option.map_eq_some_iff.1 hc
    rw [ha]
    cases a with
    | closure name' => exact congrArg some hleave
    | _ => cases hleave
  · exact hc

/-! ### Writing and defining variables -/

theorem rebind (h : Alike s s') (hfull : Full P none s) (hfull' : Full P' none s') (var : VarId)
    (value : Value) :
    (s'.rebind var value).1 = (s.rebind var value).1 ∧
      Alike (s.rebind var value).2 (s'.rebind var value).2 := by
  have hname := h.variableName? var
  cases hvar : s.variableName? var with
  | none =>
    rw [hvar] at hname
    unfold Scopes.rebind
    rw [hvar, hname]
    exact ⟨rfl, h⟩
  | some name =>
    rw [hvar] at hname
    have hkeep := Keeps.rebind hfull.tidy var value
    have hkeep' := Keeps.rebind hfull'.tidy var value
    rw [rebind_of_variable hvar] at hkeep
    rw [rebind_of_variable hname] at hkeep'
    rw [rebind_of_variable hvar, rebind_of_variable hname]
    obtain ⟨mutable, hnode⟩ := variableName?_iff.1 hvar
    have hsound := hfull.tidy.sound
    have hsound' := hfull'.tidy.sound
    have hmirror : Mirror (bind (unbind s.graph var) var value)
        (bind (unbind s'.graph var) var value) := by
      refine (h.graph.unbind hsound hsound' (by simp [hnode])).bind (sound_unbind hsound var)
        (sound_unbind hsound' var) ?_ value
      exact hasNode_iff.2 ⟨_, node?_unbind_of_ne hfull.tidy (by simp) hnode⟩
    refine ⟨rfl, h.of_mirror hfull hmirror h.declared ?_ hkeep.closureScope hkeep'.closureScope⟩
    intro c name hc
    dsimp only at hc
    rw [node?_bind (sound_unbind hsound var)] at hc
    split at hc
    · cases hc
    · cases ht : tied? s.graph var .bindsTo with
      | none => rwa [unbind_of_none ht] at hc
      | some t =>
        rw [node?_unbind hsound ht] at hc
        split at hc
        · cases hc
        · exact hc

theorem withMutable (h : Alike s s') (hfull : Full P none s) (hfull' : Full P' none s')
    (var : VarId) (mutable : Bool) :
    Alike ⟨s.graph.modifyNode var (ScopeNode.withMutable mutable), s.declared⟩
      ⟨s'.graph.modifyNode var (ScopeNode.withMutable mutable), s'.declared⟩ := by
  refine h.of_mirror hfull (h.graph.modifyNode var fun _ => rfl) h.declared ?_
    (Keeps.modifyNode hfull.tidy var mutable).closureScope
    (Keeps.modifyNode hfull'.tidy var mutable).closureScope
  intro c name hc
  dsimp only at hc
  rw [node?_modifyNode] at hc
  split at hc
  · obtain ⟨a, ha, hwith⟩ := Option.map_eq_some_iff.1 hc
    rw [ha]
    cases a with
    | closure name' => exact congrArg some hwith
    | _ => cases hwith
  · exact hc

theorem redefine (h : Alike s s') (hfull : Full P none s) (hfull' : Full P' none s') (var : VarId)
    (value : Value) (mutable : Bool) :
    (s'.redefine var value mutable).1 = (s.redefine var value mutable).1 ∧
      Alike (s.redefine var value mutable).2 (s'.redefine var value mutable).2 := by
  obtain ⟨hresult, halike⟩ := (h.withMutable hfull hfull' var mutable).rebind
    (Full.withMutable hfull var mutable) (Full.withMutable hfull' var mutable) var value
  unfold Scopes.redefine
  dsimp only
  rw [hresult]
  exact ⟨rfl, halike⟩

theorem declare (h : Alike s s') (hfull : Full P none s) (hfull' : Full P' none s')
    {scope : ScopeId} (hscope : s.isScope scope = true) (name : String) (value : Value)
    (mutable : Bool) :
    (s'.declare scope name value mutable).1 = (s.declare scope name value mutable).1 ∧
      Alike (s.declare scope name value mutable).2 (s'.declare scope name value mutable).2 := by
  have hscope' : s'.isScope scope = true := by rwa [h.isScope]
  have hsound := hfull.tidy.sound
  have hsound' := hfull'.tidy.sound
  have hkeep := Keeps.declare hfull.tidy hscope name value mutable
  have hkeep' := Keeps.declare hfull'.tidy hscope' name value mutable
  have hadd := Keeps.withVariable hfull.tidy hscope name mutable
  have hadd' := Keeps.withVariable hfull'.tidy hscope' name mutable
  have hnew := h.graph.fst_addNode (.variable name mutable)
  obtain ⟨kind, active, hnode⟩ := isScope_iff.1 hscope
  have hmirror : Mirror (withVariable s.graph scope name mutable)
      (withVariable s'.graph scope name mutable) := by
    rw [withVariable, withVariable, hnew]
    exact (h.graph.addNode hsound hsound' _).addEdge (hsound.addNode _) (hsound'.addNode _)
      (hasNode_addNode hsound _ (hasNode_iff.2 ⟨_, hnode⟩)) _ _
  have hvar := node?_withVariable hsound scope name mutable
    (s.graph.addNode (.variable name mutable)).1
  rw [if_pos rfl] at hvar
  refine ⟨hnew, h.of_mirror hfull ?_ ?_ ?_ hkeep.closureScope hkeep'.closureScope⟩
  · rw [declare_eq, declare_eq]
    dsimp only
    rw [hnew]
    exact hmirror.bind hadd.tidy.sound hadd'.tidy.sound (hasNode_iff.2 ⟨_, hvar⟩) value
  · rw [declare_eq, declare_eq]
    dsimp only
    rw [hnew, h.declared]
  · intro c x hc
    rw [declare_eq] at hc
    dsimp only at hc
    rw [node?_bind hadd.tidy.sound, node?_withVariable hsound] at hc
    split at hc
    · cases hc
    · split at hc
      · cases hc
      · exact hc

theorem define (h : Alike s s') (hfull : Full P none s) (hfull' : Full P' none s')
    (scope : ScopeId) (name : String) (value : Value) (mutable : Bool) :
    (s'.define scope name value mutable).1 = (s.define scope name value mutable).1 ∧
      Alike (s.define scope name value mutable).2 (s'.define scope name value mutable).2 := by
  unfold Scopes.define
  rw [h.isScope, h.declared]
  by_cases hscope : s.isScope scope = true
  · rw [if_neg (by simp [hscope]), if_neg (by simp [hscope])]
    cases s.declared[(scope, name)]? with
    | none =>
      obtain ⟨hresult, halike⟩ := h.declare hfull hfull' hscope name value mutable
      exact ⟨congrArg Except.ok hresult, halike⟩
    | some var =>
      dsimp only
      rw [h.isMutable?]
      by_cases hmutable : (s.isMutable? var == some false) = true
      · rw [if_pos hmutable, if_pos hmutable]
        exact ⟨rfl, h⟩
      · rw [if_neg hmutable, if_neg hmutable]
        exact h.redefine hfull hfull' var value mutable
  · rw [if_pos (by simp [hscope]), if_pos (by simp [hscope])]
    exact ⟨rfl, h⟩

theorem assign (h : Alike s s') (hfull : Full P none s) (hfull' : Full P' none s')
    {scope : ScopeId} (hscope : s.isScope scope = true) (name : String) (value : Value) :
    (s'.assign scope name value).1 = (s.assign scope name value).1 ∧
      Alike (s.assign scope name value).2 (s'.assign scope name value).2 := by
  unfold Scopes.assign
  rw [h.find hfull hscope]
  cases s.find scope name with
  | error e => exact ⟨rfl, h⟩
  | ok var =>
    dsimp only
    rw [h.isMutable?]
    by_cases hmutable : (s.isMutable? var == some false) = true
    · rw [if_pos hmutable, if_pos hmutable]
      exact ⟨rfl, h⟩
    · rw [if_neg hmutable, if_neg hmutable]
      obtain ⟨hresult, halike⟩ := h.rebind hfull hfull' var value
      rw [hresult]
      exact ⟨rfl, halike⟩

end Alike

/-! ### Closures -/

/-- What a closure captures makes no difference. -/
theorem Mirror.captures {g g' : SlotGraph ScopeNode ScopeEdge} (h : Mirror g g')
    (htidy : Tidy ⟨g, d⟩) {c : ClosureId} {name : String} {captured : List VarId}
    (hc : g.node? c = some (.closure name))
    (hvars : ∀ var ∈ captured, ∃ name, Scopes.variableName? ⟨g, d⟩ var = some name) :
    Mirror (captured.foldl (fun graph var => (graph.addEdge c var .captures).2) g) g' := by
  induction captured generalizing g with
  | nil => exact h
  | cons var captured ih =>
    have hone : ∀ var' ∈ [var], ∃ name, Scopes.variableName? ⟨g, d⟩ var' = some name :=
      fun var' hvar' => hvars var' (by rw [List.mem_singleton.1 hvar']; simp)
    have hkeeps : Keeps ⟨g, d⟩ ⟨(g.addEdge c var .captures).2, d⟩ := .capture htidy hc hone
    refine ih (h.capture htidy.sound hc var .captures) hkeeps.tidy ?_ ?_
    · rw [node?_addEdge, hc]
    · intro var' hvar'
      obtain ⟨x, hx⟩ := hvars var' (List.mem_cons_of_mem var hvar')
      obtain ⟨mutable, hnode⟩ := variableName?_iff.1 hx
      exact ⟨x, variableName?_iff.2 ⟨mutable, by dsimp only; rw [node?_addEdge, hnode]⟩⟩

/-- Before it captures variables, a new closure leads to its scope only. -/
theorem withClosure_nil (scope : ScopeId) (name : String) :
    withClosure g scope name [] =
      ((g.addNode (.closure name)).2.addEdge (g.addNode (.closure name)).1 scope .captures).2 := rfl

theorem Alike.withClosure (h : Alike s s') (hfull : Full P none s) (hfull' : Full P' none s')
    {scope : ScopeId} (hscope : s.isScope scope = true) (name : String)
    {captured captured' : List VarId}
    (hvars : ∀ var ∈ captured, ∃ name, s.variableName? var = some name)
    (hvars' : ∀ var ∈ captured', ∃ name, s'.variableName? var = some name) :
    Alike ⟨Scopes.withClosure s.graph scope name captured, s.declared⟩
      ⟨Scopes.withClosure s'.graph scope name captured', s'.declared⟩ := by
  have hscope' : s'.isScope scope = true := by rwa [h.isScope]
  have hsound := hfull.tidy.sound
  have hsound' := hfull'.tidy.sound
  have hnew := h.graph.fst_addNode (.closure name)
  -- The closure without captured variables is the same on both sides.
  have hbare : Mirror (Scopes.withClosure s.graph scope name [])
      (Scopes.withClosure s'.graph scope name []) := by
    rw [withClosure_nil, withClosure_nil, hnew]
    exact (h.graph.addNode hsound hsound' _).addEdge (hsound.addNode _) (hsound'.addNode _)
      (hasNode_addNode_new hsound _) _ _
  have hcaptured {s : Scopes} (htidy : s.Tidy) (hscope : s.isScope scope = true)
      {captured : List VarId} (hvars : ∀ var ∈ captured, ∃ name, s.variableName? var = some name)
      {g' : SlotGraph ScopeNode ScopeEdge}
      (hmirror : Mirror (Scopes.withClosure s.graph scope name []) g') :
      Mirror (Scopes.withClosure s.graph scope name captured) g' := by
    have hkeeps : Keeps s ⟨Scopes.withClosure s.graph scope name [], s.declared⟩ :=
      (Keeps.withClosure htidy hscope (by simp) name).1
    have hclosure : (Scopes.withClosure s.graph scope name []).node?
        (s.graph.addNode (.closure name)).1 = some (.closure name) := by
      rw [node?_withClosure htidy.sound, if_pos rfl]
    refine Mirror.captures hmirror hkeeps.tidy hclosure ?_
    · intro var hvar
      obtain ⟨x, hx⟩ := hvars var hvar
      obtain ⟨mutable, hnode⟩ := variableName?_iff.1 hx
      refine ⟨x, variableName?_iff.2 ⟨mutable, ?_⟩⟩
      dsimp only
      rw [node?_withClosure htidy.sound, if_neg (node?_ne_new htidy.sound hnode), hnode]
  have hmirror : Mirror (Scopes.withClosure s.graph scope name captured)
      (Scopes.withClosure s'.graph scope name captured') :=
    (hcaptured hfull'.tidy hscope' hvars' (hcaptured hfull.tidy hscope hvars hbare).symm).symm
  obtain ⟨hkeeps, hmade⟩ := Keeps.withClosure hfull.tidy hscope hvars name
  obtain ⟨hkeeps', hmade'⟩ := Keeps.withClosure hfull'.tidy hscope' hvars' name
  refine ⟨hmirror, h.declared, fun {c inner} hc => ?_⟩
  by_cases hcnew : c = (s.graph.addNode (.closure name)).1
  · rw [hcnew] at hc ⊢
    rw [hmade] at hc
    cases hc
    rw [← hnew]
    exact hmade'
  · obtain ⟨⟨x, hnode⟩, -⟩ := closureScope_eq_ok.1 hc
    dsimp only at hnode
    rw [node?_withClosure hsound, if_neg hcnew] at hnode
    obtain ⟨inner', hinner'⟩ := hfull.exists_closureScope hnode
    have hsame := hkeeps.closureScope hinner'
    rw [hc] at hsame
    cases hsame
    exact hkeeps'.closureScope (h.closureScope hinner')

end GraphLang.Scopes
