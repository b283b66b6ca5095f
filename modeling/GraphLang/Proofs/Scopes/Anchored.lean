import GraphLang.Proofs.Scopes.Captures

/-!
# Captured variables stay within sight

Whatever is done with the scopes, each variable that a closure captured is contained in a scope
around the closure or was imported there. Closures come about in no other way than by being made,
and what they captured then stays where it is.
-/

namespace GraphLang.Scopes

open SlotGraph

variable {g g₁ g₂ : SlotGraph ScopeNode ScopeEdge} {s s₁ : Scopes} {n scope : ScopeId}
  {c : ClosureId} {var : VarId} {name : String}

/-! ### Where closures come from -/

/-- All closures were there before. -/
def NoNewClosure (g g₁ : SlotGraph ScopeNode ScopeEdge) : Prop :=
  ∀ c fname, g₁.node? c = some (.closure fname) → g.node? c = some (.closure fname)

namespace NoNewClosure

theorem refl (g : SlotGraph ScopeNode ScopeEdge) : NoNewClosure g g := fun _ _ => id

theorem trans (h : NoNewClosure g g₁) (h' : NoNewClosure g₁ g₂) : NoNewClosure g g₂ :=
  fun c fname hc => h c fname (h' c fname hc)

theorem addNode (h : g.Sound) {a : ScopeNode} (ha : ∀ fname, a ≠ .closure fname) :
    NoNewClosure g (g.addNode a).2 := by
  intro c fname hc
  rw [h.node?_addNode] at hc
  split at hc
  · exact absurd (Option.some.inj hc) (ha fname)
  · exact hc

theorem addEdge (n t : Nat) (kind : ScopeEdge) : NoNewClosure g (g.addEdge n t kind).2 := by
  intro c fname hc
  rwa [node?_addEdge] at hc

theorem modifyNode {f : ScopeNode → ScopeNode}
    (hf : ∀ a fname, f a = .closure fname → a = .closure fname) (n : Nat) :
    NoNewClosure g (g.modifyNode n f) := by
  intro c fname hc
  rw [node?_modifyNode] at hc
  split at hc
  · obtain ⟨a, ha, hfa⟩ := Option.map_eq_some_iff.1 hc
    rw [ha, hf a fname hfa]
  · exact hc

theorem bind (h : g.Sound) (var : VarId) (value : Value) :
    NoNewClosure g (Scopes.bind g var value) := by
  intro c fname hc
  rw [node?_bind h] at hc
  split at hc
  · cases hc
  · exact hc

theorem unbind (h : g.Sound) (var : VarId) : NoNewClosure g (Scopes.unbind g var) := by
  intro c fname hc
  cases ht : tied? g var .bindsTo with
  | none => rwa [unbind_of_none ht] at hc
  | some t =>
    rw [node?_unbind h ht] at hc
    split at hc
    · cases hc
    · exact hc

theorem rebind (h : s.graph.Sound) (var : VarId) (value : Value) :
    NoNewClosure s.graph (s.rebind var value).2.graph := by
  cases hvar : s.variableName? var with
  | none =>
    rw [Scopes.rebind, hvar]
    exact .refl _
  | some name =>
    rw [rebind_of_variable hvar]
    exact (unbind h var).trans (bind (sound_unbind h var) var value)

theorem push (h : s.graph.Sound) (parent : ScopeId) (kind : ScopeKind) :
    NoNewClosure s.graph (s.push parent kind).2.graph := by
  by_cases hparent : s.isScope parent = true
  · rw [push_of_isScope hparent]
    exact (addNode h fun _ => by simp).trans (addEdge _ _ _)
  · rw [Scopes.push, if_neg hparent]
    exact .refl _

theorem pop (scope : ScopeId) : NoNewClosure s.graph (s.pop scope).2.graph := by
  by_cases hscope : s.isScope scope = true
  · rw [pop_of_isScope hscope]
    exact modifyNode (fun a _ => by cases a <;> simp [ScopeNode.leave]) scope
  · rw [Scopes.pop, if_neg hscope]
    exact .refl _

theorem declare (h : s.graph.Sound) (hscope : s.isScope scope = true) (name : String)
    (value : Value) (mutable : Bool) :
    NoNewClosure s.graph (s.declare scope name value mutable).2.graph := by
  have hadd : NoNewClosure s.graph (withVariable s.graph scope name mutable) :=
    (addNode h fun _ => by simp).trans (addEdge _ _ _)
  obtain ⟨kind, active, hnode⟩ := isScope_iff.1 hscope
  have hsound : (withVariable s.graph scope name mutable).Sound :=
    (h.addNode _).addEdge (hasNode_addNode h _ (hasNode_iff.2 ⟨_, hnode⟩))
      (hasNode_addNode_new h _) _
  rw [declare_eq]
  exact hadd.trans (bind hsound _ value)

theorem define (h : s.graph.Sound) (scope : ScopeId) (name : String) (value : Value)
    (mutable : Bool) : NoNewClosure s.graph (s.define scope name value mutable).2.graph := by
  rcases define_cases s scope name value mutable with heq | ⟨hscope, heq⟩ | ⟨var, heq⟩ <;> rw [heq]
  · exact .refl _
  · exact declare h hscope name value mutable
  · have hmodify : NoNewClosure s.graph (s.graph.modifyNode var (ScopeNode.withMutable mutable)) :=
      modifyNode (fun a _ => by cases a <;> simp [ScopeNode.withMutable]) var
    exact hmodify.trans (rebind (s := ⟨_, s.declared⟩) (h.modifyNode var _) var value)

/-- Natives are no closures. -/
theorem natives (h : s.Tidy) (hscope : s.isScope scope = true) (natives : List Native) :
    NoNewClosure s.graph
      (natives.foldl (fun s n => (s.declare scope n.name (.native n) false).2) s).graph := by
  induction natives generalizing s with
  | nil => exact .refl _
  | cons n natives ih =>
    have hkeeps := Keeps.declare h hscope n.name (.native n) false
    exact (declare h.sound hscope n.name (.native n) false).trans
      (ih hkeeps.tidy (hkeeps.isScope hscope))

theorem assign (h : s.graph.Sound) (scope : ScopeId) (name : String) (value : Value) :
    NoNewClosure s.graph (s.assign scope name value).2.graph := by
  unfold Scopes.assign
  split
  · exact .refl _
  · split
    · exact .refl _
    · exact rebind h _ value

theorem importVar (scope : ScopeId) (var : VarId) :
    NoNewClosure s.graph (s.importVar scope var).2.graph := by
  unfold Scopes.importVar
  split
  · exact .refl _
  · split
    · exact .refl _
    · exact addEdge _ _ _

theorem collect (store : Store) (roots : List Nat) :
    NoNewClosure s.graph (s.collect store roots).2.graph := by
  intro c fname hc
  rw [collect_eq, node?_sweep] at hc
  split at hc
  · cases hc
  · exact hc

end NoNewClosure

/-! ### Anchored closures -/

/-- A scope around the closure shows each variable that the closure captured. -/
def AnchoredAt (s : Scopes) (c : ClosureId) : Prop :=
  ∀ n name var, s.closureScope c = .ok n → (name, var) ∈ s.captured c →
    ∃ m ∈ s.ancestry n, s.Shows m var

/-- This is so for every closure. -/
def Anchored (s : Scopes) : Prop :=
  ∀ c fname, s.graph.node? c = some (.closure fname) → s.AnchoredAt c

theorem AnchoredAt.carries (h : s.AnchoredAt c) (hs : Regular none s) {fname : String}
    (hc : s.graph.node? c = some (.closure fname)) (hcarries : Carries (s.Behind c) s s₁) :
    s₁.AnchoredAt c := by
  intro n name var hscope hmem
  obtain ⟨hsame, hcaptured⟩ := hcarries.closure_same hs hc
  rw [hsame] at hscope
  rw [hcaptured] at hmem
  have hn := isScope_of_closureScope hscope
  have hbehind := hs.behind_closureScope hscope
  obtain ⟨m, hm, hshows⟩ := h n name var hscope hmem
  refine ⟨m, (hcarries.ancestry hs hbehind hn).symm ▸ hm, ?_⟩
  exact hcarries.shows (hs.behind_of_mem_chain hbehind hm) (hs.isScope_of_mem_chain hn hm) hshows

/-- A captured variable is not out of sight: if its name means another one, that one is at least as
near. -/
theorem AnchoredAt.exists_means (h : s.AnchoredAt c) (hs : Regular none s) {fname : String}
    (hc : s.graph.node? c = some (.closure fname)) (hmem : (name, var) ∈ s.captured c) :
    ∃ x, s.Means c name x ∧ s.Nearest c name var x := by
  obtain ⟨n, hscope⟩ := hs.exists_closureScope hc
  obtain ⟨m, hm, hshows⟩ := h n name var hscope hmem
  obtain ⟨x, near, k, far, hx, heq, hlocal, hfirst⟩ :=
    hs.exists_resolve (isScope_of_closureScope hscope) hm hshows (mem_captured.1 hmem).2
  refine ⟨x, hs.means hscope hx, n, near, k, far, hscope, heq, hlocal, m, ?_, hshows⟩
  rw [heq] at hm
  exact (List.mem_append.1 hm).resolve_left hfirst

theorem Anchored.carries (h : s.Anchored) (hs : Regular none s)
    (hold : NoNewClosure s.graph s₁.graph) (hcarries : Carries (fun _ => True) s s₁) :
    s₁.Anchored := fun c fname hc =>
  (h c fname (hold c fname hc)).carries hs (hold c fname hc) (hcarries.weaken fun _ _ => trivial)

/-- A new closure captured what can be seen from its scope. -/
theorem Anchored.createClosure (h : s.Anchored) (hs : Regular none s) (n : ScopeId)
    (fname : String) (names : List String) : (s.createClosure n fname names).2.Anchored := by
  have hcarries : Carries (fun _ => True) s (s.createClosure n fname names).2 :=
    hs.carries_createClosure n fname names
  by_cases hn : s.isScope n = true
  · have hmade := createClosure_of_isScope hn fname names
    have hregular := hs.createClosure n fname names
    obtain ⟨-, hscope, hcaptured⟩ := hs.createClosure_captures hmade
    rw [hmade] at hcarries hregular ⊢
    intro c fname' hc
    by_cases hnew : c = (s.graph.addNode (.closure fname)).1
    · subst hnew
      intro n' name var hscope' hmem
      rw [hscope] at hscope'
      cases hscope'
      have hresolve := ((hcaptured name var).1 hmem).2
      obtain ⟨near, m, far, heq, hlocal, -⟩ :=
        (hregular.resolve_eq_some_iff (isScope_of_closureScope hscope)).1 hresolve
      exact ⟨m, heq ▸ List.mem_append_right near List.mem_cons_self,
        hregular.shows_of_localVar? hlocal⟩
    · have hold : s.graph.node? c = some (.closure fname') := by
        dsimp only at hc
        rwa [node?_withClosure hs.sound, if_neg hnew] at hc
      exact (h c fname' hold).carries hs hold (hcarries.weaken fun _ _ => trivial)
  · rw [Scopes.createClosure, if_neg hn]
    exact h

theorem Anchored.collect (h : s.Anchored) (hs : Regular none s) (store : Store)
    (roots : List Nat) : (s.collect store roots).2.Anchored := by
  intro c fname hc
  have hold := NoNewClosure.collect store roots c fname hc
  have hself : Carries (s.Behind c) s s := .refl hs
  exact (h c fname hold).carries hs hold (hself.collect hs (hasNode_iff.2 ⟨_, hc⟩))

end GraphLang.Scopes
