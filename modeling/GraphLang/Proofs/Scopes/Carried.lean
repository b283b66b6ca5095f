import GraphLang.Proofs.Scopes.Survival
import GraphLang.Proofs.Scopes.Undisturbed

/-!
# What scopes and closures keep

Operations add variables to scopes and import some into them, and take none away. Scopes stay in the
scopes around them, and closures in the scope that they were made in, with the variables that they
captured. Collecting keeps all this for whatever a closure that stays leads to. So where a name can
be seen it can be seen ever after, though it may come to mean another variable.
-/

namespace GraphLang.Scopes

open SlotGraph

variable {kept kept' : Nat → Prop} {s s₁ s₂ : Scopes} {n : ScopeId} {c : ClosureId} {var : VarId}
  {name : String}

/-- Of the given nodes, scopes may get variables and imports and lose none, variables keep their
names, and closures are as they were. -/
structure Carries (kept : Nat → Prop) (s s₁ : Scopes) : Prop where
  /-- The scopes are regular. -/
  regular : Regular none s₁
  /-- Scopes are still there. -/
  isScope : ∀ {n}, kept n → s.isScope n = true → s₁.isScope n = true
  /-- Variables keep their names. -/
  name : ∀ {var name}, kept var → s.variableName? var = some name →
    s₁.variableName? var = some name
  /-- Scopes lead where they led, and to new variables in front of that. -/
  ties : ∀ {n}, kept n → s.isScope n = true → ∃ new,
    s₁.graph.ties n = new ++ s.graph.ties n ∧ ∀ t ∈ new, t.1 ≠ .parent
  /-- Closures are as they were. -/
  closure : ∀ {c fname}, kept c → s.graph.node? c = some (.closure fname) →
    s₁.graph.node? c = some (.closure fname) ∧ s₁.graph.ties c = s.graph.ties c

namespace Carries

theorem refl (h : Regular none s) : Carries kept s s :=
  ⟨h, fun _ => id, fun _ => id, fun _ _ => ⟨[], rfl, List.forall_mem_nil _⟩, fun _ hc => ⟨hc, rfl⟩⟩

theorem trans (h : Carries kept s s₁) (h' : Carries kept' s₁ s₂) (hsub : ∀ n, kept n → kept' n) :
    Carries kept s s₂ where
  regular := h'.regular
  isScope hn := h'.isScope (hsub _ hn) ∘ h.isScope hn
  name hvar := h'.name (hsub _ hvar) ∘ h.name hvar
  ties hn hscope := by
    obtain ⟨new, hnew, hkind⟩ := h.ties hn hscope
    obtain ⟨new', hnew', hkind'⟩ := h'.ties (hsub _ hn) (h.isScope hn hscope)
    refine ⟨new' ++ new, by rw [hnew', hnew, List.append_assoc], fun t ht => ?_⟩
    exact (List.mem_append.1 ht).elim (hkind' t) (hkind t)
  closure hc hclosure := by
    obtain ⟨hclosure₁, hties₁⟩ := h.closure hc hclosure
    obtain ⟨hclosure₂, hties₂⟩ := h'.closure (hsub _ hc) hclosure₁
    exact ⟨hclosure₂, hties₂.trans hties₁⟩

theorem weaken (h : Carries kept s s₁) (hsub : ∀ n, kept' n → kept n) : Carries kept' s s₁ :=
  ⟨h.regular, fun hn => h.isScope (hsub _ hn), fun hvar => h.name (hsub _ hvar),
    fun hn => h.ties (hsub _ hn), fun hc => h.closure (hsub _ hc)⟩

/-- A change that adds variables at most to one scope. -/
theorem of_undisturbed (scope : ScopeId) (hs : Regular none s)
    (h : Undisturbed (· ≠ scope) s s₁)
    (htouches : Touches (fun x => s.isScope x = true ∨ s.Mutable x) s s₁)
    (hgrows : s.isScope scope = true → ∃ new,
      s₁.graph.ties scope = new ++ s.graph.ties scope ∧ ∀ t ∈ new, t.1 ≠ .parent) :
    Carries kept s s₁ where
  regular := h.regular
  isScope _ := h.isScope
  name _ := h.name
  ties {n} _ hn := by
    by_cases hscope : n = scope
    · exact hscope ▸ hgrows (hscope ▸ hn)
    · exact ⟨[], h.ties hn hscope, List.forall_mem_nil _⟩
  closure {c fname} _ hc := by
    rcases htouches with hnone | ⟨x, hx, hat⟩
    · exact ⟨hnone.node hc id, hnone.ties hc id⟩
    · -- A closure is no scope, no variable and no value.
      have haway : ¬At s.graph x c := by
        rintro (rfl | hmem)
        · rcases hx with hscope | ⟨name, hvar⟩
          · obtain ⟨kind, active, hnode⟩ := isScope_iff.1 hscope
            rw [hc] at hnode
            cases hnode
          · rw [hc] at hvar
            cases hvar
        · obtain ⟨e, hedge⟩ := hs.sound.mem_ties.1 hmem
          obtain ⟨value, hvalue⟩ := hs.bindsTo_ends hedge
          rw [hc] at hvalue
          cases hvalue
      exact ⟨hat.node hc haway, hat.ties hc haway⟩

/-- A change that adds no variable to any scope. -/
theorem of_undisturbed_all (hs : Regular none s) (h : Undisturbed (fun _ => True) s s₁)
    (htouches : Touches (fun x => s.isScope x = true ∨ s.Mutable x) s s₁) : Carries kept s s₁ := by
  refine of_undisturbed 0 hs ?_ htouches fun hn =>
    ⟨[], h.ties hn trivial, List.forall_mem_nil _⟩
  exact ⟨h.regular, h.isScope, h.name, fun hn _ => h.ties hn trivial,
    fun hn _ => h.declared hn trivial⟩

end Carries

/-! ### Operations -/

/-- A scope that a variable is added to leads to it, and to what it led to. -/
theorem Regular.ties_declare (h : Regular none s) {scope : ScopeId} (hscope : s.isScope scope = true)
    (name : String) (value : Value) (mutable : Bool) :
    (s.declare scope name value mutable).2.graph.ties scope =
      (.contains, (s.graph.addNode (.variable name mutable)).1) :: s.graph.ties scope := by
  obtain ⟨kind, active, hnode⟩ := isScope_iff.1 hscope
  have hsound := h.sound.addNode (.variable name mutable)
  have hlive := hasNode_addNode h.sound (.variable name mutable) (hasNode_iff.2 ⟨_, hnode⟩)
  have hnew := hasNode_addNode_new h.sound (.variable name mutable)
  have hadded : (withVariable s.graph scope name mutable).Sound := hsound.addEdge hlive hnew _
  have hvar : (withVariable s.graph scope name mutable).hasNode
      (s.graph.addNode (.variable name mutable)).1 = true := by
    rw [hasNode, node?_withVariable h.sound, if_pos rfl]
    rfl
  rw [declare_eq]
  dsimp only
  rw [ties_bind hadded hvar, if_neg (node?_ne_new h.sound hnode),
    withVariable, hsound.ties_addEdge hlive, if_pos rfl, h.sound.ties_addNode]

theorem Regular.carries_push (h : Regular none s) (parent : ScopeId) (kind : ScopeKind) :
    Carries kept s (s.push parent kind).2 :=
  .of_undisturbed_all h (h.undisturbed_push parent kind)
    (Or.inl (confined_push h.sound parent kind))

theorem Regular.carries_pop (h : Regular none s) (scope : ScopeId) :
    Carries kept s (s.pop scope).2 :=
  .of_undisturbed_all h (h.undisturbed_pop scope) ((touches_pop scope).weaken fun _ => Or.inl)

theorem Regular.carries_assign (h : Regular none s) (scope : ScopeId) (name : String)
    (value : Value) : Carries kept s (s.assign scope name value).2 :=
  .of_undisturbed_all h (h.undisturbed_assign scope name value)
    ((h.touches_assign scope name value).weaken fun _ => Or.inr)

theorem Regular.carries_createClosure (h : Regular none s) (scope : ScopeId) (fname : String)
    (names : List String) : Carries kept s (s.createClosure scope fname names).2 :=
  .of_undisturbed_all h (h.undisturbed_createClosure scope fname names)
    (Or.inl (h.confined_createClosure scope fname names))

theorem Regular.carries_define (h : Regular none s) (scope : ScopeId) (name : String)
    (value : Value) (mutable : Bool) : Carries kept s (s.define scope name value mutable).2 := by
  refine .of_undisturbed scope h (h.undisturbed_define (not_not_intro rfl) name value mutable)
    ((h.touches_define scope name value mutable).weaken ?_) fun hscope => ?_
  · rintro x (⟨rfl, hx⟩ | hx)
    · exact Or.inl hx
    · exact Or.inr hx
  · unfold Scopes.define
    rw [if_neg (by simp [hscope])]
    cases hvar : s.declared[(scope, name)]? with
    | none => exact ⟨[_], h.ties_declare hscope name value mutable, by simp⟩
    | some var =>
      dsimp only
      by_cases hmutable : (s.isMutable? var == some false) = true
      · rw [if_pos hmutable]
        exact ⟨[], rfl, List.forall_mem_nil _⟩
      · rw [if_neg hmutable]
        -- The variable is no scope, and neither is its value.
        obtain ⟨-, hname⟩ := (h.declared scope name var).1 hvar
        obtain ⟨mutable', hnode⟩ := variableName?_iff.1 hname
        rw [isMutable?_of_node? hnode] at hmutable
        have hwritten : s.Mutable var := ⟨name, by simpa [hnode] using hmutable⟩
        have htouches : Touches (fun x => ¬True ∨ s.Mutable x) s (s.redefine var value mutable).2 :=
          Or.inr ⟨var, Or.inr hwritten, h.confined_redefine var value mutable⟩
        exact ⟨[], h.ties_of_touches htouches hscope trivial, List.forall_mem_nil _⟩

theorem Regular.undisturbed_importVar (h : Regular none s) {scope : ScopeId} (hscope : ¬kept scope)
    (var : VarId) : Undisturbed kept s (s.importVar scope var).2 := by
  have hregular := h.importVar scope var
  unfold Scopes.importVar at hregular ⊢
  by_cases hlive : s.isScope scope = true
  · rw [if_neg (by simp [hlive])] at hregular ⊢
    obtain ⟨kind, active, hnode⟩ := isScope_iff.1 hlive
    cases hvar : s.variableName? var with
    | none => exact .refl h
    | some name =>
      rw [hvar] at hregular
      refine ⟨hregular, fun hn => ?_, fun hname => ?_, fun {n} _ hn => ?_, fun _ _ _ => rfl⟩
      · rwa [isScope_congr (node?_addEdge ..)]
      · rw [variableName?] at hname ⊢
        rwa [node?_addEdge]
      · dsimp only
        rw [h.sound.ties_addEdge (hasNode_iff.2 ⟨_, hnode⟩), if_neg]
        rintro rfl
        exact hscope hn
  · rw [if_pos (by simp [hlive])]
    exact .refl h

theorem Regular.carries_importVar (h : Regular none s) (scope : ScopeId) (var : VarId) :
    Carries kept s (s.importVar scope var).2 := by
  refine .of_undisturbed scope h (h.undisturbed_importVar (not_not_intro rfl) var)
    ((h.touches_importVar scope var).weaken fun _ => Or.inl) fun hscope => ?_
  obtain ⟨kind, active, hnode⟩ := isScope_iff.1 hscope
  unfold Scopes.importVar
  rw [if_neg (by simp [hscope])]
  cases s.variableName? var with
  | none => exact ⟨[], rfl, List.forall_mem_nil _⟩
  | some name =>
    refine ⟨[(.captures, var)], ?_, by simp⟩
    dsimp only
    rw [h.sound.ties_addEdge (hasNode_iff.2 ⟨_, hnode⟩), if_pos rfl]
    rfl

/-- Collecting leaves what is retained as it is. -/
theorem Regular.carries_collect (h : Regular none s) (store : Store) (roots : List Nat) :
    Carries (s.Retained store roots) s (s.collect store roots).2 := by
  have hagree := h.agreeOn_collect store roots
  have hties {n : Nat} (hn : s.Retained store roots n) :
      (s.collect store roots).2.graph.ties n = s.graph.ties n := by
    rw [SlotGraph.ties, hagree.outgoing hn]
    rfl
  refine ⟨h.collect store roots, fun hn hscope => ?_, fun hvar hname => ?_, fun hn _ => ?_,
    fun hc hclosure => ?_⟩
  · rwa [hagree.isScope hn]
  · rwa [hagree.variableName? hvar]
  · exact ⟨[], hties hn, List.forall_mem_nil _⟩
  · exact ⟨(hagree.node? hc).trans hclosure, hties hc⟩

/-! ### What a closure leads to -/

/-- What a node leads to, values apart. -/
def Behind (s : Scopes) : Nat → Nat → Prop :=
  Relation.ReflTransGen fun a b => ∃ kind, kind ≠ ScopeEdge.bindsTo ∧ (kind, b) ∈ s.graph.ties a

theorem Behind.tie {m t : Nat} {kind : ScopeEdge} (h : s.Behind n m) (ht : (kind, t) ∈ s.graph.ties m)
    (hkind : kind ≠ .bindsTo) : s.Behind n t :=
  h.tail ⟨kind, hkind, ht⟩

/-- What is carried is still behind the node. -/
theorem Carries.behind (h : Carries (s.Behind n) s s₁) (hs : Regular none s) {m : Nat}
    (hm : s.Behind n m) : s₁.Behind n m := by
  induction hm with
  | refl => exact .refl
  | @tail a b hab hstep ih =>
    obtain ⟨kind, hkind, htie⟩ := hstep
    refine Behind.tie ih ?_ hkind
    -- Only scopes and closures lead to anything but values.
    obtain ⟨e, hedge⟩ := hs.sound.mem_ties.1 htie
    obtain ⟨x, y, hx, -, hfits⟩ := hs.fits hedge
    have hsource : (∃ kind active, x = .scope kind active) ∨ ∃ fname, x = .closure fname := by
      cases x <;> cases kind <;> cases y <;> simp_all [ScopeNode.Fits]
    rcases hsource with ⟨kind', active, rfl⟩ | ⟨fname, rfl⟩
    · obtain ⟨new, hnew, -⟩ := h.ties hab (isScope_iff.2 ⟨kind', active, hx⟩)
      rw [hnew]
      exact List.mem_append_right new htie
    · exact (h.closure hab hx).2 ▸ htie

/-- What is behind a retained node is retained. -/
theorem Behind.retained {store : Store} {roots : List Nat} (hsound : s.graph.Sound) {m : Nat}
    (hm : s.Behind n m) (hn : s.Retained store roots n) : s.Retained store roots m := by
  induction hm with
  | refl => exact hn
  | @tail a b _ hstep ih =>
    obtain ⟨kind, -, htie⟩ := hstep
    obtain ⟨e, hedge⟩ := hsound.mem_ties.1 htie
    have hsource : s.Retained store roots (Edge.mk a b kind).source := ih
    exact hsource.edge hedge

/-- A collection that does not remove the node keeps all that is behind it. -/
theorem Carries.collect (h : Carries (s.Behind n) s s₁) (hs : Regular none s) {store : Store}
    {roots : List Nat} (hkept : (s₁.collect store roots).2.graph.hasNode n = true) :
    Carries (s.Behind n) s (s₁.collect store roots).2 :=
  h.trans (h.regular.carries_collect store roots) fun _ hm =>
    (h.behind hs hm).retained h.regular.sound ((hasNode_collect h.regular.sound).1 hkept)

end GraphLang.Scopes
