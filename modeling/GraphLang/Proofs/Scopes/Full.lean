import GraphLang.Proofs.Callables
import GraphLang.Proofs.Scopes.Opening

/-!
# Full scopes

In full scopes every variable has a value of its own and every closure has its scope, and a
condition holds of all bound values. While an operation is at work, one node may be bare.
-/

namespace GraphLang.Scopes

open SlotGraph

variable {g : SlotGraph ScopeNode ScopeEdge} {d : Std.HashMap (ScopeId × String) VarId}
  {s : Scopes} {P Q : Value → Prop} {bare : Option Nat}

/-- A variable has a value, and a closure has a scope. -/
def Tied (s : Scopes) (n : Nat) : Prop :=
  match s.graph.node? n with
  | some (.variable ..) => ∃ t, (ScopeEdge.bindsTo, t) ∈ s.graph.ties n
  | some (.closure _) => ∃ scope, s.closureScope n = .ok scope
  | _ => True

/-- Every variable has a value of its own and every closure has its scope, except for a node that is
bare. The condition holds of all bound values. -/
structure Full (P : Value → Prop) (bare : Option Nat) (s : Scopes) : Prop where
  /-- The scopes are tidy. -/
  tidy : s.Tidy
  /-- No two variables share a value. -/
  own : ∀ {n m t}, (ScopeEdge.bindsTo, t) ∈ s.graph.ties n →
    (ScopeEdge.bindsTo, t) ∈ s.graph.ties m → n = m
  /-- Around a scope there is a scope. -/
  outer : ∀ {n t}, (ScopeEdge.parent, t) ∈ s.graph.ties n → s.isScope t = true
  /-- Variables have values, and closures have scopes. -/
  tied : ∀ {n}, bare ≠ some n → s.Tied n
  /-- The condition holds of bound values. -/
  holds : ∀ {n v}, s.graph.node? n = some (.binding v) → v.Holds P

theorem Full.mono (h : Full P bare s) (hPQ : ∀ v, P v → Q v) : Full Q bare s :=
  ⟨h.tidy, h.own, h.outer, h.tied, fun hn => (h.holds hn).mono hPQ⟩

/-- A node that is tied after all. -/
theorem Full.settle {n : Nat} (h : Full P (some n) s) (hn : s.Tied n) : Full P none s := by
  refine ⟨h.tidy, h.own, h.outer, fun {m} _ => ?_, h.holds⟩
  by_cases hm : n = m
  · exact hm ▸ hn
  · exact h.tied (by simpa using hm)

/-- What is tied stays tied if no value is taken from a variable and no scope from a closure. -/
theorem Tied.keep {s s' : Scopes} {n : Nat} (hn : s.Tied n)
    (hvar : ∀ {name mutable}, s'.graph.node? n = some (.variable name mutable) →
      (∃ name mutable, s.graph.node? n = some (.variable name mutable)) ∧
        ∀ {t}, (ScopeEdge.bindsTo, t) ∈ s.graph.ties n →
          (ScopeEdge.bindsTo, t) ∈ s'.graph.ties n)
    (hclosure : ∀ {name}, s'.graph.node? n = some (.closure name) →
      s.graph.node? n = some (.closure name) ∧
        ∀ {scope}, s.closureScope n = .ok scope → s'.closureScope n = .ok scope) : s'.Tied n := by
  unfold Tied
  split
  · rename_i name mutable hnode
    obtain ⟨⟨name', mutable', hold⟩, hties⟩ := hvar hnode
    rw [Tied, hold] at hn
    obtain ⟨t, ht⟩ := hn
    exact ⟨t, hties ht⟩
  · rename_i name hnode
    obtain ⟨hold, hscope⟩ := hclosure hnode
    rw [Tied, hold] at hn
    obtain ⟨scope, ht⟩ := hn
    exact ⟨scope, hscope ht⟩
  · trivial

/-! ### Single changes of the graph -/

/-- A new node is bare, unless it is a scope or a value. -/
theorem Full.addNode (h : Full P bare ⟨g, d⟩) {a : ScopeNode}
    (hvalue : ∀ v, a = .binding v → v.Holds P) {bare' : Option Nat}
    (hbare : bare = none ∨ bare' = bare)
    (hnew : bare' = some (g.addNode a).1 ∨ (∃ kind, a = .scope kind true) ∨ ∃ v, a = .binding v) :
    Full P bare' ⟨(g.addNode a).2, d⟩ where
  tidy := h.tidy.addNode a
  own := by
    intro n m t hn hm
    rw [h.tidy.sound.ties_addNode] at hn hm
    exact h.own hn hm
  outer := by
    intro n t hn
    rw [h.tidy.sound.ties_addNode] at hn
    rw [isScope_addNode_of_tie h.tidy.sound a hn]
    exact h.outer hn
  tied := by
    intro n hn
    by_cases heq : n = (g.addNode a).1
    · have hnode : (g.addNode a).2.node? n = some a := by
        rw [h.tidy.sound.node?_addNode, if_pos heq]
      rw [Tied, hnode]
      obtain hnew | ⟨kind, rfl⟩ | ⟨v, rfl⟩ := hnew
      · exact absurd (heq ▸ hnew) hn
      · trivial
      · trivial
    · have hnode : (g.addNode a).2.node? n = g.node? n := by
        rw [h.tidy.sound.node?_addNode, if_neg heq]
      refine (h.tied ?_).keep (fun hvar => ⟨⟨_, _, hnode.symm.trans hvar⟩, fun ht => ?_⟩)
        fun hclosure => ⟨hnode.symm.trans hclosure, closureScope_addNode h.tidy.sound a⟩
      · rcases hbare with rfl | rfl
        · simp
        · exact hn
      · dsimp only
        rwa [h.tidy.sound.ties_addNode]
  holds := by
    intro n v hn
    dsimp only at hn
    rw [h.tidy.sound.node?_addNode] at hn
    split at hn
    · exact hvalue v (Option.some.inj hn)
    · exact h.holds hn

/-- A new tie that binds nothing. -/
theorem Full.addEdge (h : Full P bare ⟨g, d⟩) {n t : Nat} {kind : ScopeEdge}
    (hkind : kind ≠ .bindsTo) (hparent : kind = .parent → Scopes.isScope ⟨g, d⟩ t = true)
    (hkeeps : Keeps ⟨g, d⟩ ⟨(g.addEdge n t kind).2, d⟩)
    (hn : g.hasNode n = true) : Full P bare ⟨(g.addEdge n t kind).2, d⟩ where
  tidy := hkeeps.tidy
  own := by
    have hold {m t' : Nat} (hm : (ScopeEdge.bindsTo, t') ∈ (g.addEdge n t kind).2.ties m) :
        (ScopeEdge.bindsTo, t') ∈ g.ties m := by
      rw [h.tidy.sound.ties_addEdge hn] at hm
      split at hm
      · rcases List.mem_cons.1 hm with heq | hm
        · exact absurd (congrArg Prod.fst heq).symm hkind
        · exact hm
      · exact hm
    intro m m' t' hm hm'
    exact h.own (hold hm) (hold hm')
  outer := by
    intro m t' hm
    refine hkeeps.isScope ?_
    rw [h.tidy.sound.ties_addEdge hn] at hm
    split at hm
    · rcases List.mem_cons.1 hm with heq | hm
      · cases heq
        exact hparent rfl
      · exact h.outer hm
    · exact h.outer hm
  tied := by
    intro m hm
    have hnode := node?_addEdge (g := g) n t kind m
    refine (h.tied hm).keep (fun hvar => ⟨⟨_, _, hnode.symm.trans hvar⟩, fun ht => ?_⟩)
      fun hclosure => ⟨hnode.symm.trans hclosure, hkeeps.closureScope⟩
    dsimp only
    rw [h.tidy.sound.ties_addEdge hn]
    split
    · exact List.mem_cons_of_mem _ ht
    · exact ht
  holds := by
    intro m v hm
    dsimp only at hm
    rw [node?_addEdge] at hm
    exact h.holds hm

/-- Leading a bare variable to a new value. -/
theorem Full.bind {var : VarId} {name : String} {mutable : Bool} (h : Full P (some var) ⟨g, d⟩)
    (hvar : g.node? var = some (.variable name mutable)) {value : Value} (hvalue : value.Holds P) :
    Full P none ⟨bind g var value, d⟩ := by
  have hkeeps := Keeps.bind h.tidy hvar value
  have hhas : g.hasNode var = true := hasNode_iff.2 ⟨_, hvar⟩
  have hsound := h.tidy.sound
  have hties (m : Nat) := ties_bind hsound hhas value m
  have hnot {m : Nat} : (ScopeEdge.bindsTo, (g.addNode (.binding value)).1) ∉ g.ties m := by
    intro hmem
    obtain ⟨b, hb⟩ := hasNode_iff.1 (hsound.hasNode_of_mem_ties hmem).2
    exact node?_ne_new hsound hb rfl
  have hmem {m t : Nat} : (ScopeEdge.bindsTo, t) ∈ (Scopes.bind g var value).ties m ↔
      (m = var ∧ t = (g.addNode (.binding value)).1) ∨ (ScopeEdge.bindsTo, t) ∈ g.ties m := by
    rw [hties]
    split
    · rename_i hm
      simp [hm]
    · rename_i hm
      simp [hm]
  refine ⟨hkeeps.tidy, ?_, ?_, ?_, ?_⟩
  · intro n m t hn hm
    rcases hmem.1 hn with ⟨rfl, rfl⟩ | hold
    · rcases hmem.1 hm with ⟨rfl, -⟩ | hold'
      · rfl
      · exact (hnot hold').elim
    · rcases hmem.1 hm with ⟨rfl, rfl⟩ | hold'
      · exact (hnot hold).elim
      · exact h.own hold hold'
  · intro n t hn
    refine hkeeps.isScope (h.outer (n := n) ?_)
    dsimp only at hn ⊢
    rw [hties] at hn
    split at hn
    · simpa using hn
    · exact hn
  · intro n _
    by_cases hn : var = n
    · subst hn
      have hnode : (Scopes.bind g var value).node? var = some (.variable name mutable) := by
        rw [node?_bind hsound, if_neg (node?_ne_new hsound hvar), hvar]
      rw [Tied, hnode]
      exact ⟨_, hmem.2 (Or.inl ⟨rfl, rfl⟩)⟩
    · have hold {a : ScopeNode} (ha : ∀ v, a ≠ .binding v)
          (hnode : (Scopes.bind g var value).node? n = some a) : g.node? n = some a := by
        rw [node?_bind hsound] at hnode
        split at hnode
        · exact absurd (Option.some.inj hnode).symm (ha value)
        · exact hnode
      exact (h.tied (by simpa using hn)).keep
        (fun hvar => ⟨⟨_, _, hold (by simp) hvar⟩, fun ht => hmem.2 (Or.inr ht)⟩)
        fun hclosure => ⟨hold (by simp) hclosure, hkeeps.closureScope⟩
  · intro n v hn
    dsimp only at hn
    rw [node?_bind hsound] at hn
    split at hn
    · cases hn
      exact hvalue
    · exact h.holds hn

/-- Releasing a variable leaves it bare. -/
theorem Full.unbind (h : Full P none ⟨g, d⟩) (var : VarId) :
    Full P (some var) ⟨unbind g var, d⟩ := by
  cases ht : tied? g var .bindsTo with
  | none =>
    rw [unbind_of_none ht]
    exact ⟨h.tidy, h.own, h.outer, fun _ => h.tied (by simp), h.holds⟩
  | some t =>
    have hkeeps := Keeps.unbind h.tidy var
    have hsound := h.tidy.sound
    have hnode {n : Nat} {a : ScopeNode} (hn : (Scopes.unbind g var).node? n = some a) :
        n ≠ t ∧ g.node? n = some a := by
      rw [node?_unbind hsound ht] at hn
      split at hn
      · cases hn
      · exact ⟨by assumption, hn⟩
    have hsub {n : Nat} {p : ScopeEdge × Nat} (hp : p ∈ (Scopes.unbind g var).ties n) :
        p ∈ g.ties n := by
      by_cases hn : n = t
      · have hgone : (Scopes.unbind g var).node? n = none := by
          rw [node?_unbind hsound ht, if_pos hn]
        rw [ties_of_vacant hgone] at hp
        cases hp
      · rw [ties_unbind hsound ht hn] at hp
        exact (List.mem_filter.1 hp).1
    refine ⟨hkeeps.tidy, fun hn hm => h.own (hsub hn) (hsub hm),
      fun hn => hkeeps.isScope (h.outer (hsub hn)), ?_, fun hn => h.holds (hnode hn).2⟩
    intro n hn
    refine (h.tied (by simp)).keep (fun hvar => ⟨⟨_, _, (hnode hvar).2⟩, fun {t'} ht' => ?_⟩)
      fun hclosure => ⟨(hnode hclosure).2, hkeeps.closureScope⟩
    dsimp only
    rw [ties_unbind hsound ht (hnode hvar).1, List.mem_filter]
    refine ⟨ht', ?_⟩
    have hother : t' ≠ t := by
      rintro rfl
      exact hn (congrArg some (h.own (tied?_eq_some ht) ht'))
    simpa using hother

/-- A change of nodes that makes no variable, closure or value another thing. -/
theorem Full.modifyNode (h : Full P none ⟨g, d⟩) (m : Nat) {f : ScopeNode → ScopeNode}
    (htidy : Tidy ⟨g.modifyNode m f, d⟩)
    (hscopes : ∀ {n}, Scopes.isScope ⟨g, d⟩ n = true →
      Scopes.isScope ⟨g.modifyNode m f, d⟩ n = true)
    (hclosures : ∀ {c scope}, Scopes.closureScope ⟨g, d⟩ c = .ok scope →
      Scopes.closureScope ⟨g.modifyNode m f, d⟩ c = .ok scope)
    (hvar : ∀ a name mutable, f a = .variable name mutable →
      ∃ name mutable, a = .variable name mutable)
    (hclosure : ∀ a name, f a = .closure name → a = .closure name)
    (hbinding : ∀ a v, f a = .binding v → a = .binding v) :
    Full P none ⟨g.modifyNode m f, d⟩ := by
  have hnode {n : Nat} {b : ScopeNode} (hn : (g.modifyNode m f).node? n = some b) :
      ∃ a, g.node? n = some a ∧ (b = a ∨ f a = b) := by
    rw [node?_modifyNode] at hn
    split at hn
    · obtain ⟨a, ha, hb⟩ := Option.map_eq_some_iff.1 hn
      exact ⟨a, ha, Or.inr hb⟩
    · exact ⟨b, hn, Or.inl rfl⟩
  refine ⟨htidy, ?_, ?_, ?_, ?_⟩
  · intro n n' t hn hn'
    rw [ties_modifyNode] at hn hn'
    exact h.own hn hn'
  · intro n t hn
    rw [ties_modifyNode] at hn
    exact hscopes (h.outer hn)
  · intro n hn
    refine (h.tied hn).keep (fun hb => ?_) fun hb => ?_
    · obtain ⟨a, ha, rfl | hfa⟩ := hnode hb
      · exact ⟨⟨_, _, ha⟩, fun ht => by dsimp only; rwa [ties_modifyNode]⟩
      · obtain ⟨name, mutable, rfl⟩ := hvar _ _ _ hfa
        exact ⟨⟨_, _, ha⟩, fun ht => by dsimp only; rwa [ties_modifyNode]⟩
    · obtain ⟨a, ha, rfl | hfa⟩ := hnode hb
      · exact ⟨ha, hclosures⟩
      · exact ⟨by rw [ha, hclosure _ _ hfa], hclosures⟩
  · intro n v hn
    obtain ⟨a, ha, rfl | hfa⟩ := hnode hn
    · exact h.holds ha
    · rw [hbinding _ _ hfa] at ha
      exact h.holds ha

/-! ### Operations on full scopes

Every operation keeps scopes full. On a scope that is there, a name can only be unbound or fixed:
nothing else can fail. -/

/-! ### Changes -/

theorem Full.withScope (h : Full P none ⟨g, d⟩) {parent : ScopeId}
    (hparent : Scopes.isScope ⟨g, d⟩ parent = true) (kind : ScopeKind) :
    Full P none ⟨Scopes.withScope g parent kind, d⟩ := by
  have hroot := Opens.addNode h.tidy kind
  have hadd : Full P none ⟨(g.addNode (.scope kind true)).2, d⟩ :=
    h.addNode (by simp) (Or.inl rfl) (Or.inr (Or.inl ⟨kind, rfl⟩))
  obtain ⟨kind', active, hnode⟩ := isScope_iff.1 hroot.opened
  obtain ⟨kind'', active', hnode'⟩ := isScope_iff.1 (hroot.isScope hparent)
  have hhas : (g.addNode (.scope kind true)).2.hasNode (g.addNode (.scope kind true)).1 = true :=
    hasNode_iff.2 ⟨_, hnode⟩
  refine hadd.addEdge (by simp) (fun _ => hroot.isScope hparent) (.addEdge hroot.tidy hhas
    (hasNode_iff.2 ⟨_, hnode'⟩) (by simp) ?_) hhas
  intro scope hc
  obtain ⟨⟨c, hclosure⟩, -⟩ := closureScope_eq_ok.1 hc
  rw [hnode] at hclosure
  cases hclosure

theorem Full.leave (h : Full P none ⟨g, d⟩) (scope : ScopeId) :
    Full P none ⟨g.modifyNode scope ScopeNode.leave, d⟩ := by
  refine h.modifyNode scope (h.tidy.leave scope) (fun hn => ?_) (closureScope_leave scope)
    ?_ ?_ ?_
  · rwa [isScope_leave]
  · rintro (_ | _ | _ | _) name mutable hf <;> cases hf
    exact ⟨_, _, rfl⟩
  · rintro (_ | _ | _ | _) name hf <;> cases hf
    rfl
  · rintro (_ | _ | _ | _) v hf <;> cases hf
    rfl

theorem Full.withMutable (h : Full P none ⟨g, d⟩) (var : VarId) (mutable : Bool) :
    Full P none ⟨g.modifyNode var (ScopeNode.withMutable mutable), d⟩ := by
  have hkeeps := Keeps.modifyNode h.tidy var mutable
  refine h.modifyNode var hkeeps.tidy hkeeps.isScope hkeeps.closureScope ?_ ?_ ?_
  · rintro (_ | ⟨name', mutable'⟩ | _ | _) name mutable'' hf
    · cases hf
    · exact ⟨name', mutable', rfl⟩
    · cases hf
    · cases hf
  · rintro (_ | _ | _ | _) name hf <;> cases hf
    rfl
  · rintro (_ | _ | _ | _) v hf <;> cases hf
    rfl

theorem Full.rebound (h : Full P none ⟨g, d⟩) {var : VarId} {name : String} {mutable : Bool}
    (hvar : g.node? var = some (.variable name mutable)) {value : Value} (hvalue : value.Holds P) :
    Full P none ⟨Scopes.bind (Scopes.unbind g var) var value, d⟩ :=
  (h.unbind var).bind (node?_unbind_of_ne h.tidy (by simp) hvar) hvalue

theorem Full.rebind (h : Full P none s) (var : VarId) {value : Value} (hvalue : value.Holds P) :
    Full P none (s.rebind var value).2 := by
  cases hvar : s.variableName? var with
  | none =>
    rw [Scopes.rebind, hvar]
    exact h
  | some name =>
    rw [rebind_of_variable hvar]
    obtain ⟨mutable, hnode⟩ := variableName?_iff.1 hvar
    exact Full.rebound h hnode hvalue

theorem Full.insert {scope : ScopeId} {name : String} {var : VarId} (h : Full P none ⟨g, d⟩)
    (hkeeps : Keeps ⟨g, d⟩ ⟨g, d.insert (scope, name) var⟩) :
    Full P none ⟨g, d.insert (scope, name) var⟩ :=
  ⟨hkeeps.tidy, h.own, h.outer, h.tied, h.holds⟩

theorem Full.withVariable (h : Full P none ⟨g, d⟩) {scope : ScopeId}
    (hscope : Scopes.isScope ⟨g, d⟩ scope = true) (name : String) (mutable : Bool) :
    Full P (some (g.addNode (.variable name mutable)).1)
      ⟨Scopes.withVariable g scope name mutable, d⟩ := by
  have hkeeps : Keeps ⟨g, d⟩ ⟨(g.addNode (.variable name mutable)).2, d⟩ :=
    .addNode h.tidy (by simp)
  have hadd : Full P (some (g.addNode (.variable name mutable)).1)
      ⟨(g.addNode (.variable name mutable)).2, d⟩ :=
    h.addNode (by simp) (Or.inl rfl) (Or.inl rfl)
  obtain ⟨kind, active, hnode⟩ := isScope_iff.1 (hkeeps.isScope hscope)
  have hhas : (g.addNode (.variable name mutable)).2.hasNode scope = true := hasNode_iff.2 ⟨_, hnode⟩
  refine hadd.addEdge (by simp) (by simp) (.addEdge hkeeps.tidy hhas
    (hasNode_addNode_new h.tidy.sound _) (by simp) ?_) hhas
  intro inner hc
  obtain ⟨⟨c, hclosure⟩, -⟩ := closureScope_eq_ok.1 hc
  rw [hnode] at hclosure
  cases hclosure

theorem Full.declare (h : Full P none s) {scope : ScopeId} (hscope : s.isScope scope = true)
    (name : String) {value : Value} (hvalue : value.Holds P) (mutable : Bool) :
    Full P none (s.declare scope name value mutable).2 := by
  rw [declare_eq]
  have hadd := Full.withVariable h hscope name mutable
  have hvar := node?_withVariable h.tidy.sound scope name mutable
    (s.graph.addNode (.variable name mutable)).1
  rw [if_pos rfl] at hvar
  have hbind := hadd.bind hvar hvalue
  refine hbind.insert ?_
  refine .insert hbind.tidy ?_ (variableName?_iff.2 ⟨mutable, ?_⟩)
  · exact (Keeps.bind hadd.tidy hvar value).isScope
      ((Keeps.withVariable h.tidy hscope name mutable).isScope hscope)
  · dsimp only
    rw [node?_bind hadd.tidy.sound, if_neg (node?_ne_new hadd.tidy.sound hvar), hvar]

theorem Full.define (h : Full P none s) (scope : ScopeId) (name : String) {value : Value}
    (hvalue : value.Holds P) (mutable : Bool) :
    Full P none (s.define scope name value mutable).2 := by
  unfold Scopes.define
  by_cases hscope : s.isScope scope = true
  · rw [if_neg (by simp [hscope])]
    cases s.declared[(scope, name)]? with
    | none => exact h.declare hscope name hvalue mutable
    | some var =>
      dsimp only
      by_cases hmutable : (s.isMutable? var == some false) = true
      · rw [if_pos hmutable]
        exact h
      · rw [if_neg hmutable]
        exact (Full.withMutable h var mutable).rebind var hvalue
  · rw [if_pos (by simp [hscope])]
    exact h

theorem Full.assign (h : Full P none s) (scope : ScopeId) (name : String) {value : Value}
    (hvalue : value.Holds P) : Full P none (s.assign scope name value).2 := by
  unfold Scopes.assign
  cases s.find scope name with
  | error e => exact h
  | ok var =>
    dsimp only
    by_cases hmutable : (s.isMutable? var == some false) = true
    · rw [if_pos hmutable]
      exact h
    · rw [if_neg hmutable]
      exact h.rebind var hvalue

/-! ### Closures -/

theorem Full.capture {c : ClosureId} (h : Full P (some c) ⟨g, d⟩) {name : String}
    {captured : List VarId} (hc : g.node? c = some (.closure name))
    (hvars : ∀ var ∈ captured, ∃ name, Scopes.variableName? ⟨g, d⟩ var = some name) :
    Full P (some c)
      ⟨captured.foldl (fun graph var => (graph.addEdge c var .captures).2) g, d⟩ := by
  induction captured generalizing g with
  | nil => exact h
  | cons var captured ih =>
    obtain ⟨x, hx⟩ := hvars var (by simp)
    obtain ⟨mutable, hvar⟩ := variableName?_iff.1 hx
    have hkeeps : Keeps ⟨g, d⟩ ⟨(g.addEdge c var .captures).2, d⟩ := by
      refine .addEdge h.tidy (hasNode_iff.2 ⟨_, hc⟩) (hasNode_iff.2 ⟨_, hvar⟩) (by simp) ?_
      intro scope _
      rw [Scopes.isScope, hvar]
    refine ih (h.addEdge (by simp) (by simp) hkeeps (hasNode_iff.2 ⟨_, hc⟩)) ?_ ?_
    · rw [node?_addEdge, hc]
    · intro var' hvar'
      obtain ⟨x', hx'⟩ := hvars var' (List.mem_cons_of_mem var hvar')
      obtain ⟨mutable', hnode'⟩ := variableName?_iff.1 hx'
      exact ⟨x', variableName?_iff.2 ⟨mutable', by dsimp only; rw [node?_addEdge, hnode']⟩⟩

theorem Full.withClosure (h : Full P none ⟨g, d⟩) {scope : ScopeId} {captured : List VarId}
    (hscope : Scopes.isScope ⟨g, d⟩ scope = true)
    (hvars : ∀ var ∈ captured, ∃ name, Scopes.variableName? ⟨g, d⟩ var = some name)
    (name : String) : Full P none ⟨Scopes.withClosure g scope name captured, d⟩ := by
  have hsound := h.tidy.sound
  obtain ⟨hkeeps, hmade⟩ := Keeps.withClosure h.tidy hscope hvars name
  have hadd : Full P (some (g.addNode (.closure name)).1) ⟨(g.addNode (.closure name)).2, d⟩ :=
    h.addNode (by simp) (Or.inl rfl) (Or.inl rfl)
  have hnew : (g.addNode (.closure name)).2.node? (g.addNode (.closure name)).1 =
      some (.closure name) := by
    rw [hsound.node?_addNode, if_pos rfl]
  have hties : (g.addNode (.closure name)).2.ties (g.addNode (.closure name)).1 = [] := by
    rw [hsound.ties_addNode, ties_of_vacant (hsound.node?_new _)]
  obtain ⟨kind, active, hnode⟩ := isScope_iff.1 hscope
  have hnode' : (g.addNode (.closure name)).2.node? scope = some (.scope kind active) :=
    node?_addNode_old hsound hnode
  have hlead : Full P (some (g.addNode (.closure name)).1)
      ⟨((g.addNode (.closure name)).2.addEdge (g.addNode (.closure name)).1 scope .captures).2,
        d⟩ := by
    refine hadd.addEdge (by simp) (by simp) (.addEdge hadd.tidy (hasNode_iff.2 ⟨_, hnew⟩)
      (hasNode_iff.2 ⟨_, hnode'⟩) (by simp) ?_) (hasNode_iff.2 ⟨_, hnew⟩)
    intro inner hc
    have hfind := (closureScope_eq_ok.1 hc).2
    dsimp only at hfind
    rw [hties] at hfind
    cases hfind
  have hcapture : Full P (some (g.addNode (.closure name)).1)
      ⟨Scopes.withClosure g scope name captured, d⟩ := by
    have hnode : ((g.addNode (.closure name)).2.addEdge (g.addNode (.closure name)).1 scope
        .captures).2.node? (g.addNode (.closure name)).1 = some (.closure name) := by
      rw [node?_addEdge, hnew]
    refine hlead.capture hnode ?_
    · intro var hvar
      obtain ⟨x, hx⟩ := hvars var hvar
      refine ⟨x, ?_⟩
      rw [← variableName?_addNode hsound (.closure name) hx, variableName?, variableName?]
      dsimp only
      rw [node?_addEdge]
  refine hcapture.settle ?_
  have hclosure : (Scopes.withClosure g scope name captured).node? (g.addNode (.closure name)).1 =
      some (.closure name) := by
    rw [node?_withClosure hsound, if_pos rfl]
  rw [Tied, hclosure]
  exact ⟨scope, hmade⟩

/-! ### Results -/

/-- Every variable has a value. -/
theorem Full.exists_valueOf? (h : Full P none s) {var : VarId} {name : String}
    (hvar : s.variableName? var = some name) : ∃ v, s.valueOf? var = some v ∧ v.Holds P := by
  obtain ⟨mutable, hnode⟩ := variableName?_iff.1 hvar
  have htied := h.tied (n := var) (by simp)
  rw [Tied, hnode] at htied
  obtain ⟨t, ht⟩ := htied
  obtain ⟨t', ht'⟩ := exists_tied? ht
  obtain ⟨v, hv⟩ := h.tidy.bound (tied?_eq_some ht')
  exact ⟨v, by rw [valueOf?_eq, ht', Option.bind_some, hv], h.holds hv⟩

theorem find_of_isScope {scope : ScopeId} (hscope : s.isScope scope = true) (name : String) :
    s.find scope name =
      match s.lookup? name (s.graph.slots.size + 1) scope with
      | some var => .ok var
      | none => .error (.unbound name) := by
  unfold find resolve ensureScope
  rw [if_pos hscope]
  dsimp only [Bind.bind, Except.bind, pure, Except.pure]
  cases s.lookup? name (s.graph.slots.size + 1) scope <;> rfl

/-- Reading a name in a scope gives a value, unless the name is unbound. -/
theorem Full.get (h : Full P none s) {scope : ScopeId} (hscope : s.isScope scope = true)
    (name : String) :
    (∃ v, s.get scope name = .ok v ∧ v.Holds P) ∨ s.get scope name = .error (.unbound name) := by
  unfold Scopes.get
  rw [find_of_isScope hscope]
  cases hlookup : s.lookup? name (s.graph.slots.size + 1) scope with
  | none => exact Or.inr rfl
  | some var =>
    obtain ⟨v, hv, hholds⟩ := h.exists_valueOf? (variableName?_lookup? h.tidy hlookup)
    refine Or.inl ⟨v, ?_, hholds⟩
    dsimp only [Bind.bind, Except.bind]
    rw [hv]
    rfl

/-- Defining a name in a scope fails only where it is fixed. -/
theorem Tidy.define_error (h : s.Tidy) {scope : ScopeId} (hscope : s.isScope scope = true)
    {name : String} {value : Value} {mutable : Bool} {e : BindingError}
    (he : (s.define scope name value mutable).1 = .error e) : e = .immutable name := by
  unfold define at he
  rw [if_neg (by simp [hscope])] at he
  cases hvar : s.declared[(scope, name)]? with
  | none =>
    rw [hvar] at he
    cases he
  | some var =>
    rw [hvar] at he
    dsimp only at he
    by_cases hmutable : (s.isMutable? var == some false) = true
    · rw [if_pos hmutable] at he
      cases he
      rfl
    · rw [if_neg hmutable] at he
      obtain ⟨mutable', hnode⟩ := variableName?_iff.1 (h.declared hvar).2
      obtain ⟨s₂, hredefine, -⟩ := redefine_of_variable h hnode value mutable
      rw [hredefine] at he
      cases he

/-- Writing a name fails only where it is unbound or fixed. -/
theorem Tidy.assign_error (h : s.Tidy) {scope : ScopeId} (hscope : s.isScope scope = true)
    {name : String} {value : Value} {e : BindingError}
    (he : (s.assign scope name value).1 = .error e) : e = .unbound name ∨ e = .immutable name := by
  unfold assign at he
  rw [find_of_isScope hscope] at he
  cases hlookup : s.lookup? name (s.graph.slots.size + 1) scope with
  | none =>
    rw [hlookup] at he
    cases he
    exact Or.inl rfl
  | some var =>
    rw [hlookup] at he
    dsimp only at he
    by_cases hmutable : (s.isMutable? var == some false) = true
    · rw [if_pos hmutable] at he
      cases he
      exact Or.inr rfl
    · rw [if_neg hmutable, rebind_of_variable (variableName?_lookup? h hlookup)] at he
      cases he

/-- Every closure has its scope. -/
theorem Full.exists_closureScope (h : Full P none s) {c : ClosureId} {name : String}
    (hc : s.graph.node? c = some (.closure name)) : ∃ scope, s.closureScope c = .ok scope := by
  have htied := h.tied (n := c) (by simp)
  rwa [Tied, hc] at htied

end GraphLang.Scopes
