import GraphLang.Proofs.Bridge.SlotGraph
import GraphLang.Proofs.Bridge.Values
import GraphLang.Proofs.Scopes.Written

/-!
# Scopes across a bridge

Nodes that a bridge joins correspond: scopes declare and import the same names for variables that
are joined and lie in scopes that are joined, variables have corresponding values, and closures were
made in scopes that are joined. Whatever a run does with scopes and closures then has corresponding
results, and new nodes are joined to each other.
-/

namespace GraphLang

open SlotGraph

namespace Scopes

variable {B C : Bridge} {s s₁ s' s₁' : Scopes} {k : NodeKind} {n n' x x' c c' : Nat}

/-- The nodes are of that kind and correspond. -/
inductive Matched (B : Bridge) (s s' : Scopes) : NodeKind → Nat → Nat → Prop
  | scope {n n' : ScopeId} (hn : s.isScope n = true) (hn' : s'.isScope n' = true)
    (hparent : Option.Rel (B.joins .scope) (s.parent? n) (s'.parent? n'))
    (hdeclared : ∀ name : String, Option.Rel (B.joins .var) s.declared[(n, name)]?
      s'.declared[(n', name)]?)
    (himported : ∀ name, Option.Rel (B.joins .var) (s.imported? n name)
      (s'.imported? n' name)) : Matched B s s' .scope n n'
  | var {x x' : VarId} {name : String} {mutable : Bool}
    (hx : s.graph.node? x = some (.variable name mutable))
    (hx' : s'.graph.node? x' = some (.variable name mutable))
    (hvalue : Option.Rel (Value.Across B) (s.valueOf? x) (s'.valueOf? x')) :
    Matched B s s' .var x x'
  | closure {c c' : ClosureId} {scope scope' : ScopeId} (hc : s.closureScope c = .ok scope)
    (hc' : s'.closureScope c' = .ok scope') (hscope : B.joins .scope scope scope') :
    Matched B s s' .closure c c'

/-- The scopes are regular, and nodes that are joined correspond. -/
structure Across (B : Bridge) (s s' : Scopes) : Prop where
  regular : Regular none s
  regular' : Regular none s'
  matched : ∀ {k n n'}, B.joins k n n' → Matched B s s' k n n'

/-- Both runs come to corresponding results and scopes, with new nodes joined. -/
def Leads (B : Bridge) {α : Type} (A : Span α)
    (r r' : Except BindingError α × Scopes) : Prop :=
  ∃ C, B ≤ C ∧ (∀ {g}, C.shares g → B.shares g) ∧ Outcomes Eq (A C) r.1 r'.1 ∧
    r.2.Across C r'.2

theorem Matched.mono (h : Matched B s s' k n n') (hBC : B ≤ C) : Matched C s s' k n n' := by
  cases h with
  | scope hn hn' hparent hdeclared himported =>
    exact .scope hn hn' (hparent.imp (B.joins_mono hBC))
      (fun name => (hdeclared name).imp (B.joins_mono hBC))
      fun name => (himported name).imp (B.joins_mono hBC)
  | var hx hx' hvalue => exact .var hx hx' (hvalue.imp fun hv => hv.mono hBC)
  | closure hc hc' hscope => exact .closure hc hc' (B.joins_mono hBC hscope)

/-- Nodes that correspond are there, and they are of the kind. -/
theorem Matched.exists_node (h : Matched B s s' k n n') :
    (∃ a, s.graph.node? n = some a ∧ a.kind? = some k) ∧
      ∃ a, s'.graph.node? n' = some a ∧ a.kind? = some k := by
  cases h with
  | scope hn hn' =>
    obtain ⟨kind, active, hnode⟩ := isScope_iff.1 hn
    obtain ⟨kind', active', hnode'⟩ := isScope_iff.1 hn'
    exact ⟨⟨_, hnode, rfl⟩, _, hnode', rfl⟩
  | var hx hx' => exact ⟨⟨_, hx, rfl⟩, _, hx', rfl⟩
  | closure hc hc' =>
    obtain ⟨⟨name, hnode⟩, -⟩ := closureScope_eq_ok.1 hc
    obtain ⟨⟨name', hnode'⟩, -⟩ := closureScope_eq_ok.1 hc'
    exact ⟨⟨_, hnode, rfl⟩, _, hnode', rfl⟩

/-! ### What an operation leaves as it was -/

/-- Nothing is lost, and what can be seen of nodes that are not excepted stays. -/
structure Stays (except : Nat → Prop) (s s₁ : Scopes) : Prop where
  /-- The scopes are regular. -/
  regular : Regular none s₁
  /-- Scopes stay in the scopes that they lie in. -/
  scope : ∀ {n}, s.isScope n = true → s₁.isScope n = true ∧ s₁.parent? n = s.parent? n
  /-- Scopes that are not excepted declare and import what they did. -/
  names : ∀ {n : ScopeId}, s.isScope n = true → ¬except n → ∀ name : String,
    s₁.declared[(n, name)]? = s.declared[(n, name)]? ∧ s₁.imported? n name = s.imported? n name
  /-- Variables that are not excepted keep their values. -/
  var : ∀ {x name mutable}, s.graph.node? x = some (.variable name mutable) → ¬except x →
    s₁.graph.node? x = some (.variable name mutable) ∧ s₁.valueOf? x = s.valueOf? x
  /-- Closures stay in the scopes that they were made in. -/
  closure : ∀ {c scope}, s.closureScope c = .ok scope → s₁.closureScope c = .ok scope

theorem Alters.stays {var : VarId} {except : Nat → Prop} (h : Alters var s s₁) (hs : Regular none s)
    (hvar : ∀ {a}, s.graph.node? var = some a → except var)
    (hdeclared : ∀ {n : ScopeId}, ¬except n → ∀ name : String,
      s₁.declared[(n, name)]? = s.declared[(n, name)]?) : Stays except s s₁ where
  regular := h.regular
  scope hn := ⟨h.isScope hs hn, h.parent? hs hn⟩
  names hn hexcept name := ⟨hdeclared hexcept name, h.imported? hs hn name⟩
  var hx hexcept := h.other hs hx fun heq => hexcept (heq ▸ hvar (heq ▸ hx))
  closure hc := by
    obtain ⟨⟨fname, hnode⟩, -⟩ := closureScope_eq_ok.1 hc
    exact ((h.carries hs).closure_same hs hnode).1.trans hc

/-- A change that only adds a node, and edges from it. -/
theorem Stays.of_confined {fresh : Nat} {except : Nat → Prop} (hs : Regular none s)
    (hs₁ : Regular none s₁) (hconfined : Confined (fun _ => False) s.graph s₁.graph)
    (hfresh : s.graph.node? fresh = none) (hdeclared : s₁.declared = s.declared) :
    Stays except s s₁ := by
  have hundisturbed : Undisturbed (fun _ => True) s s₁ := .of_confined hs₁ hconfined hdeclared
  have halters : Alters fresh s s₁ :=
    { regular := hs₁
      target := fun ha => by cases hfresh.symm.trans ha
      name := hundisturbed.name
      node := fun hn _ => hconfined.node hn id
      ties := fun hn _ => ⟨[], hconfined.ties hn id, List.forall_mem_nil _⟩ }
  exact halters.stays hs (fun ha => by cases hfresh.symm.trans ha) fun _ name => by rw [hdeclared]

theorem Regular.stays_pop (h : Regular none s) {scope : ScopeId} (hscope : s.isScope scope = true)
    (except : Nat → Prop) : Stays except s (s.pop scope).2 := by
  have hregular := h.pop scope
  rw [pop_of_isScope hscope] at hregular ⊢
  refine ⟨hregular, fun {n} hn => ⟨?_, ?_⟩, fun {n} _ _ name => ⟨rfl, ?_⟩, fun {x _ _} hx _ => ?_,
    closureScope_leave scope⟩
  · rwa [isScope_leave]
  · rw [parent?_eq, parent?_eq, tied?, tied?]
    dsimp only
    rw [ties_modifyNode]
  · rw [imported?_eq, imported?_eq]
    dsimp only
    rw [ties_modifyNode]
    congr 2
    funext t
    rw [variableName?_modifyNode ScopeNode.like_leave]
  · have hkept := node?_leave (by simp) scope hx
    obtain ⟨value, hvalue⟩ := h.exists_valueOf? hx
    obtain ⟨t, htie, ht⟩ := h.valueOf?_iff.1 hvalue
    refine ⟨hkept, hvalue ▸ hregular.valueOf?_iff.2 ⟨t, ?_, node?_leave (by simp) scope ht⟩⟩
    dsimp only
    rwa [ties_modifyNode]

/-- What an import adds to the names of its scope. -/
theorem Regular.stays_import (h : Regular none s) {scope : ScopeId} {var : VarId} {name : String}
    (hscope : s.isScope scope = true) (hvar : s.variableName? var = some name) :
    Stays (· = scope) s (s.importVar scope var).2 ∧
      (∀ name', (s.importVar scope var).2.imported? scope name' =
        if name = name' then some var else s.imported? scope name') ∧
      (s.importVar scope var).1 = .ok () ∧ (s.importVar scope var).2.declared = s.declared := by
  have hregular := h.importVar scope var
  have hclosure {c inner : Nat} (hc : s.closureScope c = .ok inner) :=
    (Keeps.importVar h.tidy scope var).closureScope hc
  have hrun : s.importVar scope var =
      (.ok (), ⟨(s.graph.addEdge scope var .captures).2, s.declared⟩) := by
    rw [Scopes.importVar, if_neg (by simp [hscope]), hvar]
  rw [hrun] at hregular hclosure ⊢
  obtain ⟨kind, active, hnode⟩ := isScope_iff.1 hscope
  have hties (m : Nat) := h.sound.ties_addEdge (hasNode_iff.2 ⟨_, hnode⟩) (t := var) .captures m
  have hname (x : VarId) : Scopes.variableName?
      ⟨(s.graph.addEdge scope var .captures).2, s.declared⟩ x = s.variableName? x := by
    rw [Scopes.variableName?, Scopes.variableName?]
    dsimp only
    rw [node?_addEdge]
  have htied (m : Nat) {kind : ScopeEdge} (hkind : kind ≠ .captures) :
      tied? (s.graph.addEdge scope var .captures).2 m kind = tied? s.graph m kind := by
    rw [tied?, tied?, hties]
    split
    · rw [List.find?_cons_of_neg (by simpa using hkind.symm)]
    · rfl
  refine ⟨⟨hregular, fun {n} hn => ⟨?_, ?_⟩, fun {n} _ hne name' => ⟨rfl, ?_⟩,
    fun {x _ _} hx _ => ⟨?_, ?_⟩, hclosure⟩, fun name' => ?_, rfl, rfl⟩
  · rwa [isScope_congr (node?_addEdge ..)]
  · rw [parent?_eq, parent?_eq, htied n (by decide)]
  · rw [imported?_eq, imported?_eq]
    dsimp only
    rw [hties, if_neg hne]
    simp only [hname]
  · dsimp only
    rwa [node?_addEdge]
  · rw [valueOf?_eq, valueOf?_eq, htied x (by decide)]
    dsimp only
    simp only [node?_addEdge]
  · rw [imported?_eq, imported?_eq]
    dsimp only
    rw [hties, if_pos rfl]
    simp only [hname]
    by_cases hsame : name = name'
    · rw [if_pos hsame, List.find?_cons_of_pos (by simp [hvar, hsame])]
      rfl
    · rw [if_neg hsame, List.find?_cons_of_neg (by simp [hvar, hsame])]

/-- A declared variable is found among the contents of its scope. -/
theorem Regular.find?_contents (h : Regular none s) (scope : ScopeId) (name : String) :
    (s.contents scope).find? (·.1 == name) =
      s.declared[(scope, name)]?.map fun x => (name, x) := by
  have hmem {name : String} {x : VarId} : (name, x) ∈ s.contents scope ↔
      s.declared[(scope, name)]? = some x := by
    rw [h.declared, contents_eq, List.mem_mergeSort, List.mem_filterMap]
    constructor
    · rintro ⟨⟨kind, t⟩, htie, ht⟩
      dsimp only at ht
      split at ht
      · next hkind =>
        obtain ⟨name', hname, heq⟩ := Option.map_eq_some_iff.1 ht
        cases heq
        cases beq_iff_eq.1 hkind
        exact ⟨h.sound.mem_ties.1 htie, hname⟩
      · cases ht
    · rintro ⟨hedge, hname⟩
      exact ⟨(.contains, x), h.sound.mem_ties.2 hedge, by simp [hname]⟩
  cases hfound : (s.contents scope).find? (·.1 == name) with
  | none =>
    cases hdeclared : s.declared[(scope, name)]? with
    | none => rfl
    | some x =>
      have hnot := List.find?_eq_none.1 hfound (name, x) (hmem.2 hdeclared)
      simp at hnot
  | some p =>
    obtain ⟨name', x⟩ := p
    obtain rfl : name' = name := by simpa using List.find?_some hfound
    rw [hmem.1 (List.mem_of_find?_eq_some hfound)]
    rfl

/-- A new scope lies in the one that it was opened in, and shows no names of its own. -/
theorem Regular.pushed (h : Regular none s) {parent : ScopeId} (hparent : s.isScope parent = true)
    (kind : ScopeKind) :
    (s.push parent kind).2.isScope (s.graph.addNode (.scope kind true)).1 = true ∧
      (s.push parent kind).2.parent? (s.graph.addNode (.scope kind true)).1 = some parent ∧
      ∀ name : String,
        (s.push parent kind).2.declared[((s.graph.addNode (.scope kind true)).1, name)]? = none ∧
        (s.push parent kind).2.imported? (s.graph.addNode (.scope kind true)).1 name = none := by
  rw [push_of_isScope hparent]
  have hopens := Opens.withScope h.tidy hparent kind
  have hties : (withScope s.graph parent kind).ties (s.graph.addNode (.scope kind true)).1 =
      [(.parent, parent)] := by
    rw [withScope, (h.sound.addNode _).ties_addEdge (hasNode_addNode_new h.sound _), if_pos rfl,
      h.sound.ties_addNode, ties_of_vacant (h.sound.node?_new _)]
  refine ⟨hopens.opened, ?_, fun name => ⟨hopens.declared_eq_none h.tidy name, ?_⟩⟩
  · rw [parent?_eq, tied?]
    dsimp only
    rw [hties]
    rfl
  · rw [imported?_eq]
    dsimp only
    rw [hties]
    rfl

namespace Across

variable {var var' : VarId} {value value' : Value} {name : String} {mutable : Bool}

/-- A bridge with more containers. -/
theorem mono (h : s.Across B s') (hBC : B ≤ C)
    (hjoins : ∀ {k n n'}, C.joins k n n' → B.joins k n n') : s.Across C s' :=
  ⟨h.regular, h.regular', fun hn => (h.matched (hjoins hn)).mono hBC⟩

theorem isScope (h : s.Across B s') (hn : B.joins .scope n n') :
    s.isScope n = true ∧ s'.isScope n' = true := by
  cases h.matched hn with
  | scope hn hn' => exact ⟨hn, hn'⟩

/-- New nodes are joined to none. -/
theorem free (h : s.Across B s') (hn : s.graph.node? n = none) (hn' : s'.graph.node? n' = none) :
    B.Free n n' := by
  refine ⟨fun {k m m'} hm => ?_⟩
  obtain ⟨⟨a, ha, -⟩, b, hb, -⟩ := (h.matched hm).exists_node
  refine ⟨?_, ?_⟩
  · rintro rfl
    cases hn.symm.trans ha
  · rintro rfl
    cases hn'.symm.trans hb

/-- A number is joined as a node of one kind only. -/
theorem kind_eq {l : NodeKind} (h : s.Across B s') (hn : B.joins k n n') (hx : B.joins l n x') :
    l = k := by
  obtain ⟨⟨a, ha, hk⟩, -⟩ := (h.matched hn).exists_node
  obtain ⟨⟨b, hb, hl⟩, -⟩ := (h.matched hx).exists_node
  cases ha.symm.trans hb
  exact Option.some.inj (hl.symm.trans hk)

/-- Operations on both sides that leave all but some nodes as they were. -/
theorem of_stays {except except' : Nat → Prop} (h : s.Across B s') (hs : Stays except s s₁)
    (hs' : Stays except' s' s₁') (hBC : B ≤ C)
    (hnew : ∀ {k n n'}, C.joins k n n' →
      (B.joins k n n' ∧ ¬except n ∧ ¬except' n') ∨ Matched C s₁ s₁' k n n') :
    s₁.Across C s₁' := by
  refine ⟨hs.regular, hs'.regular, fun {k n n'} hjoin => ?_⟩
  obtain ⟨hold, hn, hn'⟩ | hmatched := hnew hjoin
  · cases (h.matched hold).mono hBC with
    | scope hscope hscope' hparent hdeclared himported =>
      obtain ⟨hkept, hparents⟩ := hs.scope hscope
      obtain ⟨hkept', hparents'⟩ := hs'.scope hscope'
      refine .scope hkept hkept' (by rwa [hparents, hparents']) (fun name => ?_) fun name => ?_
      · rw [(hs.names hscope hn name).1, (hs'.names hscope' hn' name).1]
        exact hdeclared name
      · rw [(hs.names hscope hn name).2, (hs'.names hscope' hn' name).2]
        exact himported name
    | var hx hx' hvalue =>
      obtain ⟨hkept, hvalues⟩ := hs.var hx hn
      obtain ⟨hkept', hvalues'⟩ := hs'.var hx' hn'
      exact .var hkept hkept' (by rwa [hvalues, hvalues'])
    | closure hc hc' hscope => exact .closure (hs.closure hc) (hs'.closure hc') hscope
  · exact hmatched

/-! ### Look-ups -/

theorem localVar? (h : s.Across B s') (hn : B.joins .scope n n') (name : String) :
    Option.Rel (B.joins .var) (s.localVar? name n) (s'.localVar? name n') := by
  cases h.matched hn with
  | scope _ _ _ hdeclared himported =>
    unfold Scopes.localVar?
    obtain ⟨hx, hx'⟩ | ⟨x, x', hx, hx', hjoin⟩ := (hdeclared name).none_or_some <;> rw [hx, hx']
    · exact himported name
    · exact .some hjoin

/-- The walks outward find the same name. -/
theorem findSome? (h : s.Across B s') (hn : B.joins .scope n n') (name : String) :
    Option.Rel (B.joins .var) ((s.ancestry n).findSome? (s.localVar? name))
      ((s'.ancestry n').findSome? (s'.localVar? name)) := by
  obtain ⟨rank, hrank⟩ := h.regular.outward
  induction hr : rank n using Nat.strong_induction_on generalizing n n' with
  | _ r ih =>
    have hlocal := h.localVar? hn name
    cases h.matched hn with
    | scope _ _ hparent =>
      obtain ⟨hp, hp'⟩ | ⟨p, p', hp, hp', hjoin⟩ := hparent.none_or_some
      · have hroot (s : Scopes) (n : ScopeId) (hp : s.parent? n = none) : s.ancestry n = [n] := by
          rw [ancestry, Scopes.chain, hp]
        rw [hroot s n hp, hroot s' n' hp', List.findSome?_singleton, List.findSome?_singleton]
        exact hlocal
      · rw [h.regular.ancestry_of_parent hp, h.regular'.ancestry_of_parent hp',
          List.findSome?_cons, List.findSome?_cons]
        obtain ⟨hx, hx'⟩ | ⟨x, x', hx, hx', hjoin'⟩ := hlocal.none_or_some <;> rw [hx, hx']
        · obtain ⟨e, hedge⟩ := h.regular.parent?_iff.1 hp
          exact ih (rank p) (hr ▸ hrank hedge) hjoin rfl
        · exact .some hjoin'

theorem find (h : s.Across B s') (hn : B.joins .scope n n') (name : String) :
    Outcomes Eq (B.joins .var) (s.find n name) (s'.find n' name) := by
  obtain ⟨hscope, hscope'⟩ := h.isScope hn
  unfold Scopes.find
  rw [h.regular.consistent.resolves hscope, h.regular'.consistent.resolves hscope']
  dsimp only [Bind.bind, Except.bind]
  obtain ⟨hx, hx'⟩ | ⟨x, x', hx, hx', hjoin⟩ := (h.findSome? hn name).none_or_some <;> rw [hx, hx']
  · exact .error rfl
  · exact .ok hjoin

theorem get (h : s.Across B s') (hn : B.joins .scope n n') (name : String) :
    Outcomes Eq (Value.Across B) (s.get n name) (s'.get n' name) := by
  refine (h.find hn name).bind fun {x x'} hx => ?_
  cases h.matched hx with
  | var hnode hnode' hvalue =>
    obtain ⟨v, hv⟩ := h.regular.exists_valueOf? hnode
    rw [hv] at hvalue ⊢
    generalize s'.valueOf? x' = v' at hvalue
    cases hvalue with
    | some hacross => exact .ok hacross

theorem closureScope (h : s.Across B s') (hc : B.joins .closure c c') :
    Outcomes Eq (B.joins .scope) (s.closureScope c) (s'.closureScope c') := by
  cases h.matched hc with
  | closure hc hc' hscope =>
    rw [hc, hc']
    exact .ok hscope

theorem isMutable? (h : s.Across B s') (hx : B.joins .var x x') :
    s'.isMutable? x' = s.isMutable? x := by
  cases h.matched hx with
  | var hx hx' => rw [isMutable?_of_node? hx, isMutable?_of_node? hx']

/-- The variable that a scope declares for a name, as a host finds it among the contents. -/
theorem contents (h : s.Across B s') (hn : B.joins .scope n n') (name : String) :
    Option.Rel (fun p p' => B.joins .var p.2 p'.2) ((s.contents n).find? (·.1 == name))
      ((s'.contents n').find? (·.1 == name)) := by
  rw [h.regular.find?_contents, h.regular'.find?_contents]
  cases h.matched hn with
  | scope _ _ _ hdeclared => exact (hdeclared name).map id

/-! ### Scopes that are opened and left -/

theorem pop (h : s.Across B s') (hn : B.joins .scope n n') :
    Leads B Span.same (s.pop n) (s'.pop n') := by
  obtain ⟨hscope, hscope'⟩ := h.isScope hn
  refine ⟨B, le_rfl, id, ?_, ?_⟩
  · rw [pop_of_isScope hscope, pop_of_isScope hscope']
    exact .ok rfl
  · exact h.of_stays (h.regular.stays_pop hscope fun _ => False)
      (h.regular'.stays_pop hscope' fun _ => False) le_rfl fun hold => Or.inl ⟨hold, id, id⟩

theorem push (h : s.Across B s') (hn : B.joins .scope n n') (kind : ScopeKind) :
    Leads B (fun C => C.joins .scope) (s.push n kind) (s'.push n' kind) := by
  obtain ⟨hscope, hscope'⟩ := h.isScope hn
  have hfree := h.free (h.regular.sound.node?_new (.scope kind true))
    (h.regular'.sound.node?_new (.scope kind true))
  refine ⟨B.join .scope hfree, B.le_join .scope hfree, id, ?_, ?_⟩
  · rw [push_of_isScope hscope, push_of_isScope hscope']
    exact .ok (B.joins_join .scope hfree)
  · have hstays {s : Scopes} {n : ScopeId} (hs : Regular none s) (hscope : s.isScope n = true) :
        Stays (fun _ => False) s (s.push n kind).2 :=
      .of_confined hs (hs.push n kind) (confined_push hs.sound n kind)
        (hs.sound.node?_new (.scope kind true)) (by rw [push_of_isScope hscope])
    refine h.of_stays (hstays h.regular hscope) (hstays h.regular' hscope')
      (B.le_join .scope hfree) ?_
    rintro l m m' (hold | ⟨rfl, rfl, rfl⟩)
    · exact Or.inl ⟨hold, id, id⟩
    · obtain ⟨hopened, hparent, hnames⟩ := h.regular.pushed hscope kind
      obtain ⟨hopened', hparent', hnames'⟩ := h.regular'.pushed hscope' kind
      refine Or.inr (.scope hopened hopened' ?_ (fun name => ?_) fun name => ?_)
      · rw [hparent, hparent']
        exact .some (B.joins_mono (B.le_join .scope hfree) hn)
      · rw [(hnames name).1, (hnames' name).1]
        exact .none
      · rw [(hnames name).2, (hnames' name).2]
        exact .none

theorem createClosure (h : s.Across B s') (hn : B.joins .scope n n') (fname : String)
    (names : List String) :
    Leads B (fun C => C.joins .closure) (s.createClosure n fname names)
      (s'.createClosure n' fname names) := by
  obtain ⟨hscope, hscope'⟩ := h.isScope hn
  have hfree := h.free (h.regular.sound.node?_new (.closure fname))
    (h.regular'.sound.node?_new (.closure fname))
  refine ⟨B.join .closure hfree, B.le_join .closure hfree, id, ?_, ?_⟩
  · rw [createClosure_of_isScope hscope, createClosure_of_isScope hscope']
    exact .ok (B.joins_join .closure hfree)
  · have hstays {s : Scopes} {n : ScopeId} (hs : Regular none s) (hscope : s.isScope n = true) :
        Stays (fun _ => False) s (s.createClosure n fname names).2 :=
      .of_confined hs (hs.createClosure n fname names) (hs.confined_createClosure n fname names)
        (hs.sound.node?_new (.closure fname)) (by rw [createClosure_of_isScope hscope])
    have hmade {s : Scopes} {n : ScopeId} (hs : Regular none s) (hscope : s.isScope n = true) :
        (s.createClosure n fname names).2.closureScope (s.graph.addNode (.closure fname)).1 =
          .ok n :=
      (hs.createClosure_captures (by rw [createClosure_of_isScope hscope])).2.1
    refine h.of_stays (hstays h.regular hscope) (hstays h.regular' hscope')
      (B.le_join .closure hfree) ?_
    rintro l m m' (hold | ⟨rfl, rfl, rfl⟩)
    · exact Or.inl ⟨hold, id, id⟩
    · exact Or.inr (.closure (hmade h.regular hscope) (hmade h.regular' hscope')
        (B.joins_mono (B.le_join .closure hfree) hn))

/-! ### Writes -/

/-- A write on both sides to one variable. -/
theorem of_write {var var' : VarId} (h : s.Across B s') (hvar : B.joins .var var var')
    (halters : Alters var s s₁) (halters' : Alters var' s' s₁')
    (hdeclared : s₁.declared = s.declared) (hdeclared' : s₁'.declared = s'.declared)
    (hwritten : Matched B s₁ s₁' .var var var') : s₁.Across B s₁' := by
  have hstays : Stays (· = var) s s₁ :=
    halters.stays h.regular (fun _ => rfl) fun _ name => by rw [hdeclared]
  have hstays' : Stays (· = var') s' s₁' :=
    halters'.stays h.regular' (fun _ => rfl) fun _ name => by rw [hdeclared']
  refine h.of_stays hstays hstays' le_rfl fun {k m m'} hold => ?_
  by_cases hm : m = var
  · obtain rfl : m' = var' := (B.oneToOne hold hvar).1 hm
    subst hm
    obtain rfl : k = .var := h.kind_eq hvar hold
    exact Or.inr hwritten
  · exact Or.inl ⟨hold, hm, fun hm' => hm ((B.oneToOne hold hvar).2 hm')⟩

theorem rebind {var var' : VarId} {v v' : Value} (h : s.Across B s')
    (hvar : B.joins .var var var') (hv : v.Across B v') :
    (s.rebind var v).1 = .ok () ∧ (s'.rebind var' v').1 = .ok () ∧
      (s.rebind var v).2.Across B (s'.rebind var' v').2 := by
  cases h.matched hvar with
  | @var _ _ name mutable hx hx' =>
    have hname := variableName?_iff.2 ⟨mutable, hx⟩
    have hname' := variableName?_iff.2 ⟨mutable, hx'⟩
    refine ⟨by rw [rebind_of_variable hname], by rw [rebind_of_variable hname'], ?_⟩
    have hnode {s : Scopes} {var : VarId} {v : Value} (hs : Regular none s)
        (hx : s.graph.node? var = some (.variable name mutable)) :
        (s.rebind var v).2.graph.node? var = some (.variable name mutable) := by
      rw [rebind_of_variable (variableName?_iff.2 ⟨mutable, hx⟩)]
      exact node?_rebound hs.tidy v (by simp) hx
    refine h.of_write hvar (h.regular.alters_rebind hx v) (h.regular'.alters_rebind hx' v')
      (declared_rebind var v) (declared_rebind var' v')
      (.var (hnode h.regular hx) (hnode h.regular' hx') ?_)
    rw [h.regular.valueOf?_rebind hname, h.regular'.valueOf?_rebind hname']
    exact .some hv

theorem redefine {var var' : VarId} {v v' : Value} (h : s.Across B s')
    (hvar : B.joins .var var var') (hv : v.Across B v') (mutable : Bool) :
    (s.redefine var v mutable).1 = .ok var ∧ (s'.redefine var' v' mutable).1 = .ok var' ∧
      (s.redefine var v mutable).2.Across B (s'.redefine var' v' mutable).2 := by
  cases h.matched hvar with
  | @var _ _ name mutable' hx hx' =>
    obtain ⟨s₂, hrun, -, hnode, -⟩ := redefine_of_variable h.regular.tidy hx v mutable
    obtain ⟨s₂', hrun', -, hnode', -⟩ := redefine_of_variable h.regular'.tidy hx' v' mutable
    refine ⟨by rw [hrun], by rw [hrun'], ?_⟩
    refine h.of_write hvar (h.regular.alters_redefine hx v mutable)
      (h.regular'.alters_redefine hx' v' mutable) (declared_redefine var v mutable)
      (declared_redefine var' v' mutable) ?_
    have hkept : (s.redefine var v mutable).2.graph.node? var = some (.variable name mutable) := by
      rw [hrun]
      exact hnode
    have hkept' :
        (s'.redefine var' v' mutable).2.graph.node? var' = some (.variable name mutable) := by
      rw [hrun']
      exact hnode'
    refine .var hkept hkept' ?_
    rw [(h.regular.writes_redefine hx v mutable).1.reads,
      (h.regular'.writes_redefine hx' v' mutable).1.reads]
    exact .some hv

/-- An operation that changes nothing. -/
theorem leads_refl {α : Type} {A : Span α} (h : s.Across B s') {r r' : Except BindingError α}
    (hr : Outcomes Eq (A B) r r') : Leads B A (r, s) (r', s') :=
  ⟨B, le_rfl, id, hr, h⟩

theorem assign (h : s.Across B s') (hn : B.joins .scope n n') (name : String)
    (hv : value.Across B value') :
    Leads B (fun C => C.joins .var) (s.assign n name value) (s'.assign n' name value') := by
  have hfind := h.find hn name
  unfold Scopes.assign
  generalize s.find n name = r, s'.find n' name = r' at hfind
  cases hfind with
  | error he =>
    subst he
    exact h.leads_refl (.error rfl)
  | @ok x x' hx =>
    dsimp only
    rw [h.isMutable? hx]
    split
    · exact h.leads_refl (.error rfl)
    · obtain ⟨hrun, hrun', hacross⟩ := h.rebind hx hv
      refine ⟨B, le_rfl, id, ?_, hacross⟩
      rw [hrun, hrun']
      exact .ok hx

theorem declare (h : s.Across B s') (hn : B.joins .scope n n') (name : String)
    (hundeclared : s.declared[((n : ScopeId), name)]? = none)
    (hundeclared' : s'.declared[((n' : ScopeId), name)]? = none)
    (hv : value.Across B value') (mutable : Bool) :
    ∃ C, B ≤ C ∧ (∀ {g}, C.shares g → B.shares g) ∧
      C.joins .var (s.declare n name value mutable).1 (s'.declare n' name value' mutable).1 ∧
      (s.declare n name value mutable).2.Across C (s'.declare n' name value' mutable).2 := by
  obtain ⟨hscope, hscope'⟩ := h.isScope hn
  have hfresh := h.regular.sound.node?_new (.variable name mutable)
  have hfresh' := h.regular'.sound.node?_new (.variable name mutable)
  have hfree := h.free hfresh hfresh'
  have hnew := B.joins_join .var hfree
  refine ⟨B.join .var hfree, B.le_join .var hfree, id, hnew, ?_⟩
  have halters := h.regular.alters_declare hscope hundeclared value mutable
  have halters' := h.regular'.alters_declare hscope' hundeclared' value' mutable
  have hstays {s : Scopes} {n : ScopeId} {value : Value} (hs : Regular none s)
      (halters : Alters (s.graph.addNode (.variable name mutable)).1 s
        (s.declare n name value mutable).2) :
      Stays (· = n) s (s.declare n name value mutable).2 := by
    refine halters.stays hs (fun ha => ?_) fun {m} hm name' => ?_
    · cases (hs.sound.node?_new _).symm.trans ha
    · dsimp only [Scopes.declare]
      rw [Std.HashMap.getElem?_insert, if_neg (by simp [Ne.symm hm])]
  refine h.of_stays (hstays h.regular halters) (hstays h.regular' halters')
    (B.le_join .var hfree) ?_
  rintro l m m' (hold | ⟨rfl, rfl, rfl⟩)
  · by_cases hm : m = n
    · obtain rfl : m' = n' := (B.oneToOne hold hn).1 hm
      subst hm
      obtain rfl : l = .scope := h.kind_eq hn hold
      refine Or.inr ?_
      cases (h.matched hn).mono (B.le_join .var hfree) with
      | scope _ _ hparent hdeclared himported =>
        refine .scope (halters.isScope h.regular hscope) (halters'.isScope h.regular' hscope')
          ?_ (fun name' => ?_) fun name' => ?_
        · rwa [halters.parent? h.regular hscope, halters'.parent? h.regular' hscope']
        · dsimp only [Scopes.declare]
          rw [Std.HashMap.getElem?_insert, Std.HashMap.getElem?_insert]
          by_cases heq : name = name'
          · rw [if_pos (by simp [heq]), if_pos (by simp [heq])]
            exact .some hnew
          · rw [if_neg (by simp [heq]), if_neg (by simp [heq])]
            exact hdeclared name'
        · rw [halters.imported? h.regular hscope, halters'.imported? h.regular' hscope']
          exact himported name'
    · exact Or.inl ⟨hold, hm, fun hm' => hm ((B.oneToOne hold hn).2 hm')⟩
  · refine Or.inr (.var (node?_declare h.regular.tidy hscope name value mutable).1
      (node?_declare h.regular'.tidy hscope' name value' mutable).1 ?_)
    have hvalue := h.regular.valueOf?_declare hscope name value mutable
    have hvalue' := h.regular'.valueOf?_declare hscope' name value' mutable
    dsimp only [Scopes.declare] at hvalue hvalue' ⊢
    rw [hvalue, hvalue']
    exact .some (hv.mono (B.le_join .var hfree))

theorem define (h : s.Across B s') (hn : B.joins .scope n n') (name : String)
    (hv : value.Across B value') (mutable : Bool) :
    Leads B (fun C => C.joins .var) (s.define n name value mutable)
      (s'.define n' name value' mutable) := by
  obtain ⟨hscope, hscope'⟩ := h.isScope hn
  unfold Scopes.define
  rw [if_neg (by simp [hscope]), if_neg (by simp [hscope'])]
  cases h.matched hn with
  | scope _ _ _ hdeclared =>
    obtain ⟨hx, hx'⟩ | ⟨x, x', hx, hx', hjoin⟩ := (hdeclared name).none_or_some <;> rw [hx, hx']
    · obtain ⟨C, hBC, hshares, hnew, hacross⟩ := h.declare hn name hx hx' hv mutable
      exact ⟨C, hBC, hshares, .ok hnew, hacross⟩
    · dsimp only
      rw [h.isMutable? hjoin]
      split
      · exact h.leads_refl (.error rfl)
      · obtain ⟨hrun, hrun', hacross⟩ := h.redefine hjoin hv mutable
        refine ⟨B, le_rfl, id, ?_, hacross⟩
        rw [hrun, hrun']
        exact .ok hjoin

theorem importVar (h : s.Across B s') (hn : B.joins .scope n n') (hx : B.joins .var x x') :
    Leads B Span.same (s.importVar n x) (s'.importVar n' x') := by
  obtain ⟨hscope, hscope'⟩ := h.isScope hn
  cases h.matched hx with
  | @var _ _ name mutable hnode hnode' =>
    obtain ⟨hstays, himported₁, hrun, hdeclared₁⟩ :=
      h.regular.stays_import hscope (variableName?_iff.2 ⟨mutable, hnode⟩)
    obtain ⟨hstays', himported₁', hrun', hdeclared₁'⟩ :=
      h.regular'.stays_import hscope' (variableName?_iff.2 ⟨mutable, hnode'⟩)
    refine ⟨B, le_rfl, id, by rw [hrun, hrun']; exact .ok rfl, ?_⟩
    refine h.of_stays hstays hstays' le_rfl fun {k m m'} hold => ?_
    by_cases hm : m = n
    · obtain rfl : m' = n' := (B.oneToOne hold hn).1 hm
      subst hm
      obtain rfl : k = .scope := h.kind_eq hn hold
      cases h.matched hn with
      | scope _ _ hparent hdeclared himported =>
        obtain ⟨hkept, hparents⟩ := hstays.scope hscope
        obtain ⟨hkept', hparents'⟩ := hstays'.scope hscope'
        refine Or.inr (.scope hkept hkept' (by rwa [hparents, hparents'])
          (by rwa [hdeclared₁, hdeclared₁']) fun name' => ?_)
        rw [himported₁, himported₁']
        split
        · exact .some hx
        · exact himported name'
    · exact Or.inl ⟨hold, hm, fun hm' => hm ((B.oneToOne hold hn).2 hm')⟩

end Across

end Scopes

end GraphLang
