import GraphLang.Proofs.Scopes.Constant
import Mathlib.Data.List.Find

/-!
# Scopes in which nothing is defined

Variables are added to the scope that a definition names and to no other one. A scope in which
nothing is defined keeps its variables and its parent, whatever else happens, and a name that is
looked up from it means what it meant, as long as nothing is defined in the scopes around it either.
-/

namespace GraphLang.Scopes

open SlotGraph

variable {kept : ScopeId → Prop} {s s₁ s₂ : Scopes} {n : ScopeId}

/-- No scope and no variable is lost, and the kept scopes are as they were. -/
structure Undisturbed (kept : ScopeId → Prop) (s s₁ : Scopes) : Prop where
  /-- The scopes are regular. -/
  regular : Regular none s₁
  /-- No scope is lost. -/
  isScope : ∀ {n}, s.isScope n = true → s₁.isScope n = true
  /-- Variables keep their names. -/
  name : ∀ {var name}, s.variableName? var = some name → s₁.variableName? var = some name
  /-- Kept scopes have their parents, their variables and what was imported into them. -/
  ties : ∀ {n}, s.isScope n = true → kept n → s₁.graph.ties n = s.graph.ties n
  /-- Kept scopes declare what they declared. -/
  declared : ∀ {n}, s.isScope n = true → kept n → ∀ name : String,
    s₁.declared[(n, name)]? = s.declared[(n, name)]?

namespace Undisturbed

theorem refl (h : Regular none s) : Undisturbed kept s s :=
  ⟨h, id, id, fun _ _ => rfl, fun _ _ _ => rfl⟩

theorem trans (h : Undisturbed kept s s₁) (h' : Undisturbed kept s₁ s₂) : Undisturbed kept s s₂ where
  regular := h'.regular
  isScope := h'.isScope ∘ h.isScope
  name := h'.name ∘ h.name
  ties hn hkept := (h'.ties (h.isScope hn) hkept).trans (h.ties hn hkept)
  declared hn hkept name :=
    (h'.declared (h.isScope hn) hkept name).trans (h.declared hn hkept name)

end Undisturbed

/-! ### Operations -/

theorem Regular.ties_of_touches (h : Regular none s)
    (htouches : Touches (fun x => ¬kept x ∨ s.Mutable x) s s₁) (hn : s.isScope n = true)
    (hkept : kept n) : s₁.graph.ties n = s.graph.ties n := by
  obtain ⟨kind, active, hnode⟩ := isScope_iff.1 hn
  rcases htouches with hnone | ⟨x, hx, hat⟩
  · exact hnone.ties hnode id
  · refine hat.ties hnode ?_
    rintro (rfl | hmem)
    · rcases hx with hother | ⟨name, hvar⟩
      · exact hother hkept
      · rw [hnode] at hvar
        cases hvar
    · obtain ⟨e, hedge⟩ := h.sound.mem_ties.1 hmem
      obtain ⟨value, hvalue⟩ := h.bindsTo_ends hedge
      rw [hnode] at hvalue
      cases hvalue

/-- A change that adds nodes and touches none of those that were there. -/
theorem Undisturbed.of_confined (h₁ : Regular none s₁)
    (hconfined : Confined (fun _ => False) s.graph s₁.graph) (hdeclared : s₁.declared = s.declared) :
    Undisturbed kept s s₁ where
  regular := h₁
  isScope hn := by
    obtain ⟨kind, active, hnode⟩ := isScope_iff.1 hn
    exact isScope_iff.2 ⟨kind, active, hconfined.node hnode id⟩
  name hname := by
    obtain ⟨mutable, hnode⟩ := variableName?_iff.1 hname
    exact variableName?_iff.2 ⟨mutable, hconfined.node hnode id⟩
  ties hn _ := by
    obtain ⟨kind, active, hnode⟩ := isScope_iff.1 hn
    exact hconfined.ties hnode id
  declared _ _ name := by rw [hdeclared]

theorem Regular.undisturbed_push (h : Regular none s) (parent : ScopeId) (kind : ScopeKind) :
    Undisturbed kept s (s.push parent kind).2 := by
  refine .of_confined (h.push parent kind) (confined_push h.sound parent kind) ?_
  by_cases hparent : s.isScope parent = true
  · rw [push_of_isScope hparent]
  · rw [Scopes.push, if_neg hparent]

theorem Regular.undisturbed_createClosure (h : Regular none s) (scope : ScopeId) (name : String)
    (names : List String) : Undisturbed kept s (s.createClosure scope name names).2 := by
  refine .of_confined (h.createClosure scope name names)
    (h.confined_createClosure scope name names) ?_
  by_cases hscope : s.isScope scope = true
  · rw [createClosure_of_isScope hscope]
  · rw [Scopes.createClosure, if_neg hscope]

theorem Regular.undisturbed_pop (h : Regular none s) (scope : ScopeId) :
    Undisturbed kept s (s.pop scope).2 := by
  by_cases hscope : s.isScope scope = true
  · have hregular := h.pop scope
    rw [pop_of_isScope hscope] at hregular ⊢
    refine ⟨hregular, fun hn => ?_, fun hname => ?_, fun _ _ => ties_modifyNode .., fun _ _ _ => rfl⟩
    · rwa [isScope_leave]
    · rwa [variableName?_modifyNode ScopeNode.like_leave]
  · rw [Scopes.pop, if_neg hscope]
    exact .refl h

theorem variableName?_rebind (h : s.Tidy) (var : VarId) (value : Value) {n : VarId} {name : String}
    (hname : s.variableName? n = some name) : (s.rebind var value).2.variableName? n = some name := by
  cases hvar : s.variableName? var with
  | none => rwa [Scopes.rebind, hvar]
  | some name' =>
    rw [rebind_of_variable hvar]
    obtain ⟨mutable, hnode⟩ := variableName?_iff.1 hname
    exact variableName?_iff.2 ⟨mutable, node?_rebound h value (by simp) hnode⟩

theorem declared_rebind (var : VarId) (value : Value) :
    (s.rebind var value).2.declared = s.declared := by
  unfold rebind
  split <;> rfl

theorem Regular.undisturbed_assign (h : Regular none s) (scope : ScopeId) (name : String)
    (value : Value) : Undisturbed kept s (s.assign scope name value).2 := by
  have hcases : (s.assign scope name value).2 = s ∨
      ∃ var, (s.assign scope name value).2 = (s.rebind var value).2 := by
    unfold Scopes.assign
    cases s.find scope name with
    | error e => exact Or.inl rfl
    | ok var =>
      dsimp only
      split
      · exact Or.inl rfl
      · exact Or.inr ⟨var, rfl⟩
  refine ⟨h.assign scope name value, (Keeps.assign h.tidy scope name value).isScope, ?_,
    h.ties_of_touches ((h.touches_assign scope name value).weaken fun _ => Or.inr), ?_⟩
  · intro var name' hname
    rcases hcases with heq | ⟨written, heq⟩ <;> rw [heq]
    · exact hname
    · exact variableName?_rebind h.tidy written value hname
  · intro n _ _ name'
    rcases hcases with heq | ⟨written, heq⟩ <;> rw [heq]
    rw [declared_rebind]

/-- A definition declares the name in its scope, or gives a variable another value, or does
nothing. -/
theorem define_cases (s : Scopes) (scope : ScopeId) (name : String) (value : Value)
    (mutable : Bool) : (s.define scope name value mutable).2 = s ∨
      (s.isScope scope = true ∧
        (s.define scope name value mutable).2 = (s.declare scope name value mutable).2) ∨
      ∃ var, (s.define scope name value mutable).2 = (s.redefine var value mutable).2 := by
  unfold define
  by_cases hscope : s.isScope scope = true
  · rw [if_neg (by simp [hscope])]
    cases s.declared[(scope, name)]? with
    | none => exact Or.inr (Or.inl ⟨hscope, rfl⟩)
    | some var =>
      dsimp only
      split
      · exact Or.inl rfl
      · exact Or.inr (Or.inr ⟨var, rfl⟩)
  · rw [if_pos (by simp [hscope])]
    exact Or.inl rfl

theorem Regular.undisturbed_define (h : Regular none s) {scope : ScopeId} (hscope : ¬kept scope)
    (name : String) (value : Value) (mutable : Bool) :
    Undisturbed kept s (s.define scope name value mutable).2 := by
  have htouches : Touches (fun x => ¬kept x ∨ s.Mutable x) s
      (s.define scope name value mutable).2 := by
    refine (h.touches_define scope name value mutable).weaken fun x hx => hx.imp_left ?_
    rintro ⟨rfl, -⟩
    exact hscope
  refine ⟨h.define scope name value mutable, (Keeps.define h.tidy scope name value mutable).isScope,
    ?_, h.ties_of_touches htouches, ?_⟩
  · intro var name' hname
    rcases define_cases s scope name value mutable with heq | ⟨hlive, heq⟩ | ⟨written, heq⟩ <;>
      rw [heq]
    · exact hname
    · obtain ⟨mutable', hnode⟩ := variableName?_iff.1 hname
      exact variableName?_iff.2 ⟨mutable', (node?_declare h.tidy hlive name value mutable).2 hnode⟩
    · have hmodify := Keeps.modifyNode h.tidy written mutable
      refine variableName?_rebind hmodify.tidy written value ?_
      rwa [variableName?_modifyNode (ScopeNode.like_withMutable mutable)]
  · intro n _ hkept name'
    have hne : scope ≠ n := by
      rintro rfl
      exact hscope hkept
    rcases define_cases s scope name value mutable with heq | ⟨-, heq⟩ | ⟨written, heq⟩ <;> rw [heq]
    · rw [declare_eq]
      dsimp only
      rw [Std.HashMap.getElem?_insert, if_neg (by simp [hne])]
    · exact congrArg (·[(n, name')]?) (declared_rebind written value)

/-! ### Walks outward -/

/-- What lies around a scope are scopes. -/
theorem Regular.isScope_of_mem_chain {bare : Option Nat} (h : Regular bare s) {fuel : Nat}
    (hn : s.isScope n = true) {m : ScopeId} (hm : m ∈ s.chain fuel n) : s.isScope m = true := by
  induction fuel generalizing n with
  | zero => cases hm
  | succ fuel ih =>
    unfold Scopes.chain at hm
    rcases List.mem_cons.1 hm with rfl | hm
    · exact hn
    · cases hparent : s.parent? n with
      | none => simp [hparent] at hm
      | some parent =>
        obtain ⟨e, hedge⟩ := h.parent?_iff.1 hparent
        exact ih (h.parent_ends hedge).2 (by simpa [hparent] using hm)

/-- Walks through scopes with the same parents. -/
theorem chain_congr {fuel : Nat} (h : ∀ m ∈ s.chain fuel n, s₁.parent? m = s.parent? m) :
    s₁.chain fuel n = s.chain fuel n := by
  induction fuel generalizing n with
  | zero => rfl
  | succ fuel ih =>
    have hparents := h n List.mem_cons_self
    unfold Scopes.chain at h ⊢
    rw [hparents]
    cases hparent : s.parent? n with
    | none => rfl
    | some parent =>
      rw [hparent] at h
      exact congrArg (n :: ·) (ih fun m hm => h m (List.mem_cons_of_mem n hm))

/-- A walk that comes to an end goes no further with more steps. -/
theorem chain_of_ends {fuel fuel' : Nat} {outermost : ScopeId}
    (hlast : (s.chain fuel n).getLast? = some outermost) (hends : s.parent? outermost = none)
    (hle : fuel ≤ fuel') : s.chain fuel' n = s.chain fuel n := by
  induction fuel generalizing n fuel' with
  | zero => cases hlast
  | succ fuel ih =>
    obtain ⟨fuel', rfl⟩ := Nat.exists_eq_add_of_le' (Nat.le_trans (Nat.le_add_left 1 fuel) hle)
    unfold chain at hlast ⊢
    cases hparent : s.parent? n with
    | none => rfl
    | some parent =>
      rw [hparent] at hlast
      dsimp only at hlast
      rw [List.getLast?_cons] at hlast
      cases hrest : (s.chain fuel parent).getLast? with
      | none =>
        rw [hrest] at hlast
        obtain rfl : n = outermost := Option.some.inj hlast
        rw [hparent] at hends
        cases hends
      | some m =>
        rw [hrest] at hlast
        obtain rfl : m = outermost := Option.some.inj hlast
        exact congrArg (n :: ·) (ih hrest (by omega))

/-- A scope lies in the same ones, if they have the same parents. -/
theorem Regular.ancestry_congr {bare bare' : Option Nat} (h : Regular bare s)
    (h₁ : Regular bare' s₁) (hparent : ∀ m ∈ s.ancestry n, s₁.parent? m = s.parent? m) :
    s₁.ancestry n = s.ancestry n := by
  obtain ⟨outermost, hlast, hends⟩ := h.ancestry_ends n
  obtain ⟨outermost₁, hlast₁, hends₁⟩ := h₁.ancestry_ends n
  have hstop : s₁.parent? outermost = none := by
    rw [hparent outermost (List.mem_of_getLast? hlast), hends]
  have hstart : s₁.chain (s.graph.slots.size + 1) n = s.ancestry n := chain_congr hparent
  -- Both walks come to an end, however many steps they may take.
  rcases Nat.le_total (s.graph.slots.size + 1) (s₁.graph.slots.size + 1) with hle | hle
  · exact (chain_of_ends (hstart ▸ hlast) hstop hle).trans hstart
  · exact (chain_of_ends hlast₁ hends₁ hle).symm.trans hstart

/-! ### What a kept scope contains, and what names mean there -/

namespace Undisturbed

/-- What the ties of a kept scope lead to has the same name. -/
theorem variableName?_of_tie (h : Undisturbed kept s s₁) (hs : Regular none s) {kind : ScopeEdge}
    {var : VarId} (htie : (kind, var) ∈ s.graph.ties n) (hn : s.isScope n = true)
    (hkind : kind = .contains ∨ kind = .captures) :
    ∃ name, s.variableName? var = some name ∧ s₁.variableName? var = some name := by
  obtain ⟨kind', active, hnode⟩ := isScope_iff.1 hn
  obtain ⟨e, hedge⟩ := hs.sound.mem_ties.1 htie
  obtain ⟨a, b, ha, hb, hfits⟩ := hs.fits hedge
  rw [hnode] at ha
  cases ha
  rcases hkind with rfl | rfl
  all_goals
    cases b <;> simp only [ScopeNode.Fits] at hfits
    have hname := variableName?_iff.2 ⟨_, hb⟩
    exact ⟨_, hname, h.name hname⟩

/-- A kept scope contains what it contained. -/
theorem contents (h : Undisturbed kept s s₁) (hs : Regular none s) (hn : s.isScope n = true)
    (hkept : kept n) : s₁.contents n = s.contents n := by
  rw [contents_eq, contents_eq, h.ties hn hkept]
  refine congrArg (List.mergeSort · nameOrder) (List.filterMap_congr fun t ht => ?_)
  split
  · next hkind =>
    obtain ⟨name, hname, hname₁⟩ := h.variableName?_of_tie hs ht hn (Or.inl (by simpa using hkind))
    rw [hname, hname₁]
  · rfl

theorem parent? (h : Undisturbed kept s s₁) (hn : s.isScope n = true) (hkept : kept n) :
    s₁.parent? n = s.parent? n := by
  rw [parent?_eq, parent?_eq, tied?, tied?, h.ties hn hkept]

theorem localVar? (h : Undisturbed kept s s₁) (hs : Regular none s) (hn : s.isScope n = true)
    (hkept : kept n) (name : String) : s₁.localVar? name n = s.localVar? name n := by
  have himported : s₁.imported? n name = s.imported? n name := by
    rw [imported?_eq, imported?_eq, h.ties hn hkept]
    congr 1
    refine List.find?_congr fun t ht => ?_
    by_cases hkind : t.1 = .captures
    · obtain ⟨name', hname, hname₁⟩ := h.variableName?_of_tie hs ht hn (Or.inr hkind)
      rw [hname, hname₁]
    · rw [beq_false_of_ne hkind, Bool.false_and, Bool.false_and]
  rw [Scopes.localVar?, Scopes.localVar?, h.declared hn hkept, himported]

/-- Walking outward through kept scopes. -/
theorem chain (h : Undisturbed kept s s₁) (hs : Regular none s) {fuel : Nat}
    (hn : s.isScope n = true) (hkept : ∀ m ∈ s.chain fuel n, kept m) :
    s₁.chain fuel n = s.chain fuel n ∧ ∀ m ∈ s.chain fuel n, s.isScope m = true := by
  have hscopes (m : ScopeId) (hm : m ∈ s.chain fuel n) := hs.isScope_of_mem_chain hn hm
  exact ⟨chain_congr fun m hm => h.parent? (hscopes m hm) (hkept m hm), hscopes⟩

/-- A scope that lies in kept ones lies in the same ones. -/
theorem ancestry (h : Undisturbed kept s s₁) (hs : Regular none s) (hn : s.isScope n = true)
    (hkept : ∀ m ∈ s.ancestry n, kept m) : s₁.ancestry n = s.ancestry n :=
  hs.ancestry_congr h.regular fun m hm =>
    h.parent? (hs.isScope_of_mem_chain hn hm) (hkept m hm)

/-- A name means the same, seen from a scope that lies in kept ones. -/
theorem resolve (h : Undisturbed kept s s₁) (hs : Regular none s) (hn : s.isScope n = true)
    (hkept : ∀ m ∈ s.ancestry n, kept m) (name : String) :
    s₁.resolve n name = s.resolve n name := by
  obtain ⟨-, hscopes⟩ := h.chain hs hn hkept
  rw [hs.consistent.resolves hn, h.regular.consistent.resolves (h.isScope hn),
    h.ancestry hs hn hkept, ← List.head?_filterMap, ← List.head?_filterMap]
  refine congrArg (fun vars => Except.ok (List.head? vars)) (List.filterMap_congr fun m hm => ?_)
  exact h.localVar? hs (hscopes m hm) (hkept m hm) name

end Undisturbed

end GraphLang.Scopes
