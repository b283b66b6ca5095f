import GraphLang.Proofs.Scopes.Captures

/-!
# Where a write is seen

Assigning and defining give one variable a value, and the new value takes the place of the old one.
So the value is read wherever a name means the variable and nowhere else. Names mean what they
meant, but for that of a new variable where its scope is the first one outward to show the name.
-/

namespace GraphLang.Scopes

open SlotGraph

variable {kept : Nat → Prop} {s s₁ : Scopes} {scope n : ScopeId} {name : String} {var x : VarId}
  {value : Value} {mutable : Bool}

/-! ### What a write leaves as it was -/

/-- Of what was there, a variable and its value may be different, and scopes may contain more. -/
structure Alters (var : VarId) (s s₁ : Scopes) : Prop where
  /-- The scopes are regular. -/
  regular : Regular none s₁
  /-- It is a variable, if it was there. -/
  target : ∀ {a}, s.graph.node? var = some a → ∃ name mutable, a = .variable name mutable
  /-- Variables keep their names. -/
  name : ∀ {x name}, s.variableName? x = some name → s₁.variableName? x = some name
  /-- All other nodes are as they were. -/
  node : ∀ {n a}, s.graph.node? n = some a → ¬At s.graph var n → s₁.graph.node? n = some a
  /-- They lead where they led, and to variables that they contain now. -/
  ties : ∀ {n a}, s.graph.node? n = some a → ¬At s.graph var n → ∃ new,
    s₁.graph.ties n = new ++ s.graph.ties n ∧ ∀ t ∈ new, t.1 = .contains

namespace Alters

/-- Nothing but the variable and values may be different. -/
theorem away (hs : Regular none s) {a : ScopeNode} (hn : s.graph.node? n = some a)
    (ha : ∀ v, a ≠ .binding v) (hne : n ≠ var) : ¬At s.graph var n := by
  rintro (heq | htie)
  · exact hne heq
  · obtain ⟨e, hedge⟩ := hs.sound.mem_ties.1 htie
    obtain ⟨v, hv⟩ := hs.bindsTo_ends hedge
    rw [hn] at hv
    exact ha v (Option.some.inj hv)

/-- What is neither a variable nor a value is as it was. -/
theorem away_of_ne_variable (h : Alters var s s₁) (hs : Regular none s) {a : ScopeNode}
    (hn : s.graph.node? n = some a) (ha : ∀ v, a ≠ .binding v)
    (ha' : ∀ name mutable, a ≠ .variable name mutable) : ¬At s.graph var n := by
  refine away hs hn ha ?_
  rintro rfl
  obtain ⟨name, mutable, heq⟩ := h.target hn
  exact ha' name mutable heq

theorem carries (h : Alters var s s₁) (hs : Regular none s) : Carries kept s s₁ where
  regular := h.regular
  isScope _ hn := by
    obtain ⟨kind, active, hnode⟩ := isScope_iff.1 hn
    exact isScope_iff.2
      ⟨kind, active, h.node hnode (h.away_of_ne_variable hs hnode (by simp) (by simp))⟩
  name _ := h.name
  ties _ hn := by
    obtain ⟨kind, active, hnode⟩ := isScope_iff.1 hn
    obtain ⟨new, hnew, hcontains⟩ :=
      h.ties hnode (h.away_of_ne_variable hs hnode (by simp) (by simp))
    exact ⟨new, hnew, fun t ht => by simp [hcontains t ht]⟩
  closure {c fname} _ hc := by
    have haway := h.away_of_ne_variable hs hc (by simp) (by simp)
    have hc₁ := h.node hc haway
    obtain ⟨new, hnew, hcontains⟩ := h.ties hc haway
    refine ⟨hc₁, ?_⟩
    -- A closure contains no variables.
    cases new with
    | nil => exact hnew
    | cons t new =>
      obtain ⟨kind, target⟩ := t
      obtain rfl : kind = .contains := hcontains _ List.mem_cons_self
      have htie : (ScopeEdge.contains, target) ∈ s₁.graph.ties c := by
        rw [hnew]
        exact List.mem_cons_self
      obtain ⟨e, hedge⟩ := h.regular.sound.mem_ties.1 htie
      obtain ⟨kind, active, hnode⟩ := isScope_iff.1 (h.regular.contains_ends hedge).1
      rw [hc₁] at hnode
      cases hnode

theorem isScope (h : Alters var s s₁) (hs : Regular none s) (hn : s.isScope n = true) :
    s₁.isScope n = true :=
  (h.carries hs : Carries (fun _ => True) s s₁).isScope trivial hn

theorem parent? (h : Alters var s s₁) (hs : Regular none s) (hn : s.isScope n = true) :
    s₁.parent? n = s.parent? n :=
  (h.carries hs : Carries (fun _ => True) s s₁).parent? trivial hn

/-- What was imported into a scope is still imported. -/
theorem imported? (h : Alters var s s₁) (hs : Regular none s) (hn : s.isScope n = true)
    (name : String) : s₁.imported? n name = s.imported? n name := by
  obtain ⟨kind, active, hnode⟩ := isScope_iff.1 hn
  obtain ⟨new, hnew, hcontains⟩ := h.ties hnode (h.away_of_ne_variable hs hnode (by simp) (by simp))
  have hnone : new.find? (fun t => t.1 == .captures && s₁.variableName? t.2 == some name) = none :=
    List.find?_eq_none.2 fun t ht => by simp [hcontains t ht]
  rw [imported?_eq, imported?_eq, hnew, List.find?_append, hnone, Option.none_or]
  congr 1
  refine List.find?_congr fun t ht => ?_
  by_cases hkind : t.1 = .captures
  · obtain ⟨e, hedge⟩ := hs.sound.mem_ties.1 ht
    obtain ⟨a, b, ha, hb, hfits⟩ := hs.fits hedge
    rw [hnode] at ha
    cases ha
    rw [hkind] at hfits
    cases b <;> simp only [ScopeNode.Fits] at hfits
    have hname := variableName?_iff.2 ⟨_, hb⟩
    rw [hname, h.name hname]
  · rw [beq_false_of_ne hkind, Bool.false_and, Bool.false_and]

/-- Another variable is as it was, and so is its value. -/
theorem other (h : Alters var s s₁) (hs : Regular none s)
    (hx : s.graph.node? x = some (.variable name mutable)) (hne : x ≠ var) :
    s₁.graph.node? x = some (.variable name mutable) ∧ s₁.valueOf? x = s.valueOf? x := by
  have haway := away hs hx (by simp) hne
  refine ⟨h.node hx haway, ?_⟩
  obtain ⟨value, hvalue⟩ := hs.exists_valueOf? hx
  obtain ⟨t, htie, ht⟩ := hs.valueOf?_iff.1 hvalue
  -- The value is not that of the written variable.
  have htAway : ¬At s.graph var t := by
    rintro (rfl | htie')
    · obtain ⟨name', mutable', heq⟩ := h.target ht
      cases heq
    · exact hne (hs.eq_of_ties htie' htie)
  obtain ⟨new, hnew, -⟩ := h.ties hx haway
  rw [hvalue]
  exact h.regular.valueOf?_iff.2 ⟨t, hnew ▸ List.mem_append_right new htie, h.node ht htAway⟩

/-! ### What names mean after a write -/

theorem ancestry (h : Alters var s s₁) (hs : Regular none s) (hn : s.isScope n = true) :
    s₁.ancestry n = s.ancestry n :=
  hs.ancestry_congr h.regular fun _ hm => h.parent? hs (hs.isScope_of_mem_chain hn hm)

theorem resolve_eq (h : Alters var s s₁) (hs : Regular none s) (hn : s.isScope n = true)
    (name : String) :
    s₁.resolve n name = .ok ((s.ancestry n).findSome? (s₁.localVar? name)) := by
  rw [h.regular.consistent.resolves (h.isScope hs hn), h.ancestry hs hn]

/-- A name that has a meaning of its own in the same scopes means the same. -/
theorem resolve_congr (h : Alters var s s₁) (hs : Regular none s) (hn : s.isScope n = true)
    (hlocal : ∀ m ∈ s.ancestry n, s₁.localVar? name m = s.localVar? name m) :
    s₁.resolve n name = s.resolve n name := by
  rw [h.resolve_eq hs hn, hs.consistent.resolves hn, ← List.head?_filterMap,
    ← List.head?_filterMap, List.filterMap_congr hlocal]

/-- If nothing is declared, then names mean what they meant. -/
theorem resolve (h : Alters var s s₁) (hs : Regular none s) (hdeclared : s₁.declared = s.declared)
    (hn : s.isScope n = true) (name : String) : s₁.resolve n name = s.resolve n name :=
  h.resolve_congr hs hn fun m hm => by
    rw [localVar?, localVar?, hdeclared, h.imported? hs (hs.isScope_of_mem_chain hn hm)]

end Alters

/-! ### Reads after a write -/

theorem get_congr (hresolve : s₁.resolve n name = s.resolve n name)
    (hvalue : ∀ x, s.resolve n name = .ok (some x) → s₁.valueOf? x = s.valueOf? x) :
    s₁.get n name = s.get n name := by
  unfold get find
  rw [hresolve]
  cases hmeant : s.resolve n name with
  | error e => rfl
  | ok meant =>
    cases meant with
    | none => rfl
    | some x =>
      dsimp only [Bind.bind, Except.bind, pure, Except.pure]
      rw [hvalue x hmeant]

/-- A variable was given a value, which is read wherever a name means the variable. Everything else
is as it was. -/
structure Writes (var : VarId) (value : Value) (mutable : Bool) (s s₁ : Scopes) : Prop where
  /-- The variable has the value. -/
  reads : s₁.valueOf? var = some value
  /-- The variable can be written from now on, or not. -/
  mutability : s₁.isMutable? var = some mutable
  /-- Every other variable keeps its name, its value, and whether it can be written. -/
  other : ∀ {x name}, s.variableName? x = some name → x ≠ var →
    s₁.variableName? x = some name ∧ s₁.isMutable? x = s.isMutable? x ∧ s₁.valueOf? x = s.valueOf? x
  /-- The value is read where a name means the variable. -/
  seen : ∀ {n}, s.isScope n = true → ∀ name, s₁.resolve n name = .ok (some var) →
    s₁.get n name = .ok value
  /-- Elsewhere the same is read, or the same failure met. -/
  unseen : ∀ {n}, s.isScope n = true → ∀ name, s₁.resolve n name ≠ .ok (some var) →
    s₁.get n name = s.get n name
  /-- Scopes are as they were, in the scopes that they were in, with what was imported. -/
  scope : ∀ {n}, s.isScope n = true → s₁.graph.node? n = s.graph.node? n ∧
    s₁.parent? n = s.parent? n ∧ ∀ name, s₁.imported? n name = s.imported? n name
  /-- Closures are as they were, in the scopes that they were made in, with what they captured. -/
  closure : ∀ {c fname}, s.graph.node? c = some (.closure fname) →
    s₁.graph.node? c = some (.closure fname) ∧ s₁.closureScope c = s.closureScope c ∧
      s₁.captured c = s.captured c

theorem Alters.writes (h : Alters var s s₁) (hs : Regular none s)
    (hreads : s₁.valueOf? var = some value) (hmutable : s₁.isMutable? var = some mutable)
    (hresolve : ∀ {n}, s.isScope n = true → ∀ name, s₁.resolve n name ≠ .ok (some var) →
      s₁.resolve n name = s.resolve n name) : Writes var value mutable s s₁ where
  reads := hreads
  mutability := hmutable
  other {x name} hname hne := by
    obtain ⟨mutable', hx⟩ := variableName?_iff.1 hname
    obtain ⟨hx₁, hvalue⟩ := h.other hs hx hne
    exact ⟨h.name hname, by rw [isMutable?_of_node? hx, isMutable?_of_node? hx₁], hvalue⟩
  seen _ _ hmeant := get_of_resolve hmeant hreads
  unseen {n} hn name hother := by
    have hsame := hresolve hn name hother
    refine get_congr hsame fun x hx => ?_
    have hne : x ≠ var := by
      rintro rfl
      exact hother (hsame.trans hx)
    obtain ⟨mutable', hnode⟩ := variableName?_iff.1 (hs.variableName?_of_resolve hn hx)
    exact (h.other hs hnode hne).2
  scope {n} hn := by
    obtain ⟨kind, active, hnode⟩ := isScope_iff.1 hn
    have haway := h.away_of_ne_variable hs hnode (by simp) (by simp)
    exact ⟨(h.node hnode haway).trans hnode.symm, h.parent? hs hn, h.imported? hs hn⟩
  closure hc :=
    ⟨(h.carries hs : Carries (fun _ => True) s s₁).closure trivial hc |>.1,
      (h.carries hs).closure_same hs hc⟩

/-! ### Giving a variable another value -/

theorem valueOf?_bind {g : SlotGraph ScopeNode ScopeEdge}
    {d : Std.HashMap (ScopeId × String) VarId} (h : g.Sound) (hvar : g.hasNode var = true)
    (value : Value) : Scopes.valueOf? ⟨bind g var value, d⟩ var = some value := by
  rw [valueOf?_eq, tied?]
  dsimp only
  rw [ties_bind h hvar, if_pos rfl, List.find?_cons_of_pos (by rfl)]
  dsimp only [Option.map_some, Option.bind_some]
  rw [node?_bind h, if_pos rfl]

theorem Regular.valueOf?_rebind (h : Regular none s) (hname : s.variableName? var = some name)
    (value : Value) : (s.rebind var value).2.valueOf? var = some value := by
  obtain ⟨mutable, hvar⟩ := variableName?_iff.1 hname
  have hkept : (Scopes.unbind s.graph var).node? var = some (.variable name mutable) :=
    node?_unbind_of_ne h.tidy (by simp) hvar
  rw [rebind_of_variable hname]
  exact valueOf?_bind (sound_unbind h.sound var) (hasNode_iff.2 ⟨_, hkept⟩) value

theorem Regular.alters_rebind (h : Regular none s)
    (hvar : s.graph.node? var = some (.variable name mutable)) (value : Value) :
    Alters var s (s.rebind var value).2 where
  regular := h.rebind var value
  target ha := ⟨name, mutable, Option.some.inj (ha.symm.trans hvar)⟩
  name := variableName?_rebind h.tidy var value
  node := (h.confined_rebind var value).node
  ties hn haway := ⟨[], (h.confined_rebind var value).ties hn haway, List.forall_mem_nil _⟩

theorem Regular.alters_redefine (h : Regular none s) {mutable' : Bool}
    (hvar : s.graph.node? var = some (.variable name mutable')) (value : Value) (mutable : Bool) :
    Alters var s (s.redefine var value mutable).2 where
  regular := h.redefine var value mutable
  target ha := ⟨name, mutable', Option.some.inj (ha.symm.trans hvar)⟩
  name hname := by
    refine variableName?_rebind (Keeps.modifyNode h.tidy var mutable).tidy var value ?_
    rwa [variableName?_modifyNode (ScopeNode.like_withMutable mutable)]
  node := (h.confined_redefine var value mutable).node
  ties hn haway :=
    ⟨[], (h.confined_redefine var value mutable).ties hn haway, List.forall_mem_nil _⟩

theorem declared_redefine (var : VarId) (value : Value) (mutable : Bool) :
    (s.redefine var value mutable).2.declared = s.declared :=
  declared_rebind (s := ⟨s.graph.modifyNode var (ScopeNode.withMutable mutable), s.declared⟩)
    var value

/-- Another value of a variable is read where a name means the variable, and names mean what they
meant. -/
theorem Regular.writes_rebind (h : Regular none s)
    (hvar : s.graph.node? var = some (.variable name mutable)) (value : Value) :
    Writes var value mutable s (s.rebind var value).2 ∧
      ∀ n, s.isScope n = true → ∀ name',
        (s.rebind var value).2.resolve n name' = s.resolve n name' := by
  have halters := h.alters_rebind hvar value
  have hresolve {n : ScopeId} (hn : s.isScope n = true) (name' : String) :
      (s.rebind var value).2.resolve n name' = s.resolve n name' :=
    halters.resolve h (declared_rebind var value) hn name'
  have hname : s.variableName? var = some name := variableName?_iff.2 ⟨mutable, hvar⟩
  have hnode : (s.rebind var value).2.graph.node? var = some (.variable name mutable) := by
    rw [rebind_of_variable hname]
    exact node?_rebound h.tidy value (by simp) hvar
  exact ⟨halters.writes h (h.valueOf?_rebind hname value) (isMutable?_of_node? hnode)
    fun hn name' _ => hresolve hn name', fun _ => hresolve⟩

/-- So it is when the variable may be written from then on, or not. -/
theorem Regular.writes_redefine (h : Regular none s) {mutable' : Bool}
    (hvar : s.graph.node? var = some (.variable name mutable')) (value : Value) (mutable : Bool) :
    Writes var value mutable s (s.redefine var value mutable).2 ∧
      ∀ n, s.isScope n = true → ∀ name',
        (s.redefine var value mutable).2.resolve n name' = s.resolve n name' := by
  have halters := h.alters_redefine hvar value mutable
  have hresolve {n : ScopeId} (hn : s.isScope n = true) (name' : String) :
      (s.redefine var value mutable).2.resolve n name' = s.resolve n name' :=
    halters.resolve h (declared_redefine var value mutable) hn name'
  have hmodify : Regular none
      ⟨s.graph.modifyNode var (ScopeNode.withMutable mutable), s.declared⟩ :=
    Regular.modifyNode h (ScopeNode.like_withMutable mutable) var
  have hname : Scopes.variableName?
      ⟨s.graph.modifyNode var (ScopeNode.withMutable mutable), s.declared⟩ var = some name := by
    rw [variableName?_modifyNode (ScopeNode.like_withMutable mutable)]
    exact variableName?_iff.2 ⟨mutable', hvar⟩
  obtain ⟨s₂, hredefine, -, hnode, -⟩ := redefine_of_variable h.tidy hvar value mutable
  have hmutable : (s.redefine var value mutable).2.isMutable? var = some mutable := by
    rw [hredefine]
    exact isMutable?_of_node? hnode
  exact ⟨halters.writes h (hmodify.valueOf?_rebind hname value) hmutable
    fun hn name' _ => hresolve hn name', fun _ => hresolve⟩

/-! ### Declaring a variable -/

/-- Walking outward from the first scope comes to the second one before any that shows the name. -/
def Reaches (s : Scopes) (n scope : ScopeId) (name : String) : Prop :=
  ∃ near far, s.ancestry n = near ++ scope :: far ∧ ∀ m ∈ near, s.localVar? name m = none

/-- A new variable of a scope has taken over its name, where the scope is the first one outward to
show it. -/
structure Introduces (scope : ScopeId) (name : String) (var : VarId) (s s₁ : Scopes) : Prop where
  /-- The name was not declared in the scope. -/
  undeclared : s.declared[(scope, name)]? = none
  /-- The variable was not there. -/
  fresh : s.graph.node? var = none
  /-- The scope declares the name for it. -/
  declared : s₁.declared[(scope, name)]? = some var
  /-- The variable has the name. -/
  named : s₁.variableName? var = some name
  /-- The name means the variable where the scope is the first to show it. -/
  seen : ∀ {n}, s.isScope n = true → s.Reaches n scope name → s₁.resolve n name = .ok (some var)
  /-- Elsewhere it means what it meant, and so does every other name. -/
  unseen : ∀ {n}, s.isScope n = true → ∀ name', name' ≠ name ∨ ¬s.Reaches n scope name →
    s₁.resolve n name' = s.resolve n name'

/-- A declaration adds one name to one scope. -/
theorem Alters.localVar?_insert (h : Alters var s s₁) (hs : Regular none s)
    (hdeclared : s₁.declared = s.declared.insert (scope, name) var) (hn : s.isScope n = true)
    (name' : String) : s₁.localVar? name' n =
      if n = scope ∧ name' = name then some var else s.localVar? name' n := by
  rw [Scopes.localVar?, Scopes.localVar?, hdeclared, Std.HashMap.getElem?_insert, h.imported? hs hn]
  by_cases hsame : n = scope ∧ name' = name
  · obtain ⟨rfl, rfl⟩ := hsame
    simp
  · have hne : ¬((scope, name) == (n, name')) = true := by
      rw [beq_iff_eq, Prod.mk.injEq]
      rintro ⟨rfl, rfl⟩
      exact hsame ⟨rfl, rfl⟩
    rw [if_neg hne, if_neg hsame]

theorem Alters.introduces (h : Alters var s s₁) (hs : Regular none s)
    (hundeclared : s.declared[(scope, name)]? = none) (hfresh : s.graph.node? var = none)
    (hdeclared : s₁.declared = s.declared.insert (scope, name) var)
    (hscope : s.isScope scope = true) : Introduces scope name var s s₁ where
  undeclared := hundeclared
  fresh := hfresh
  declared := by rw [hdeclared, Std.HashMap.getElem?_insert_self]
  named := by
    have hvar : s₁.declared[(scope, name)]? = some var := by
      rw [hdeclared, Std.HashMap.getElem?_insert_self]
    exact (h.regular.tidy.declared hvar).2
  seen {n} hn hreaches := by
    obtain ⟨near, far, hancestry, hnear⟩ := hreaches
    have hlocal {m : ScopeId} (hm : m ∈ s.ancestry n) :=
      h.localVar?_insert hs hdeclared (hs.isScope_of_mem_chain hn hm) name
    have hhere : s₁.localVar? name scope = some var := by
      rw [h.localVar?_insert hs hdeclared hscope, if_pos ⟨rfl, rfl⟩]
    rw [h.resolve_eq hs hn, hancestry, List.findSome?_append, List.findSome?_cons, hhere]
    cases hfirst : near.findSome? (s₁.localVar? name) with
    | none => rfl
    | some y =>
      -- Nothing nearer than the scope shows the name.
      obtain ⟨m, hm, hy⟩ := List.exists_of_findSome?_eq_some hfirst
      rw [hlocal (hancestry ▸ List.mem_append_left _ hm)] at hy
      split at hy
      · rw [hy]
        rfl
      · rw [hnear m hm] at hy
        cases hy
  unseen {n} hn name' hother := by
    have hlocal {m : ScopeId} (hm : m ∈ s.ancestry n) :=
      h.localVar?_insert hs hdeclared (hs.isScope_of_mem_chain hn hm) name'
    by_cases hname : name' = name
    · subst hname
      by_cases hmem : scope ∈ s.ancestry n
      · obtain ⟨near, far, hancestry, hfirst⟩ := List.eq_append_cons_of_mem hmem
        -- A nearer scope shows the name already.
        have hsame : near.findSome? (s₁.localVar? name') = near.findSome? (s.localVar? name') := by
          rw [← List.head?_filterMap, ← List.head?_filterMap]
          refine congrArg List.head? (List.filterMap_congr fun m hm => ?_)
          rw [hlocal (hancestry ▸ List.mem_append_left _ hm), if_neg]
          rintro ⟨rfl, -⟩
          exact hfirst hm
        obtain ⟨y, hy⟩ : ∃ y, near.findSome? (s.localVar? name') = some y := by
          rw [← Option.isSome_iff_exists, Option.isSome_iff_ne_none]
          intro hnone
          exact hother.elim (· rfl) (· ⟨near, far, hancestry, List.findSome?_eq_none_iff.1 hnone⟩)
        rw [h.resolve_eq hs hn, hs.consistent.resolves hn, hancestry, List.findSome?_append,
          List.findSome?_append, hsame, hy]
        rfl
      · refine h.resolve_congr hs hn fun m hm => ?_
        rw [hlocal hm, if_neg]
        rintro ⟨rfl, -⟩
        exact hmem hm
    · refine h.resolve_congr hs hn fun m hm => ?_
      rw [hlocal hm, if_neg fun hsame => hname hsame.2]

theorem Regular.alters_declare (h : Regular none s) (hscope : s.isScope scope = true)
    (hundeclared : s.declared[(scope, name)]? = none) (value : Value) (mutable : Bool) :
    Alters (s.graph.addNode (.variable name mutable)).1 s
      (s.declare scope name value mutable).2 := by
  have hfresh := h.sound.node?_new (.variable name mutable)
  have hold {n : Nat} {a : ScopeNode} (hn : s.graph.node? n = some a) :=
    (node?_declare h.tidy hscope name value mutable).2 hn
  refine ⟨h.declare hscope hundeclared value mutable, fun ha => ?_, fun hname => ?_,
    fun hn _ => hold hn, fun {n a} hn _ => ?_⟩
  · rw [hfresh] at ha
    cases ha
  · obtain ⟨mutable', hnode⟩ := variableName?_iff.1 hname
    exact variableName?_iff.2 ⟨mutable', hold hnode⟩
  · by_cases heq : n = scope
    · subst heq
      exact ⟨[_], h.ties_declare hscope name value mutable, by simp⟩
    · exact ⟨[], (h.confined_declare hscope name value mutable).ties hn heq, List.forall_mem_nil _⟩

theorem Regular.valueOf?_declare (h : Regular none s) (hscope : s.isScope scope = true)
    (name : String) (value : Value) (mutable : Bool) :
    (s.declare scope name value mutable).2.valueOf? (s.declare scope name value mutable).1 =
      some value := by
  have hadd : Keeps s ⟨withVariable s.graph scope name mutable, s.declared⟩ :=
    .withVariable h.tidy hscope name mutable
  have hnode := node?_withVariable h.sound scope name mutable
    (s.graph.addNode (.variable name mutable)).1
  rw [if_pos rfl] at hnode
  exact valueOf?_bind hadd.tidy.sound (hasNode_iff.2 ⟨_, hnode⟩) value

theorem Regular.writes_declare (h : Regular none s) (hscope : s.isScope scope = true)
    (hundeclared : s.declared[(scope, name)]? = none) (value : Value) (mutable : Bool) :
    Writes (s.declare scope name value mutable).1 value mutable s
        (s.declare scope name value mutable).2 ∧
      Introduces scope name (s.declare scope name value mutable).1 s
        (s.declare scope name value mutable).2 := by
  have halters := h.alters_declare hscope hundeclared value mutable
  have hintroduces := halters.introduces h hundeclared (h.sound.node?_new _) rfl hscope
  refine ⟨halters.writes h (h.valueOf?_declare hscope name value mutable)
    (isMutable?_of_node? (node?_declare h.tidy hscope name value mutable).1)
    fun {n} hn name' hother => hintroduces.unseen hn name' ?_, hintroduces⟩
  by_cases hname : name' = name
  · subst hname
    exact Or.inr fun hreaches => hother (hintroduces.seen hn hreaches)
  · exact Or.inl hname

/-! ### Assigning -/

theorem find_eq_ok : s.find n name = .ok x ↔ s.resolve n name = .ok (some x) := by
  rw [find]
  cases s.resolve n name with
  | error e => simp [Bind.bind, Except.bind]
  | ok meant =>
    cases meant <;>
      simp [Bind.bind, Except.bind, pure, Except.pure, throw, throwThe, MonadExceptOf.throw]

/-- What a name means is a variable. -/
theorem Regular.exists_variable_of_resolve (h : Regular none s)
    (hx : s.resolve n name = .ok (some x)) :
    ∃ mutable, s.graph.node? x = some (.variable name mutable) := by
  by_cases hn : s.isScope n = true
  · exact variableName?_iff.1 (h.variableName?_of_resolve hn hx)
  · rw [Scopes.resolve, ensureScope, if_neg hn] at hx
    cases hx

/-- An assignment writes the variable that the name means, if that can be written, and does nothing
otherwise. -/
theorem Regular.assign_cases (h : Regular none s) (n : ScopeId) (name : String) (value : Value) :
    (∃ x, s.assign n name value = (.ok x, (s.rebind x value).2) ∧
        s.resolve n name = .ok (some x) ∧ s.graph.node? x = some (.variable name true)) ∨
      (∃ e, s.assign n name value = (.error e, s)) ∧
        ∀ x, s.resolve n name = .ok (some x) → s.isMutable? x ≠ some true := by
  unfold Scopes.assign
  cases hfind : s.find n name with
  | error e =>
    refine Or.inr ⟨⟨e, rfl⟩, fun x hx => ?_⟩
    rw [find_eq_ok.2 hx] at hfind
    cases hfind
  | ok x =>
    have hx := find_eq_ok.1 hfind
    obtain ⟨mutable, hnode⟩ := h.exists_variable_of_resolve hx
    dsimp only
    rw [isMutable?_of_node? hnode]
    cases mutable with
    | true =>
      refine Or.inl ⟨x, ?_, hx, hnode⟩
      rw [if_neg (by simp), rebind_of_variable (variableName?_iff.2 ⟨true, hnode⟩)]
      rfl
    | false =>
      refine Or.inr ⟨⟨_, if_pos (by simp)⟩, fun y hy => ?_⟩
      rw [hx] at hy
      cases hy
      simp [isMutable?_of_node? hnode]

/-! ### Defining -/

/-- The scope is there and does not declare the name for a variable that cannot be written. -/
def Definable (s : Scopes) (scope : ScopeId) (name : String) : Prop :=
  s.isScope scope = true ∧ ∀ x, s.declared[(scope, name)]? = some x → s.isMutable? x ≠ some false

/-- A definition writes the variable that the scope declares, or declares a new one, and does
nothing where it may not. -/
theorem Regular.define_cases (h : Regular none s) (scope : ScopeId) (name : String)
    (value : Value) (mutable : Bool) :
    s.Definable scope name ∧
        ((s.declared[(scope, name)]? = none ∧
            s.define scope name value mutable = (.ok (s.declare scope name value mutable).1,
              (s.declare scope name value mutable).2)) ∨
          ∃ x mutable', s.declared[(scope, name)]? = some x ∧
            s.graph.node? x = some (.variable name mutable') ∧
            s.define scope name value mutable = (.ok x, (s.redefine x value mutable).2)) ∨
      ¬s.Definable scope name ∧ ∃ e, s.define scope name value mutable = (.error e, s) := by
  unfold Scopes.define
  by_cases hscope : s.isScope scope = true
  · rw [if_neg (by simp [hscope])]
    cases hvar : s.declared[(scope, name)]? with
    | none => exact Or.inl ⟨⟨hscope, by simp [hvar]⟩, Or.inl ⟨rfl, rfl⟩⟩
    | some x =>
      obtain ⟨-, hname⟩ := (h.declared scope name x).1 hvar
      obtain ⟨mutable', hnode⟩ := variableName?_iff.1 hname
      dsimp only
      rw [isMutable?_of_node? hnode]
      cases mutable' with
      | true =>
        obtain ⟨s₂, hredefine, -⟩ := redefine_of_variable h.tidy hnode value mutable
        refine Or.inl ⟨⟨hscope, ?_⟩, Or.inr ⟨x, true, rfl, hnode, ?_⟩⟩
        · simp [hvar, isMutable?_of_node? hnode]
        · rw [if_neg (by simp), hredefine]
      | false =>
        refine Or.inr ⟨fun hdefinable => ?_, _, if_pos (by simp)⟩
        exact hdefinable.2 x hvar (isMutable?_of_node? hnode)
  · exact Or.inr ⟨fun hdefinable => hscope hdefinable.1, _, if_pos (by simp [hscope])⟩

/-! ### Every write -/

/-- An assignment writes the variable that its name means, if that can be written, and a definition
the variable that its scope declares, or else a new one. The value is read where a name means the
variable, and no failure changes anything. -/
theorem writes_seen_where_meant (h : Reached s) (scope : ScopeId) (name : String) (value : Value)
    (mutable : Bool) :
    (∀ x, (s.assign scope name value).1 = .ok x ↔
      s.resolve scope name = .ok (some x) ∧ s.isMutable? x = some true) ∧
    (∀ x, (s.assign scope name value).1 = .ok x →
      Writes x value true s (s.assign scope name value).2 ∧
      ∀ n, s.isScope n = true → ∀ name',
        (s.assign scope name value).2.resolve n name' = s.resolve n name') ∧
    (∀ e, (s.assign scope name value).1 = .error e → (s.assign scope name value).2 = s) ∧
    ((∃ x, (s.define scope name value mutable).1 = .ok x) ↔ s.Definable scope name) ∧
    (∀ x, (s.define scope name value mutable).1 = .ok x →
      Writes x value mutable s (s.define scope name value mutable).2 ∧
      (s.declared[(scope, name)]? = some x ∧
          (∀ n, s.isScope n = true → ∀ name',
            (s.define scope name value mutable).2.resolve n name' = s.resolve n name') ∨
        Introduces scope name x s (s.define scope name value mutable).2)) ∧
    (∀ e, (s.define scope name value mutable).1 = .error e →
      (s.define scope name value mutable).2 = s) := by
  have hs := h.regular
  have hassign := hs.assign_cases scope name value
  have hdefine := hs.define_cases scope name value mutable
  refine ⟨fun x => ?_, fun x hx => ?_, fun e he => ?_, ?_, fun x hx => ?_, fun e he => ?_⟩
  · rcases hassign with ⟨y, heq, hmeant, hnode⟩ | ⟨⟨e, heq⟩, hnone⟩
    · have hmutable := isMutable?_of_node? hnode
      rw [heq, Except.ok.injEq]
      constructor
      · rintro rfl
        exact ⟨hmeant, hmutable⟩
      · rintro ⟨hx, -⟩
        rw [hmeant] at hx
        exact Option.some.inj (Except.ok.inj hx)
    · rw [heq]
      exact iff_of_false nofun fun hx => hnone x hx.1 hx.2
  · rcases hassign with ⟨y, heq, -, hnode⟩ | ⟨⟨e, heq⟩, -⟩ <;> rw [heq] at hx ⊢
    · cases hx
      exact hs.writes_rebind hnode value
    · cases hx
  · rcases hassign with ⟨y, heq, -⟩ | ⟨⟨e', heq⟩, -⟩ <;> rw [heq] at he ⊢
    cases he
  · rcases hdefine with ⟨hdefinable, ⟨-, heq⟩ | ⟨y, -, -, -, heq⟩⟩ | ⟨hnone, e, heq⟩ <;> rw [heq]
    · exact iff_of_true ⟨_, rfl⟩ hdefinable
    · exact iff_of_true ⟨_, rfl⟩ hdefinable
    · exact iff_of_false nofun hnone
  · rcases hdefine with ⟨hdefinable, ⟨hundeclared, heq⟩ | ⟨y, mutable', hvar, hnode, heq⟩⟩ |
      ⟨-, e, heq⟩ <;> rw [heq] at hx ⊢
    · cases hx
      obtain ⟨hwrites, hintroduces⟩ := hs.writes_declare hdefinable.1 hundeclared value mutable
      exact ⟨hwrites, Or.inr hintroduces⟩
    · cases hx
      obtain ⟨hwrites, hresolve⟩ := hs.writes_redefine hnode value mutable
      exact ⟨hwrites, Or.inl ⟨hvar, hresolve⟩⟩
    · cases hx
  · rcases hdefine with ⟨-, ⟨-, heq⟩ | ⟨y, -, -, -, heq⟩⟩ | ⟨-, e', heq⟩ <;> rw [heq] at he ⊢
    · cases he
    · cases he

/-- The inner scope writes a name of the outer one, unless it declares the name itself. -/
theorem writes_capturing :
    (capturing.assign 3 "x" (.bool false)).2.get 0 "x" = .ok (.bool false) ∧
      (capturing.define 3 "x" (.bool false) true).2.get 3 "x" = .ok (.bool false) ∧
      (capturing.define 3 "x" (.bool false) true).2.get 0 "x" = capturing.get 0 "x" := by
  obtain ⟨hassign, hassigned, -, -, hdefined, -⟩ :=
    writes_seen_where_meant reached_capturing 3 "x" (.bool false) true
  have houter : capturing.isScope 0 = true := by cbv
  have hinner : capturing.isScope 3 = true := by cbv
  have hmeant : capturing.resolve 0 "x" = .ok (some 1) := by cbv
  obtain ⟨hwrites, hresolve⟩ := hassigned 1 ((hassign 1).2 ⟨by cbv, by cbv⟩)
  obtain ⟨hwrites', ⟨hdeclared, -⟩ | hintroduces⟩ := hdefined 5 (by cbv)
  · have hundeclared : capturing.declared[((3 : ScopeId), "x")]? = none := by cbv
    rw [hundeclared] at hdeclared
    cases hdeclared
  have hapart : ¬capturing.Reaches 0 3 "x" := by
    rintro ⟨near, far, hancestry, -⟩
    have hroot : capturing.ancestry 0 = [0] := by cbv
    have hmem : 3 ∈ capturing.ancestry 0 :=
      hancestry ▸ List.mem_append_right near List.mem_cons_self
    rw [hroot] at hmem
    simp at hmem
  refine ⟨hwrites.seen houter "x" ((hresolve 0 houter "x").trans hmeant), ?_, ?_⟩
  · exact hwrites'.seen hinner "x"
      (hintroduces.seen hinner ⟨[], [0], by cbv, List.forall_mem_nil _⟩)
  · refine hwrites'.unseen houter "x" ?_
    rw [hintroduces.unseen houter "x" (Or.inr hapart), hmeant]
    simp

end GraphLang.Scopes
