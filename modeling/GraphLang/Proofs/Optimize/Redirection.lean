import GraphLang.Proofs.Optimize.Folding

/-!
# Putting a node in the place of its parent

A branch that is settled before the run goes, and the part that it chooses takes its place: under
the parent of the branch, or as the body of a function. The programs mean the same.
-/

namespace GraphLang

variable {p q s : Program} {n branch : Nat}

/-- The node that takes the place of a node: the first one goes, and the second one takes its
place. -/
def redirect (n branch m : Nat) : Nat := if m = n then branch else m

theorem redirect_self : redirect n branch n = branch := if_pos rfl

theorem redirect_of_ne {m : Nat} (h : m ≠ n) : redirect n branch m = m := if_neg h

/-- The second program is the first one without the node `n`, in whose place there is `branch`. -/
structure Redirected (p s : Program) (n branch : Nat) : Prop where
  sound : s.graph.Sound
  node? : ∀ m, s.node? m = if m = n then none else p.node? m
  ties : ∀ m, m ≠ n →
    (s.graph.ties m).Perm ((p.graph.ties m).map fun t => (t.1, redirect n branch t.2))
  functions : s.functions = p.functions.map fun x =>
    (x.1, { x.2 with body := x.2.body.map (redirect n branch) })

namespace Redirected

theorem op?_of_ne (h : Redirected p s n branch) {m : Nat} (hm : m ≠ n) : s.op? m = p.op? m := by
  rw [Program.op?, h.node?, if_neg hm, Program.op?]

theorem hasNode_iff (h : Redirected p s n branch) {m : Nat} :
    s.graph.hasNode m = true ↔ m ≠ n ∧ p.graph.hasNode m = true := by
  rw [SlotGraph.hasNode_iff, SlotGraph.hasNode_iff]
  have hnode : s.graph.node? m = if m = n then none else p.graph.node? m := h.node? m
  rw [hnode]
  by_cases hm : m = n
  · simp [hm]
  · simp [hm]

/-- Where the edges of the program come from. -/
theorem edge (h : Redirected p s n branch) (hp : p.graph.Sound) {e a b : Nat} {role : Role}
    (hedge : s.graph.edge? e = some ⟨a, b, role⟩) :
    a ≠ n ∧ ∃ e' c, p.graph.edge? e' = some ⟨a, c, role⟩ ∧ redirect n branch c = b := by
  have ha : a ≠ n := (h.hasNode_iff.1 (h.sound.hasNode_source hedge)).1
  have hmem := (h.ties a ha).subset (h.sound.mem_ties.2 ⟨e, hedge⟩)
  obtain ⟨⟨role', c⟩, hc, heq⟩ := List.mem_map.1 hmem
  obtain ⟨rfl, rfl⟩ := Prod.mk.inj heq
  obtain ⟨e', hedge'⟩ := hp.mem_ties.1 hc
  exact ⟨ha, e', c, hedge', rfl⟩

theorem functions_iff (h : Redirected p s n branch) {f : FunctionId} {d : FunctionDef}
    (hd : (f, d) ∈ s.functions) : ∃ d₀, (f, d₀) ∈ p.functions ∧
      d = { d₀ with body := d₀.body.map (redirect n branch) } := by
  rw [h.functions] at hd
  obtain ⟨⟨f', d₀⟩, hd₀, heq⟩ := List.mem_map.1 hd
  obtain ⟨rfl, rfl⟩ := Prod.mk.inj heq
  exact ⟨d₀, hd₀, rfl⟩

theorem function? (h : Redirected p s n branch) (f : FunctionId) :
    s.function? f = (p.function? f).map fun d =>
      { d with body := d.body.map (redirect n branch) } := by
  rw [Program.function?, h.functions, Program.function?]
  generalize p.functions = t
  induction t with
  | nil => rfl
  | cons x t ih =>
    rw [List.map_cons, FunctionTable.get?, FunctionTable.get?]
    split
    · rfl
    · exact ih

theorem isRoot (h : Redirected p s n branch) {m : Nat} (hm : s.IsRoot m) :
    ∃ root, p.IsRoot root ∧ redirect n branch root = m := by
  obtain ⟨f, d, hd, hbody⟩ := hm
  obtain ⟨d₀, hd₀, rfl⟩ := h.functions_iff hd
  obtain ⟨root, hroot, hredirect⟩ := Option.map_eq_some_iff.1 hbody
  exact ⟨root, ⟨f, d₀, hd₀, hroot⟩, hredirect⟩

/-! ### The new program is treelike -/

section

variable (h : Redirected p s n branch) (hp : p.Treelike) {e₀ : Nat} {role₀ : Role}
  (hbranch : p.graph.edge? e₀ = some ⟨n, branch, role₀⟩)

include hp hbranch in
/-- In the new program nothing else leads to what took the place of the node. -/
theorem source_eq {e e' a a' c c' : Nat} {role role' : Role}
    (hedge : p.graph.edge? e = some ⟨a, c, role⟩) (hedge' : p.graph.edge? e' = some ⟨a', c', role'⟩)
    (ha : a ≠ n) (ha' : a' ≠ n) (heq : redirect n branch c = redirect n branch c') :
    a = a' ∧ role = role' := by
  have hsame : c = c' := by
    by_cases hc : c = n <;> by_cases hc' : c' = n
    · rw [hc, hc']
    · rw [hc, redirect_self, redirect_of_ne hc'] at heq
      obtain ⟨-, hback⟩ := hp.single.edge_eq hbranch hedge' heq.symm
      cases hback
      exact absurd rfl ha'
    · rw [hc', redirect_self, redirect_of_ne hc] at heq
      obtain ⟨-, hback⟩ := hp.single.edge_eq hbranch hedge heq
      cases hback
      exact absurd rfl ha
    · rwa [redirect_of_ne hc, redirect_of_ne hc'] at heq
  obtain ⟨-, hback⟩ := hp.single.edge_eq hedge hedge' hsame.symm
  cases hback
  exact ⟨rfl, rfl⟩

include h hp in
theorem rolesDiffer (m : Nat) : s.RolesDiffer m := by
  by_cases hm : m = n
  · have hvacant : s.graph.node? m = none := (h.node? m).trans (if_pos hm)
    rw [Program.RolesDiffer, SlotGraph.ties_of_vacant hvacant]
    exact List.nodup_nil
  · have hdiffer := hp.differ m
    rw [Program.RolesDiffer] at hdiffer ⊢
    rw [((h.ties m hm).map (·.1)).nodup_iff, List.map_map]
    exact hdiffer

include h hp hbranch in
theorem treelike : s.Treelike := by
  have hne : branch ≠ n := by
    rintro rfl
    obtain ⟨rank, hrank⟩ := hp.ranked
    exact absurd (hrank _ _ hbranch) (Nat.lt_irrefl _)
  have hroles := Program.rolesOnce_of_differ h.sound (h.rolesDiffer hp)
  have hnode : ∀ {m a}, s.node? m = some a → m ≠ n ∧ p.node? m = some a := by
    intro m a ha
    rw [h.node?] at ha
    split at ha
    · cases ha
    · next hm => exact ⟨hm, ha⟩
  have hown : ∀ {m a}, p.node? m = some a → ∀ {b}, s.node? (redirect n branch m) = some b →
      b.owner = a.owner := by
    intro m a ha b hb
    obtain ⟨-, hb⟩ := hnode hb
    by_cases hm : m = n
    · rw [hm, redirect_self] at hb
      rw [hm] at ha
      exact hp.owner hbranch ha hb
    · rw [redirect_of_ne hm, ha] at hb
      cases hb
      rfl
  refine ⟨h.sound, ?_, ?_, hroles, ?_, ?_, ?_, ?_, ?_, ?_, ?_, ?_⟩
  · rintro e e' ⟨a, b, role⟩ ⟨a', b', role'⟩ hedge hedge' htarget
    obtain ⟨ha, e₁, c, hedge₁, hc⟩ := h.edge hp.sound hedge
    obtain ⟨ha', e₂, c', hedge₂, hc'⟩ := h.edge hp.sound hedge'
    have heq : redirect n branch c = redirect n branch c' := hc.trans (htarget.symm.trans hc'.symm)
    obtain ⟨rfl, rfl⟩ := source_eq hp hbranch hedge₁ hedge₂ ha ha' heq
    exact hroles _ _ _ _ hedge hedge' rfl rfl
  · obtain ⟨rank, hrank⟩ := hp.ranked
    refine ⟨rank, ?_⟩
    rintro e ⟨a, b, role⟩ hedge
    obtain ⟨-, e', c, hedge', hc⟩ := h.edge hp.sound hedge
    have hlt := hrank _ _ hedge'
    subst hc
    by_cases hn : c = n
    · rw [hn, redirect_self]
      have hlt' := hrank _ _ hbranch
      rw [hn] at hlt
      exact hlt.trans hlt'
    · rwa [redirect_of_ne hn]
  · rintro e ⟨a, b, role⟩ x y hedge hx hy
    obtain ⟨-, e', c, hedge', rfl⟩ := h.edge hp.sound hedge
    obtain ⟨z, hz⟩ := SlotGraph.hasNode_iff.1 (hp.sound.hasNode_target hedge')
    obtain ⟨-, hx⟩ := hnode hx
    exact (hown hz hy).trans (hp.owner hedge' hx hz)
  · intro f d hd
    obtain ⟨d₀, hd₀, rfl⟩ := h.functions_iff hd
    have hkey := hp.keys hd₀
    exact hkey
  · have hkeys : s.functions.map (·.1) = p.functions.map (·.1) := by
      rw [h.functions, List.map_map]
      rfl
    rw [hkeys]
    exact hp.distinct
  · intro f d hd
    obtain ⟨d₀, hd₀, rfl⟩ := h.functions_iff hd
    obtain ⟨root, a, hroot, ha, howner⟩ := hp.rooted hd₀
    have halive : s.graph.hasNode (redirect n branch root) = true := by
      rw [h.hasNode_iff]
      by_cases hn : root = n
      · rw [hn, redirect_self]
        exact ⟨hne, hp.sound.hasNode_target hbranch⟩
      · rw [redirect_of_ne hn]
        exact ⟨hn, SlotGraph.hasNode_iff.2 ⟨a, ha⟩⟩
    obtain ⟨b, hb⟩ := SlotGraph.hasNode_iff.1 halive
    exact ⟨redirect n branch root, b, by rw [hroot]; rfl, hb, (hown ha hb).trans howner⟩
  · rintro m e ⟨a, b, role⟩ hroot hedge rfl
    obtain ⟨root, hroot, hredirect⟩ := h.isRoot hroot
    obtain ⟨ha, e', c, hedge', hc⟩ := h.edge hp.sound hedge
    dsimp only at hc hredirect
    by_cases hn : root = n
    · -- The node was a root, so nothing led to it, and only the node led to what took its place.
      by_cases hcn : c = n
      · subst hcn
        exact hp.loose hroot hedge' hn.symm
      · rw [redirect_of_ne hcn, ← hredirect, hn, redirect_self] at hc
        obtain ⟨-, hback⟩ := hp.single.edge_eq hbranch hedge' hc
        cases hback
        exact ha rfl
    · rw [redirect_of_ne hn] at hredirect
      by_cases hcn : c = n
      · rw [hcn, redirect_self, ← hredirect] at hc
        exact hp.loose hroot hbranch hc
      · rw [redirect_of_ne hcn, ← hredirect] at hc
        exact hp.loose hroot hedge' hc
  · intro m f ho
    have hm := (h.hasNode_iff.1 (Program.hasNode_of_op? ho)).1
    rw [h.op?_of_ne hm] at ho
    obtain ⟨d, hd⟩ := hp.registered ho
    rw [h.function?, hd]
    exact ⟨_, rfl⟩
  · intro m ho
    have hm := (h.hasNode_iff.1 (Program.hasNode_of_op? ho)).1
    rw [h.op?_of_ne hm] at ho
    obtain ⟨c, hc⟩ := hp.branch ho
    exact ⟨redirect n branch c, (h.ties m hm).symm.subset (List.mem_map.2 ⟨_, hc, rfl⟩)⟩
  · obtain ⟨d, hd⟩ := hp.main
    rw [h.function?, hd]
    exact ⟨_, rfl⟩

/-! ### The programs correspond -/

include h hp in
theorem children_eq {m : Nat} (hm : m ≠ n) :
    s.children m = (p.children m).map fun t => (t.1, redirect n branch t.2) := by
  refine (h.rolesDiffer hp m).children_eq ?_ ?_
  · rw [List.pairwise_map]
    exact p.pairwise_children m
  · exact ((List.mergeSort_perm _ _).map _).trans (h.ties m hm).symm

include h hp in
theorem child?_eq {m : Nat} (hm : m ≠ n) (role : Role) :
    s.child? m role = (p.child? m role).map (redirect n branch) := by
  ext c
  rw [(h.rolesDiffer hp m).child?_iff, (h.ties m hm).mem_iff, List.mem_map, Option.map_eq_some_iff]
  constructor
  · rintro ⟨⟨role', c'⟩, hc', heq⟩
    obtain ⟨rfl, rfl⟩ := Prod.mk.inj heq
    exact ⟨c', (hp.differ m).child?_iff.2 hc', rfl⟩
  · rintro ⟨c', hc', rfl⟩
    exact ⟨(role, c'), (hp.differ m).child?_iff.1 hc', rfl⟩

/-- A node corresponds to itself, and the node that goes to the one that takes its place. -/
def Pairs (s : Program) (n branch m m' : Nat) : Prop := Kept s m m' ∨ m = n ∧ m' = branch

include h hp in
theorem pairs_redirect {m c : Nat} {role : Role} (hc : (role, c) ∈ p.graph.ties m) :
    Pairs s n branch c (redirect n branch c) := by
  by_cases hn : c = n
  · subst hn
    exact Or.inr ⟨rfl, redirect_self⟩
  · rw [redirect_of_ne hn]
    exact Or.inl ⟨rfl, h.hasNode_iff.2 ⟨hn, (hp.sound.hasNode_of_mem_ties hc).2⟩⟩

include h hp in
theorem mates {m : Nat} (hm : s.graph.hasNode m = true) :
    Mates p s (Pairs s n branch) (fun f => ∃ d, p.function? f = some d) m := by
  have hne := (h.hasNode_iff.1 hm).1
  obtain ⟨o, ho⟩ := Program.exists_op? hm
  have ho' : p.op? m = some o := by rwa [← h.op?_of_ne hne]
  refine .same ho' ho (fun role => ?_) ?_ ?_
  · rw [h.child?_eq hp hne]
    cases hc : p.child? m role with
    | none => exact .none
    | some c => exact .some (h.pairs_redirect hp (Program.mem_ties_of_child? hc))
  · rw [h.children_eq hp hne, List.forall₂_map_right_iff]
    refine List.forall₂_same.2 fun t ht => ⟨rfl, ?_⟩
    exact h.pairs_redirect hp (Program.mem_children.1 ht)
  · rintro f rfl
    exact hp.registered ho'

include h hp hbranch in
/-- A branch that is settled may go, unless a block would become the body of a function. -/
theorem faithful (hskips : p.Skips n branch)
    (hblock : p.IsRoot n → p.op? branch ≠ some .block) : s.Treelike ∧ Equivalent p s := by
  have htree := h.treelike hp hbranch
  have hne : branch ≠ n := by
    rintro rfl
    obtain ⟨rank, hrank⟩ := hp.ranked
    exact absurd (hrank _ _ hbranch) (Nat.lt_irrefl _)
  have hlive : s.graph.hasNode branch = true :=
    h.hasNode_iff.2 ⟨hne, hp.sound.hasNode_target hbranch⟩
  refine ⟨htree, Corresponds.equivalent (R := Pairs s n branch)
    (F := fun f => ∃ d, p.function? f = some d) ⟨hp.main, ?_, ?_⟩⟩
  · rintro f ⟨d, hd⟩
    have hmem := FunctionTable.mem_of_get? hd
    obtain ⟨root, a, hbody, ha, -⟩ := hp.rooted hmem
    have hd' : s.function? f = some { d with body := d.body.map (redirect n branch) } := by
      rw [h.function?, hd]
      rfl
    have hbody' : d.body.map (redirect n branch) = some (redirect n branch root) := by
      rw [hbody]
      rfl
    refine ⟨d, _, root, redirect n branch root, hd, hd', rfl, rfl, hbody, hbody', ?_, ?_⟩
    · by_cases hn : root = n
      · exact Or.inr ⟨hn, by rw [hn, redirect_self]⟩
      · rw [redirect_of_ne hn]
        exact Or.inl ⟨rfl, h.hasNode_iff.2 ⟨hn, SlotGraph.hasNode_iff.2 ⟨a, ha⟩⟩⟩
    · by_cases hn : root = n
      · subst hn
        obtain ⟨l, ho, -⟩ := hskips
        rw [redirect_self, h.op?_of_ne hne, ho]
        refine ⟨fun hb => absurd hb (hblock ⟨f, d, hmem, hbody⟩), fun hb => ?_⟩
        cases hb
      · rw [redirect_of_ne hn, h.op?_of_ne hn]
  · rintro m m' (⟨rfl, hm⟩ | ⟨rfl, rfl⟩)
    · exact Or.inl ⟨rfl, h.mates hp hm⟩
    · exact Or.inr (Or.inl ⟨hskips, Or.inl ⟨rfl, hlive⟩, h.mates hp hlive⟩)

include h hp hbranch in
/-- Nobody looks at the other children of the node any more. -/
theorem idle {e c : Nat} {role : Role} (hedge : p.graph.edge? e = some ⟨n, c, role⟩)
    (hc : c ≠ branch) : s.Idle [] c := by
  have hcn : c ≠ n := by
    rintro rfl
    obtain ⟨rank, hrank⟩ := hp.ranked
    exact absurd (hrank _ _ hedge) (Nat.lt_irrefl _)
  constructor
  · intro hroot
    obtain ⟨root, hroot, hredirect⟩ := h.isRoot hroot
    by_cases hn : root = n
    · rw [hn, redirect_self] at hredirect
      exact hc hredirect.symm
    · rw [redirect_of_ne hn] at hredirect
      exact hp.loose hroot hedge hredirect.symm
  · rintro e' ⟨a, b, role'⟩ hedge' rfl
    obtain ⟨ha, e₁, c', hedge₁, hc'⟩ := h.edge hp.sound hedge'
    exfalso
    by_cases hn : c' = n
    · rw [hn, redirect_self] at hc'
      exact hc hc'.symm
    · rw [redirect_of_ne hn] at hc'
      subst hc'
      obtain ⟨-, hback⟩ := hp.single.edge_eq hedge hedge₁ rfl
      cases hback
      exact ha rfl

end

end Redirected

end GraphLang
