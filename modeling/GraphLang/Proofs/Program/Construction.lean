import GraphLang.Proofs.Optimize.Elimination
import GraphLang.Proofs.Program.Encoding
import GraphLang.Proofs.SlotGraph.Clean
import Mathlib.Logic.Relation

/-!
# Programs that are built call by call

Programs start without nodes, and grow and shrink by calls that each change one thing. Whatever the
calls, the graph stays sound and without loose ends, the functions stay in the order of their
numbers, and all numbers fit into their words.
-/

namespace GraphLang

/-! ### Changes to tables of functions -/

namespace FunctionTable

variable {t : FunctionTable} {f g : FunctionId} {d : FunctionDef} {x : FunctionId × FunctionDef}

theorem mem_insert (h : x ∈ t.insert f d) : x = (f, d) ∨ x ∈ t := by
  induction t with
  | nil => exact Or.inl (List.mem_singleton.1 h)
  | cons y t ih =>
    rw [insert] at h
    split at h
    · exact List.mem_cons.1 h
    · split at h
      · exact (List.mem_cons.1 h).imp_right (List.mem_cons_of_mem y)
      · rcases List.mem_cons.1 h with rfl | h
        · exact Or.inr List.mem_cons_self
        · exact (ih h).imp_right (List.mem_cons_of_mem y)

theorem get?_insert (t : FunctionTable) (f : FunctionId) (d : FunctionDef) (g : FunctionId) :
    (t.insert f d).get? g = if f == g then some d else t.get? g := by
  induction t with
  | nil => rfl
  | cons y t ih =>
    rw [insert]
    split
    · rw [get?]
    · split
      · rename_i heq
        rw [beq_iff_eq] at heq
        rw [get?, get?, heq]
        split <;> rfl
      · rename_i hne
        rw [get?, get?, ih]
        by_cases hy : (y.1 == g) = true
        · rw [beq_iff_eq] at hy hne
          subst hy
          simp [hne]
        · simp only [hy]
          rfl

theorem Ascending.insert (h : t.Ascending) (f : FunctionId) (d : FunctionDef) :
    (t.insert f d).Ascending := by
  induction t with
  | nil => exact List.pairwise_singleton _ _
  | cons y t ih =>
    obtain ⟨hfirst, hrest⟩ := List.pairwise_cons.1 h
    rw [FunctionTable.insert]
    split
    · rename_i hlt
      refine List.pairwise_cons.2 ⟨fun x hx => ?_, h⟩
      rcases List.mem_cons.1 hx with rfl | hx
      · exact hlt
      · exact Nat.lt_trans hlt (hfirst x hx)
    · rename_i hle
      split
      · rename_i heq
        rw [beq_iff_eq] at heq
        exact List.pairwise_cons.2 ⟨heq ▸ hfirst, hrest⟩
      · rename_i hne
        rw [beq_iff_eq] at hne
        refine List.pairwise_cons.2 ⟨fun x hx => ?_, ih hrest⟩
        rcases mem_insert hx with rfl | hx
        · exact Nat.lt_of_le_of_ne (Nat.le_of_not_lt hle) (Ne.symm hne)
        · exact hfirst x hx

theorem mem_modify {change : FunctionDef → FunctionDef} (h : x ∈ t.modify f change) :
    ∃ d, (x.1, d) ∈ t ∧ (x.2 = d ∨ x.2 = change d) := by
  obtain ⟨y, hy, rfl⟩ := List.mem_map.1 h
  dsimp only
  split
  · exact ⟨y.2, hy, Or.inr rfl⟩
  · exact ⟨y.2, hy, Or.inl rfl⟩

theorem map_fst_modify (t : FunctionTable) (f : FunctionId) (change : FunctionDef → FunctionDef) :
    (t.modify f change).map (·.1) = t.map (·.1) := by
  rw [modify, List.map_map]
  refine List.map_congr_left fun y _ => ?_
  dsimp only [Function.comp]
  split <;> rfl

theorem get?_modify (t : FunctionTable) (f : FunctionId) (change : FunctionDef → FunctionDef)
    (g : FunctionId) :
    (t.modify f change).get? g = (t.get? g).map fun d => if g == f then change d else d := by
  induction t with
  | nil => rfl
  | cons y t ih =>
    obtain ⟨id, d⟩ := y
    have hcons : FunctionTable.modify ((id, d) :: t) f change =
        (id, if id == f then change d else d) :: FunctionTable.modify t f change := by
      rw [modify, List.map_cons]
      dsimp only
      split <;> rfl
    rw [hcons, get?, get?, ih]
    by_cases hid : (id == g) = true
    · rw [if_pos hid, if_pos hid, Option.map_some, beq_iff_eq.1 hid]
    · rw [if_neg hid, if_neg hid]

theorem Ascending.modify (h : t.Ascending) (f : FunctionId) (change : FunctionDef → FunctionDef) :
    (t.modify f change).Ascending := by
  have hkeys : (t.map (·.1)).Pairwise (· < ·) := List.pairwise_map.2 h
  rw [← map_fst_modify t f change] at hkeys
  exact List.pairwise_map.1 hkeys

end FunctionTable

/-! ### Calls -/

namespace Program

variable {p q : Program}

/-- One call leads from the first program to the second one. Its numbers fit into their words. -/
inductive Builds : Program → Program → Prop
  | addFunction {p q name params parent f} : p.addFunction name params parent = .ok (f, q) →
    Builds p q
  | addNode {p q o owner location n} : p.addNode o owner location = .ok (n, q) → o.Fits →
    (∀ l, location = some l → l.Fits) → n < UInt32.size → Builds p q
  | connect {p q parent child role} : p.connect parent child role = .ok q → role.Fits → Builds p q
  | disconnect (p parent role) : Builds p (p.disconnect parent role).2
  | removeNode (p n) : Builds p (p.removeNode n).2
  | replaceOp {p q n o old} : p.replaceOp n o = .ok (old, q) → o.Fits → Builds p q
  | setBody {p q f root} : p.setBody f root = .ok q → Builds p q
  | removeFunction (p f) : Builds p (p.removeFunction f).2

/-- The program comes about by calls. -/
def Constructed (p : Program) : Prop := ∃ name, Relation.ReflTransGen Builds (new name) p

end Program

/-! ### Graphs of such programs -/

/-- The graph is in order, and the numbers in it fit into their words. -/
structure SlotGraph.Neat (g : SlotGraph Node Role) : Prop where
  /-- The edge lists of nodes agree with the edges. -/
  sound : g.Sound
  /-- Vacant slots keep no edge numbers. -/
  clean : g.Clean
  /-- The numbers of nodes fit. -/
  size : g.slots.size ≤ UInt32.size
  /-- The numbers in nodes fit. -/
  nodes : ∀ n a, g.node? n = some a → a.Fits
  /-- The positions that roles name fit. -/
  roles : ∀ e edge, g.edge? e = some edge → edge.weight.Fits

namespace SlotGraph.Neat

variable {g : SlotGraph Node Role}

theorem addNode (h : g.Neat) {a : Node} (ha : a.Fits) (hn : (g.addNode a).1 < UInt32.size) :
    (g.addNode a).2.Neat where
  sound := h.sound.addNode a
  clean := h.clean.addNode h.sound a
  size := by
    rw [h.sound.size_addNode]
    exact Nat.max_le.2 ⟨h.size, hn⟩
  nodes := by
    intro n b hb
    rw [h.sound.node?_addNode] at hb
    split at hb
    · cases hb
      exact ha
    · exact h.nodes n b hb
  roles := by
    intro e edge hedge
    rw [edge?_addNode] at hedge
    exact h.roles e edge hedge

theorem addEdge (h : g.Neat) {s t : Nat} (hs : g.hasNode s = true) (ht : g.hasNode t = true)
    {role : Role} (hrole : role.Fits) : (g.addEdge s t role).2.Neat where
  sound := h.sound.addEdge hs ht role
  clean := h.clean.addEdge hs ht role
  size := by
    rw [size_addEdge]
    exact h.size
  nodes := by
    intro n a ha
    rw [node?_addEdge] at ha
    exact h.nodes n a ha
  roles := by
    intro e edge hedge
    rw [h.sound.edge?_addEdge] at hedge
    split at hedge
    · cases hedge
      exact hrole
    · exact h.roles e edge hedge

theorem removeEdge (h : g.Neat) (e : Nat) : (g.removeEdge e).Neat where
  sound := h.sound.removeEdge e
  clean := h.clean.removeEdge e
  size := by
    rw [(removeEdge_frame e).1]
    exact h.size
  nodes := by
    intro n a ha
    rw [node?_removeEdge] at ha
    exact h.nodes n a ha
  roles e' edge hedge := h.roles e' edge (of_edge?_removeEdge hedge).2

theorem removeNode (h : g.Neat) (n : Nat) : (g.removeNode n).Neat where
  sound := h.sound.removeNode n
  clean := h.clean.removeNode n
  size := by
    rw [size_removeNode]
    exact h.size
  nodes := by
    intro m a ha
    rw [node?_removeNode] at ha
    split at ha
    · cases ha
    · exact h.nodes m a ha
  roles := by
    intro e edge hedge
    rw [h.sound.edge?_removeNode] at hedge
    exact h.roles e edge (Option.eq_some_of_filter_eq_some hedge)

theorem removeNodes (h : g.Neat) (ns : List Nat) : (ns.foldl SlotGraph.removeNode g).Neat := by
  induction ns generalizing g with
  | nil => exact h
  | cons n ns ih => exact ih (h.removeNode n)

theorem modifyNode (h : g.Neat) (n : Nat) {f : Node → Node} (hf : ∀ a, a.Fits → (f a).Fits) :
    (g.modifyNode n f).Neat where
  sound := h.sound.modifyNode n f
  clean := h.clean.modifyNode n f
  size := by
    rw [size_modifyNode]
    exact h.size
  nodes := by
    intro m b hb
    rw [node?_modifyNode] at hb
    split at hb
    · obtain ⟨a, ha, rfl⟩ := Option.map_eq_some_iff.1 hb
      exact hf a (h.nodes m a ha)
    · exact h.nodes m b hb
  roles := by
    intro e edge hedge
    rw [edge?_modifyNode] at hedge
    exact h.roles e edge hedge

theorem lt_of_hasNode (h : g.Neat) {n : Nat} (hn : g.hasNode n = true) : n < UInt32.size := by
  obtain ⟨a, ha⟩ := hasNode_iff.1 hn
  exact Nat.lt_of_lt_of_le (node?_lt ha) h.size

end SlotGraph.Neat

/-! ### What every call keeps -/

namespace Program

variable {p q : Program}

/-- The graph and the functions are in order, the main function is there, and all numbers fit into
their words. -/
structure Orderly (p : Program) : Prop where
  /-- The graph is in order. -/
  graph : p.graph.Neat
  /-- The functions stand in the order of their numbers. -/
  ascending : p.functions.Ascending
  /-- Every function stands under its number. -/
  keys : ∀ x ∈ p.functions, x.2.id = x.1
  /-- The numbers in functions fit. -/
  functions : ∀ x ∈ p.functions, x.2.Fits
  /-- The number of the next function fits. -/
  next : p.nextFunction < UInt32.size
  /-- There is a main function. -/
  main : (p.function? mainId).isSome = true

namespace Orderly

theorem new (name : String) : (new name).Orderly where
  graph := by
    refine ⟨SlotGraph.sound_empty, SlotGraph.clean_empty, Nat.zero_le _, fun n a ha => ?_,
      fun e edge hedge => ?_⟩
    · simp [Program.new, SlotGraph.empty, SlotGraph.node?_eq] at ha
    · simp [Program.new, SlotGraph.empty, SlotGraph.edge?_eq] at hedge
  ascending := List.pairwise_singleton _ _
  keys := by simp [Program.new]
  functions := by
    intro x hx
    rw [List.mem_singleton.1 hx]
    exact ⟨by decide, by simp, by simp⟩
  next := show 1 < UInt32.size by decide
  main := rfl

theorem withGraph (h : p.Orderly) {g : SlotGraph Node Role} (hg : g.Neat) :
    Orderly { p with graph := g } :=
  ⟨hg, h.ascending, h.keys, h.functions, h.next, h.main⟩

theorem fits_of_function? (h : p.Orderly) {f : FunctionId} {d : FunctionDef}
    (hd : p.function? f = some d) : f < UInt32.size := by
  have hmem := FunctionTable.mem_of_get? hd
  have hkey := h.keys _ hmem
  have hfits := (h.functions _ hmem).id
  rwa [hkey] at hfits

theorem addFunction (h : p.Orderly) {name : String} {params : List String} {parent f : FunctionId}
    (hadd : p.addFunction name params parent = .ok (f, q)) : q.Orderly := by
  unfold Program.addFunction at hadd
  split at hadd
  · cases hadd
  · rename_i d hd
    cases hadd
    refine ⟨h.graph, h.ascending.insert _ _, fun x hx => ?_, fun x hx => ?_,
      Nat.mod_lt _ (by decide), ?_⟩
    · rcases FunctionTable.mem_insert hx with rfl | hx
      · rfl
      · exact h.keys x hx
    · rcases FunctionTable.mem_insert hx with rfl | hx
      · refine ⟨h.next, nofun, ?_⟩
        rintro _ ⟨⟩
        exact h.fits_of_function? hd
      · exact h.functions x hx
    · have hmain := h.main
      unfold function? at hmain ⊢
      dsimp only [pushFunction]
      rw [FunctionTable.get?_insert]
      split
      · rfl
      · exact hmain

theorem addNode (h : p.Orderly) {o : Op} {owner : FunctionId} {location : Option Location} {n : Nat}
    (hadd : p.addNode o owner location = .ok (n, q)) (ho : o.Fits)
    (hlocation : ∀ l, location = some l → l.Fits) (hn : n < UInt32.size) : q.Orderly := by
  unfold Program.addNode at hadd
  split at hadd
  · cases hadd
  · rename_i d hd
    rw [h.graph.clean.occupy h.graph.sound] at hadd
    cases hadd
    exact h.withGraph (h.graph.addNode ⟨ho, h.fits_of_function? hd, hlocation⟩ hn)

theorem connect (h : p.Orderly) {parent child : Nat} {role : Role}
    (hconnect : p.connect parent child role = .ok q) (hrole : role.Fits) : q.Orderly := by
  unfold Program.connect at hconnect
  split at hconnect
  · cases hconnect
  · rename_i hparent
    split at hconnect
    · cases hconnect
    · rename_i hchild
      cases hconnect
      exact h.withGraph (h.graph.addEdge (by simpa using hparent) (by simpa using hchild) hrole)

theorem disconnect (h : p.Orderly) (parent : Nat) (role : Role) :
    (p.disconnect parent role).2.Orderly := by
  unfold Program.disconnect
  split
  · exact h
  · exact h.withGraph (h.graph.removeEdge _)

theorem replaceOp (h : p.Orderly) {n : Nat} {o old : Op} (hreplace : p.replaceOp n o = .ok (old, q))
    (ho : o.Fits) : q.Orderly := by
  unfold Program.replaceOp at hreplace
  split at hreplace
  · cases hreplace
  · cases hreplace
    exact h.withGraph (h.graph.modifyNode n fun a ha => ⟨ho, ha.owner, ha.location⟩)

theorem setBody (h : p.Orderly) {f : FunctionId} {root : Nat} (hset : p.setBody f root = .ok q) :
    q.Orderly := by
  unfold Program.setBody at hset
  split at hset
  · cases hset
  · rename_i hroot
    split at hset
    · cases hset
    · cases hset
      have hcases {x : FunctionId × FunctionDef}
          (hx : x ∈ p.functions.modify f fun d => { d with body := some root }) :=
        FunctionTable.mem_modify hx
      refine ⟨h.graph, h.ascending.modify f fun d => { d with body := some root }, fun x hx => ?_,
        fun x hx => ?_, h.next, ?_⟩
      · obtain ⟨d, hd, heq | heq⟩ := hcases hx <;> rw [heq] <;> exact h.keys _ hd
      · obtain ⟨d, hd, heq | heq⟩ := hcases hx <;> rw [heq]
        · exact h.functions _ hd
        · obtain ⟨hid, -, hparent⟩ := h.functions _ hd
          refine ⟨hid, ?_, hparent⟩
          rintro _ ⟨⟩
          exact h.graph.lt_of_hasNode (by simpa using hroot)
      · have hmain := h.main
        unfold function? at hmain ⊢
        rw [FunctionTable.get?_modify, Option.isSome_map, hmain]

theorem removeFunction (h : p.Orderly) (f : FunctionId) : (p.removeFunction f).2.Orderly := by
  unfold Program.removeFunction
  split
  · exact h
  · rename_i hf
    have hkept : (mainId != f) = true := by
      rw [bne_iff_ne]
      rintro rfl
      exact hf (beq_self_eq_true _)
    refine ⟨h.graph.removeNodes _, h.ascending.filter _,
      fun x hx => h.keys x (List.mem_of_mem_filter hx),
      fun x hx => h.functions x (List.mem_of_mem_filter hx), h.next, ?_⟩
    have hmain := h.main
    unfold function? at hmain ⊢
    have hfound := @FunctionTable.get?_filter p.functions (· != f) mainId hkept
    rwa [← hfound] at hmain

theorem step (h : p.Orderly) (hstep : Builds p q) : q.Orderly := by
  cases hstep with
  | addFunction hadd => exact h.addFunction hadd
  | addNode hadd ho hlocation hn => exact h.addNode hadd ho hlocation hn
  | connect hconnect hrole => exact h.connect hconnect hrole
  | disconnect parent role => exact h.disconnect parent role
  | removeNode n => exact h.withGraph (h.graph.removeNode n)
  | replaceOp hreplace ho => exact h.replaceOp hreplace ho
  | setBody hset => exact h.setBody hset
  | removeFunction f => exact h.removeFunction f

end Orderly

theorem Constructed.orderly (h : p.Constructed) : p.Orderly := by
  obtain ⟨name, hbuilds⟩ := h
  induction hbuilds with
  | refl => exact .new name
  | tail _ hstep ih => exact ih.step hstep

end Program

end GraphLang
