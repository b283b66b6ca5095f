import GraphLang.Proofs.Container.LinkPaths
import GraphLang.Proofs.Rule.Operations
import Mathlib.Order.WellFoundedSet

/-!
# Rooted graphs

A user graph that is kept acyclic and with at most one root is a rooted graph: it has exactly one
member that no link leads to, and links lead from that one to all other members. Each of the two
rules is kept by itself; that there is a root at all comes from their working together, as going
back along links must come to an end.
-/

namespace GraphLang

open Container (Link Held Applied)
open Relation (ReflTransGen TransGen)

variable {σ ε : Type}

/-! ### Paths -/

section Paths

variable {R : Nat → Nat → Prop} {a b : Nat}

/-- A path along one more step uses that step or does not. -/
theorem transGen_insert {n m : Nat} (h : TransGen (fun x y => R x y ∨ x = a ∧ y = b) n m) :
    TransGen R n m ∨ ReflTransGen R n a ∧ ReflTransGen R b m := by
  induction h with
  | single hstep =>
    obtain hstep | ⟨rfl, rfl⟩ := hstep
    · exact Or.inl (.single hstep)
    · exact Or.inr ⟨.refl, .refl⟩
  | tail _ hstep ih =>
    obtain hstep | ⟨rfl, rfl⟩ := hstep
    · exact ih.imp (·.tail hstep) fun h => ⟨h.1, h.2.tail hstep⟩
    · exact Or.inr ⟨ih.elim (·.to_reflTransGen) (·.1), .refl⟩

/-- A step that no path leads back from closes no cycle. -/
theorem acyclic_insert (hR : ∀ n, ¬TransGen R n n) (hback : ¬ReflTransGen R b a) (n : Nat) :
    ¬TransGen (fun x y => R x y ∨ x = a ∧ y = b) n n := by
  intro hcycle
  obtain hcycle | ⟨hto, hfrom⟩ := transGen_insert hcycle
  · exact hR n hcycle
  · exact hback (hfrom.trans hto)

end Paths

namespace Container

variable {c c' : Container} {name : String} {s : Store} {m : Mutation} {a : Applied}

theorem Formed.links_mem (h : c.Formed) {n m : Nat} (hlinks : c.Links n m) :
    n ∈ c.members ∧ m ∈ c.members := by
  obtain ⟨l, hl, rfl, rfl⟩ := links_iff.1 hlinks
  rw [h.members_eq]
  exact h.ends_of_mem_linkage hl

/-- Without cycles, links lead to every member from one that no link leads to. -/
theorem Formed.exists_root (h : c.Formed) (hacyclic : ∀ n, ¬TransGen c.Links n n) {n : Nat}
    (hn : n ∈ c.members) : ∃ r ∈ c.linkRoots, ReflTransGen c.Links r n := by
  have horder : IsStrictOrder Nat (TransGen c.Links) :=
    { irrefl := hacyclic, trans := fun _ _ _ => TransGen.trans }
  have hwf : {n | n ∈ c.members}.WellFoundedOn (TransGen c.Links) :=
    (List.finite_toSet c.members).wellFoundedOn
  refine hwf.induction (P := fun n => ∃ r ∈ c.linkRoots, ReflTransGen c.Links r n) hn
    fun n hn ih => ?_
  by_cases hroot : ∃ m, c.Links m n
  · obtain ⟨m, hlinks⟩ := hroot
    obtain ⟨r, hr, hpath⟩ := ih m (h.links_mem hlinks).1 (.single hlinks)
    exact ⟨r, hr, hpath.tail hlinks⟩
  · exact ⟨n, (mem_linkRoots h.timed.sound).2 ⟨hn, not_exists.1 hroot⟩, .refl⟩

/-! ### Changes -/

/-- What the model of a user graph says about the container. -/
theorem Formed.of_model_user (h : c.Formed) {members : List (Nat × Value)} {links : List Link}
    (hmodel : c.model = .user name members links) :
    c.roster.map (·.node) = members.map (·.1) ∧ c.linkage = links := by
  have hkind := c.kind_model
  rw [hmodel] at hkind
  rw [h.model_user hkind.symm, Model.user.injEq] at hmodel
  obtain ⟨-, rfl, rfl⟩ := hmodel
  exact ⟨(Formed.map_handles _).symm, rfl⟩

/-- A change of a user graph that the rule against cycles lets pass closes no cycle. -/
theorem Formed.acyclic_step (h : c.Formed) (h' : c'.Formed) (hkind : c.kind = .user name)
    (hstep : c.model.Step m a c'.model) (hcheck : Validation.acyclic.check s c m = .ok ())
    (hacyclic : ∀ n, ¬TransGen c.Links n n) : ∀ n, ¬TransGen c'.Links n n := by
  -- a container with fewer links has no more cycles
  have hfewer (hsub : c'.linkage ⊆ c.linkage) : ∀ n, ¬TransGen c'.Links n n := by
    refine fun n hcycle => hacyclic n (TransGen.mono (fun x y hlinks => ?_) n n hcycle)
    obtain ⟨l, hl, hends⟩ := links_iff.1 hlinks
    exact links_iff.2 ⟨l, hsub hl, hends⟩
  have hlonger {l : Link} (hmore : c'.linkage = c.linkage ++ [l])
      (hback : ¬ReflTransGen c.Links l.target l.source) : ∀ n, ¬TransGen c'.Links n n := by
    refine fun n hcycle =>
      acyclic_insert hacyclic hback n (TransGen.mono (fun x y hlinks => ?_) n n hcycle)
    obtain ⟨l', hl', hsource, htarget⟩ := links_iff.1 hlinks
    rw [hmore, List.mem_append, List.mem_singleton] at hl'
    obtain hl' | rfl := hl'
    · exact Or.inl (links_iff.2 ⟨l', hl', hsource, htarget⟩)
    · exact Or.inr ⟨hsource.symm, htarget.symm⟩
  generalize hmodel : c.model = model at hstep
  generalize hmodel' : c'.model = model' at hstep
  cases hstep with
  | addMember name members links value handle hfresh =>
    obtain ⟨-, hlinkage⟩ := h.of_model_user hmodel
    obtain ⟨-, hlinkage'⟩ := h'.of_model_user hmodel'
    exact hfewer (by rw [hlinkage, hlinkage']; exact List.Subset.refl _)
  | addLinked name members links value handle parent tag hfresh hparent =>
    obtain ⟨hnodes, hlinkage⟩ := h.of_model_user hmodel
    obtain ⟨-, hlinkage'⟩ := h'.of_model_user hmodel'
    refine hlonger (hlinkage'.trans (by rw [hlinkage])) fun hback => ?_
    -- no link starts at a member that is new
    obtain heq | ⟨x, hlinks, -⟩ := hback.cases_head
    · exact hfresh ((show handle = parent from heq) ▸ hparent)
    · have hmem := (h.links_mem hlinks).1
      rw [h.members_eq, hnodes] at hmem
      exact hfresh hmem
  | link name members links source target tag data edge hsource htarget =>
    obtain ⟨-, hlinkage⟩ := h.of_model_user hmodel
    obtain ⟨-, hlinkage'⟩ := h'.of_model_user hmodel'
    refine hlonger (hlinkage'.trans (by rw [hlinkage])) fun hback => ?_
    rw [← linkPath_iff h.timed.sound] at hback
    simp [Validation.check, hback] at hcheck
  | removeNode name members links handle old hmem =>
    obtain ⟨-, hlinkage⟩ := h.of_model_user hmodel
    obtain ⟨-, hlinkage'⟩ := h'.of_model_user hmodel'
    exact hfewer (by rw [hlinkage, hlinkage']; exact List.filter_subset_self _)
  | _ =>
    have hother := c.kind_model
    rw [hmodel, hkind] at hother
    cases hother

/-- What is a root after a member was removed was one before, or only links from that member led to
it. -/
theorem Formed.length_roots_removeNode (h : c.Formed) (h' : c'.Formed) {n : Nat}
    (hnodes : c'.roster.map (·.node) ⊆ c.roster.map (·.node)) (hn : n ∉ c'.roster.map (·.node))
    (hlinkage : ∀ l ∈ c.linkage, l.source ≠ n → l.target ≠ n → l ∈ c'.linkage) :
    c'.linkRoots.length ≤ (c.linkRoots.filter (· != n)).length + orphanCount c n := by
  rw [orphanCount, ← List.length_map (fun view : EdgeView => view.target), ← List.length_append]
  have hnodup : c'.linkRoots.Nodup := by
    rw [h'.linkRoots_eq]
    exact h'.nodup_nodes.filter _
  refine (hnodup.subperm fun r hr => ?_).length_le
  obtain ⟨hmem, hroot⟩ := (mem_linkRoots h'.timed.sound).1 hr
  rw [h'.members_eq] at hmem
  have hne : r ≠ n := fun heq => hn (heq ▸ hmem)
  have honly (x : Nat) (hlinks : c.Links x r) : x = n := by
    by_contra hother
    obtain ⟨l, hl, rfl, rfl⟩ := links_iff.1 hlinks
    exact hroot l.source (links_iff.2 ⟨l, hlinkage l hl hother hne, rfl, rfl⟩)
  rw [List.mem_append]
  by_cases hlinks : c.Links n r
  · exact Or.inr (h.mem_orphans hlinks honly)
  · refine Or.inl (List.mem_filter.2 ⟨(mem_linkRoots h.timed.sound).2 ⟨?_, fun x hx => ?_⟩, ?_⟩)
    · rw [h.members_eq]
      exact hnodes hmem
    · exact hlinks (honly x hx ▸ hx)
    · simpa using hne

/-- A change of a user graph that the rule about roots lets pass leaves one root at most. -/
theorem Formed.roots_step (h : c.Formed) (h' : c'.Formed) (hkind : c.kind = .user name)
    (hstep : c.model.Step m a c'.model) (hcheck : Validation.singleRoot.check s c m = .ok ())
    (hroots : c.linkRoots.length ≤ 1) : c'.linkRoots.length ≤ 1 := by
  have hcheck' : checkSingleRoot c m = .ok () := hcheck
  unfold checkSingleRoot at hcheck'
  rw [hkind] at hcheck'
  have hmore (nodes : List Nat) (links : List Link) (l : Link) :
      (nodes.filter fun n => (links ++ [l]).all (·.target != n)).length ≤
        (nodes.filter fun n => links.all (·.target != n)).length := by
    refine (List.monotone_filter_right nodes fun n hn => ?_).length_le
    rw [List.all_append, Bool.and_eq_true] at hn
    exact hn.1
  have hroots_eq := h.linkRoots_eq
  have hroots_eq' := h'.linkRoots_eq
  generalize hmodel : c.model = model at hstep
  generalize hmodel' : c'.model = model' at hstep
  cases hstep with
  | addMember name members links value handle hfresh =>
    obtain ⟨hnodes, hlinkage⟩ := h.of_model_user hmodel
    obtain ⟨hnodes', hlinkage'⟩ := h'.of_model_user hmodel'
    have hnone : c.linkRoots = [] := by
      by_contra hsome
      rw [← List.isEmpty_iff] at hsome
      simp [hsome] at hcheck'
    rw [hroots_eq, hnodes, hlinkage] at hnone
    rw [hroots_eq', hnodes', hlinkage', List.map_append, List.filter_append, hnone, List.nil_append]
    exact List.length_filter_le _ _
  | addLinked name members links value handle parent tag hfresh hparent =>
    obtain ⟨hnodes, hlinkage⟩ := h.of_model_user hmodel
    obtain ⟨hnodes', hlinkage'⟩ := h'.of_model_user hmodel'
    rw [hroots_eq, hnodes, hlinkage] at hroots
    rw [hroots_eq', hnodes', hlinkage', List.map_append, List.filter_append, List.map_singleton,
      List.filter_cons_of_neg (by simp), List.filter_nil, List.append_nil]
    exact (hmore _ links _).trans hroots
  | link name members links source target tag data edge hsource htarget =>
    obtain ⟨hnodes, hlinkage⟩ := h.of_model_user hmodel
    obtain ⟨hnodes', hlinkage'⟩ := h'.of_model_user hmodel'
    rw [hroots_eq, hnodes, hlinkage] at hroots
    rw [hroots_eq', hnodes', hlinkage']
    exact (hmore _ links _).trans hroots
  | removeNode name members links handle old hmem =>
    obtain ⟨hnodes, hlinkage⟩ := h.of_model_user hmodel
    obtain ⟨hnodes', hlinkage'⟩ := h'.of_model_user hmodel'
    have hfew : (c.linkRoots.filter (· != handle)).length + orphanCount c handle ≤ 1 := by
      by_contra hmany
      simp [Nat.lt_of_not_le hmany] at hcheck'
    refine (h.length_roots_removeNode h' (n := handle) ?_ ?_ ?_).trans hfew
    · rw [hnodes, hnodes']
      exact List.map_subset _ (List.filter_subset_self _)
    · rw [hnodes']
      simp
    · intro l hl hsource htarget
      rw [hlinkage', List.mem_filter]
      exact ⟨hlinkage ▸ hl, by simpa using ⟨hsource, htarget⟩⟩
  | _ =>
    have hother := c.kind_model
    rw [hmodel, hkind] at hother
    cases hother

/-- Members and links in their order say which links there are and which members are roots. -/
theorem Formed.links_of_shape (h : c.Formed) (h' : c'.Formed)
    (hnodes : c'.roster.map (·.node) = c.roster.map (·.node)) (hlinkage : c'.linkage = c.linkage) :
    c'.Links = c.Links ∧ c'.linkRoots = c.linkRoots := by
  refine ⟨funext₂ fun n m => propext ?_, ?_⟩
  · rw [links_iff, links_iff, hlinkage]
  · rw [h'.linkRoots_eq, h.linkRoots_eq, hnodes, hlinkage]

/-- What the rules about links have made of a user graph. -/
structure Governed (c : Container) : Prop where
  /-- It is a user graph. -/
  user : ∃ name, c.kind = .user name
  /-- It has no cycle, if there is a rule against them. -/
  acyclic : .validate .acyclic ∈ c.rules → ∀ n, ¬TransGen c.Links n n
  /-- It has one root at most, if there is a rule about that. -/
  single : .validate .singleRoot ∈ c.rules → c.linkRoots.length ≤ 1

theorem Governed.new (name : String) : (new (.user name)).Governed where
  user := ⟨name, rfl⟩
  acyclic := by simp [Container.new]
  single := by simp [Container.new]

/-- With both rules, links lead to all members from the only one that no link leads to. -/
theorem Governed.rooted (h : c.Governed) (hformed : c.Formed)
    (hacyclic : .validate .acyclic ∈ c.rules) (hsingle : .validate .singleRoot ∈ c.rules)
    (hmembers : c.members ≠ []) :
    ∃ r ∈ c.members, (∀ n ∈ c.members, (∀ m, ¬c.Links m n) ↔ n = r) ∧
      ∀ n ∈ c.members, ReflTransGen c.Links r n := by
  obtain ⟨n, hn⟩ := List.exists_mem_of_ne_nil _ hmembers
  obtain ⟨r, hr, -⟩ := hformed.exists_root (h.acyclic hacyclic) hn
  have hroots : c.linkRoots = [r] := by
    have hlength := h.single hsingle
    obtain ⟨x, hx⟩ := List.length_eq_one_iff.1
      (Nat.le_antisymm hlength (List.length_pos_of_mem hr))
    rw [hx, List.mem_singleton] at hr
    rw [hx, hr]
  have hmem (n : Nat) : n = r ↔ n ∈ c.members ∧ ∀ m, ¬c.Links m n := by
    rw [← mem_linkRoots hformed.timed.sound, hroots, List.mem_singleton]
  refine ⟨r, ((hmem r).1 rfl).1, fun n hn => ?_, fun n hn => ?_⟩
  · rw [hmem n, and_iff_right hn]
  · obtain ⟨r', hr', hpath⟩ := hformed.exists_root (h.acyclic hacyclic) hn
    rw [hroots, List.mem_singleton] at hr'
    exact hr' ▸ hpath

end Container

namespace Engine

variable {invoke : Invoke σ ε} {g : GraphId} {c c' : Container} {s t : Store} {w v : World σ}

/-- A step of an operation keeps what the rules about links have made of a user graph. -/
theorem Evolves.governed {moment : Moment} (h : Evolves invoke g c moment s t c')
    (hinvoke : invoke.Spares g) (hc : s.graphs[g]? = some c) (hformed : c.Formed)
    (hgoverned : c.Governed) : c'.Governed := by
  cases h with
  | kept _ => exact hgoverned
  | meanwhile => exact hgoverned
  | frozen => exact ⟨hgoverned.user, hgoverned.acyclic, hgoverned.single⟩
  | changed hrewritten _ hformed' hrules hstep =>
    obtain ⟨name, hkind⟩ := hgoverned.user
    refine ⟨⟨name, ?_⟩, fun hrule => ?_, fun hrule => ?_⟩
    · rw [← c'.kind_model, hstep.kind_eq, c.kind_model, hkind]
    · rw [hrules] at hrule
      obtain ⟨s, hcheck⟩ := hrewritten.check_written hinvoke hc hrule (by simp) (by simp)
      exact hformed.acyclic_step hformed' hkind hstep hcheck (hgoverned.acyclic hrule)
    · rw [hrules] at hrule
      obtain ⟨s, hcheck⟩ := hrewritten.check_written hinvoke hc hrule (by simp) (by simp)
      exact hformed.roots_step hformed' hkind hstep hcheck (hgoverned.single hrule)
  | @attached _ rule news u t hrule hprepared _ =>
    obtain ⟨name, hkind⟩ := hgoverned.user
    obtain ⟨hshape, hlinkage⟩ := hformed.shape_rewrite news
    have hnodes : (c.rewrite news).roster.map (·.node) = c.roster.map (·.node) := by
      simpa [List.map_map, Function.comp_def] using congrArg (List.map Prod.snd) hshape
    obtain ⟨hlinks, hroots⟩ := hformed.links_of_shape (hformed.rewrite news) hnodes hlinkage
    refine ⟨⟨name, ?_⟩, fun hmem => ?_, fun hmem => ?_⟩
    · rw [Container.rewrite_eq]
      exact hkind
    · change ∀ n, ¬TransGen (c.rewrite news).Links n n
      rw [hlinks]
      obtain hmem | hmem := List.mem_append.1 hmem
      · exact hgoverned.acyclic hmem
      · obtain rfl := (List.mem_singleton.1 hmem).symm
        obtain ⟨hcheck, -, -⟩ := checkNow_of_prepareRule (by simp) hc hprepared
        intro n hcycle
        have hmember := (hformed.links_mem (TransGen.head'_iff.1 hcycle).choose_spec.1).1
        have hfound := (Container.hasLinkCycle_iff hformed.timed.sound).2
          ⟨n, hmember, n, .refl, hcycle⟩
        simp [Validation.checkNow, hfound] at hcheck
    · change (c.rewrite news).linkRoots.length ≤ 1
      rw [hroots]
      obtain hmem | hmem := List.mem_append.1 hmem
      · exact hgoverned.single hmem
      · obtain rfl := (List.mem_singleton.1 hmem).symm
        obtain ⟨hcheck, -, -⟩ := checkNow_of_prepareRule (by simp) hc hprepared
        by_contra hmany
        simp [Validation.checkNow, hkind, Nat.lt_of_not_le hmany] at hcheck

end Engine

/-- A user graph that operations alone have made, whether they succeeded or failed, has the rules
that they attached. With a rule against cycles and a rule about roots, attached in any order, its
links form no cycle, and where it has members, no link leads to exactly one of them, and links lead
from that one to all members. -/
theorem rooted_after_operations {invoke : Invoke σ ε} {g : GraphId} {name : String} {w v : World σ}
    {moments : List Engine.Moment} (hnew : w.store.graphs[g]? = some (.new (.user name)))
    (hinvoke : invoke.Spares g) (hrun : Engine.Operations invoke g w moments v) :
    ∃ c, v.store.graphs[g]? = some c ∧
      (∀ moment ∈ moments, ∀ rule, moment.Attaches rule → rule ∈ c.rules) ∧
      (.validate .acyclic ∈ c.rules → .validate .singleRoot ∈ c.rules →
        (∀ n, ¬TransGen c.Links n n) ∧
        (c.members ≠ [] → ∃ r ∈ c.members, (∀ n ∈ c.members, (∀ m, ¬c.Links m n) ↔ n = r) ∧
          ∀ n ∈ c.members, ReflTransGen c.Links r n)) := by
  obtain ⟨c, hc, hformed, hgoverned, hattached⟩ :=
    hrun.preserves (P := fun _ c => c.Governed) hinvoke hnew (.new _) (.new name)
      fun moment _ s t c c' hc hformed hgoverned hevolves =>
        hevolves.governed hinvoke hc hformed hgoverned
  refine ⟨c, hc, hattached, fun hacyclic hsingle => ⟨hgoverned.acyclic hacyclic, ?_⟩⟩
  exact hgoverned.rooted hformed hacyclic hsingle

/-! ### A graph of two members -/

/-- A user graph without members. -/
def emptyGraph : World Unit := .holding #[.new (.user "tree")]

/-- Both rules, two members, the second one with a link from the first one, a change that is
refused, and freezing. -/
def treeOperations : List Engine.Operation :=
  [.attach (.validate .singleRoot), .attachAll ⟨"links", [.validate .acyclic]⟩,
    .change (.addMember .nil none), .change (.addMember .nil (some (1, "child"))),
    .change (.insert .nil), .freeze]

/-- After these operations, links lead from one of the two members to both. -/
theorem rooted_treeOperations : ∃ moments v c,
    Engine.Operations answerTrue 0 emptyGraph moments v ∧ v.store.graphs[0]? = some c ∧
    1 ∈ c.members ∧ 2 ∈ c.members ∧ (∀ n, ¬TransGen c.Links n n) ∧
    ∃ r ∈ c.members, (∀ n ∈ c.members, (∀ m, ¬c.Links m n) ↔ n = r) ∧
      ∀ n ∈ c.members, ReflTransGen c.Links r n := by
  have hends : (Engine.Operation.runAll answerTrue 0 treeOperations emptyGraph).any (fun v =>
      ((v.store.get 0).rules.any (Rule.validates .acyclic) &&
        (v.store.get 0).rules.any (Rule.validates .singleRoot)) &&
      ((v.store.get 0).graph.hasNode 1 && (v.store.get 0).graph.hasNode 2)) = true := by
    decide +kernel
  obtain ⟨v, hrun, hfacts⟩ := (Option.any_eq_true _ _).1 hends
  obtain ⟨_, hmoments, -⟩ := Engine.Operations.start.runAll hrun
  obtain ⟨c, hc, -, hrooted⟩ := rooted_after_operations rfl (answerTrue_spares 0) hmoments
  obtain ⟨c', hc', hformed⟩ := hmoments.formed (answerTrue_spares 0) rfl (.new _)
  obtain rfl : c' = c := Option.some.inj (hc'.symm.trans hc)
  rw [Store.get_of_getElem? hc, Bool.and_eq_true, Bool.and_eq_true, Bool.and_eq_true] at hfacts
  obtain ⟨⟨hacyclic, hsingle⟩, hone, htwo⟩ := hfacts
  have hacyclic := Container.mem_rules_of_any hacyclic
  have hsingle := Container.mem_rules_of_any hsingle
  have hmembers : 1 ∈ c'.members ∧ 2 ∈ c'.members := by
    rw [hformed.members_eq]
    exact ⟨hformed.mem_nodes.2 ⟨by decide, hone⟩, hformed.mem_nodes.2 ⟨by decide, htwo⟩⟩
  obtain ⟨hcycles, hroot⟩ := hrooted hacyclic hsingle
  exact ⟨_, v, c', hmoments, hc, hmembers.1, hmembers.2, hcycles,
    hroot (List.ne_nil_of_mem hmembers.1)⟩

end GraphLang
