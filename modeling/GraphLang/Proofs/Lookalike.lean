import GraphLang.Proofs.Optimize.Treelike

/-!
# Programs in which look-ups find the same

All that an evaluator knows of a program are its functions, what its nodes do and which children
they have. So it cannot tell programs apart in which these look-ups find the same, be they valid or
malformed.
-/

namespace GraphLang

open Eval

/-- Look-ups find the same in both programs. -/
structure Lookalike (p q : Program) : Prop where
  /-- The functions are the same. -/
  function : q.function? = p.function?
  /-- Nodes do the same. -/
  op : q.op? = p.op?
  /-- Roles name the same children. -/
  child : q.child? = p.child?
  /-- Indexed children are the same, in the same order. -/
  indexed : q.indexed = p.indexed

namespace Lookalike

variable {p q : Program}

/-- The two programs, every node beside itself. -/
def pairing (h : Lookalike p q) : Pairing where
  first := p
  second := q
  loose := True
  nodes loop falls n n' := n = n' ∧ loop ∧ falls
  bodies root root' := root = root'
  shared _ := True
  function {f} _ := by
    rw [h.function]
    cases p.function? f with
    | none => exact Or.inl ⟨trivial, rfl, rfl⟩
    | some d =>
      refine Or.inr ⟨d, d, rfl, rfl, rfl, rfl, ?_⟩
      cases d.body with
      | none => exact Or.inl ⟨trivial, rfl, rfl⟩
      | some root => exact Or.inr ⟨root, root, rfl, rfl, rfl⟩

variable {h : Lookalike p q} {module : ScopeId} {loop : Prop}

theorem runs (hloop : loop) (cs : List (Role × Nat)) :
    (h.pairing.simulation module).Runs ⟨0, p⟩ ⟨0, q⟩ loop cs cs := by
  induction cs with
  | nil => exact .nil
  | cons c cs ih => exact .cons ⟨rfl, rfl, rfl, hloop, trivial⟩ ih

theorem shares (hloop : loop) (n : Nat) (o : Op) :
    (h.pairing.simulation module).Shares ⟨0, p⟩ ⟨0, q⟩ loop n o := by
  have hchild {inner : Prop} (role : Role) (hinner : inner) :
      (h.pairing.simulation module).Child ⟨0, p⟩ ⟨0, q⟩ inner (p.child? n role)
        (q.child? n role) := by
    rw [h.child]
    cases p.child? n role with
    | none => trivial
    | some c => exact ⟨rfl, rfl, rfl, hinner, trivial⟩
  refine ⟨rfl, fun role _ => hchild role hloop, hchild .body (Or.inl hloop), fun _ _ _ => trivial,
    fun _ family _ => ?_, fun _ => ?_, fun _ _ => ⟨rfl, rfl, trivial⟩, fun _ => hloop⟩
  · dsimp only
    rw [h.indexed]
    exact List.forall₂_same.2 fun _ _ => ⟨rfl, rfl, rfl, hloop, trivial⟩
  · dsimp only
    rw [h.indexed]
    exact runs hloop _

theorem roots (root : Nat) :
    (h.pairing.simulation module).Roots ⟨0, p⟩ ⟨0, q⟩ root root where
  block := by
    unfold isBlock
    dsimp only
    rw [h.op]
  statements _ := by
    dsimp only
    rw [h.indexed]
    exact runs trivial _
  node _ := ⟨rfl, rfl, rfl, trivial, trivial⟩

/-- The evaluation of the second program follows that of the first one. -/
theorem follows (h : Lookalike p q) (module : ScopeId) (fuel : Nat) :
    (h.pairing.simulation module).Follows (eval fuel) (eval fuel) := by
  have hS := h.pairing.lawful module
  induction fuel with
  | zero => exact ⟨fun _ _ _ => .of_none nofun, fun _ _ _ => .of_none nofun,
      fun _ _ _ _ => .of_none nofun⟩
  | succ fuel ih =>
    unfold eval
    refine ⟨?_, ?_, fun callNode hrel hf hargs => ih.callFunction hS hrel hf hargs callNode⟩
    · rintro _ _ loop falls n _ scope w w' ⟨rfl, rfl, rfl, hloop, hfalls⟩ hrel hlive
      cases ho : h.pairing.first.op? n with
      | none =>
        have ho' : h.pairing.second.op? n = none := (congrFun h.op n).trans ho
        unfold Eval.node
        dsimp only
        rw [ho, ho']
        exact .error hS ⟨Or.inl trivial, hrel⟩
      | some o =>
        have ho' : h.pairing.second.op? n = some o := (congrFun h.op n).trans ho
        exact ih.evalNode hS ⟨Nat.le_refl fuel, nofun⟩ ho ho' (shares hloop n o) (fun _ => hfalls)
          hrel hlive
    · rintro _ _ root _ scope w w' ⟨rfl, rfl, rfl⟩ hrel hlive
      exact ih.runBody hS (roots root) hrel hlive

/-- The host cannot tell the programs apart, whatever was reported before. -/
theorem observes_iff (h : Lookalike p q) (config : Config) (verbosity : Verbosity)
    (natives : String → HostNative) (events events' : Array Event) (o : Observation) :
    Observes config verbosity natives events p o ↔
      Observes config verbosity natives events' q o := by
  have hone {p q : Program} (h : Lookalike p q) {events events' : Array Event}
      (ho : Observes config verbosity natives events p o) :
      Observes config verbosity natives events' q o := by
    obtain ⟨fuel, r, v, hrun, rfl⟩ := ho
    have hdepth : config.maxCallDepth = config.maxCallDepth := rfl
    have hrel := h.pairing.related_new hdepth verbosity natives events events' #[] #[]
    obtain ⟨⟨v', hrun', hend⟩, -⟩ :=
      Pairing.run_same hrel trivial (h.follows _ fuel) hrun
    exact ⟨fuel, r, v', hrun', hend.observation r⟩
  have hback : Lookalike q p := ⟨h.function.symm, h.op.symm, h.child.symm, h.indexed.symm⟩
  exact ⟨hone h, hone hback⟩

end Lookalike

end GraphLang
