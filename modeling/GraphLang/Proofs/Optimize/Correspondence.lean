import GraphLang.Optimize.DeadCode
import GraphLang.Proofs.Observation
import GraphLang.Proofs.Optimize.Constants
import GraphLang.Proofs.Program.Checks

/-!
# Programs that mean the same

Two programs correspond if their nodes do: they have the same operation and corresponding children,
or both are settled before the run as the same literal, or one of them is a branch that is settled
as the other. Correspondence is symmetric, and corresponding programs look the same to the host,
whatever they come to.
-/

namespace GraphLang

open Eval

/-- Children with the same role that correspond. -/
def Together (R : Nat → Nat → Prop) (t t' : Role × Nat) : Prop := t'.1 = t.1 ∧ R t.2 t'.2

/-- Statements that correspond one by one, up to one after which no statement can run. -/
inductive Until (p q : Program) (R : Nat → Nat → Prop) :
    List (Role × Nat) → List (Role × Nat) → Prop
  | cons {t t' ts ts'} : R t.2 t'.2 → Until p q R ts ts' → Until p q R (t :: ts) (t' :: ts')
  | cut {t t' ts ts'} : R t.2 t'.2 → DeadCode.diverges p t.2 = true →
    DeadCode.diverges q t'.2 = true → Until p q R (t :: ts) (t' :: ts')

/-- The node does the same in both programs. -/
inductive Mates (p q : Program) (R : Nat → Nat → Prop) (F : FunctionId → Prop) (n : Nat) : Prop
  /-- It has the same operation and corresponding children. -/
  | same {o} : p.op? n = some o → q.op? n = some o →
    (∀ role, Option.Rel R (p.child? n role) (q.child? n role)) →
    List.Forall₂ (Together R) (p.children n) (q.children n) → (∀ f, o = .function f → F f) →
    Mates p q R F n
  /-- It is a block whose statements correspond as far as they can run. -/
  | pruned : p.op? n = some .block → q.op? n = some .block →
    Until p q R (p.indexed n (.statement 0)) (q.indexed n (.statement 0)) → Mates p q R F n
  /-- It is settled as the same literal. -/
  | constant {l} : p.Constant n l → q.Constant n l → Mates p q R F n

/-- The programs have corresponding nodes and functions. -/
structure Corresponds (p q : Program) (R : Nat → Nat → Prop) (F : FunctionId → Prop) : Prop where
  main : F mainId
  function : ∀ {f}, F f → ∃ d d' root root', p.function? f = some d ∧ q.function? f = some d' ∧
    d'.name = d.name ∧ d'.params = d.params ∧ d.body = some root ∧ d'.body = some root' ∧
    R root root' ∧ (q.op? root' = some .block ↔ p.op? root = some .block)
  node : ∀ {n n'}, R n n' → n' = n ∧ Mates p q R F n ∨
    p.Skips n n' ∧ R n' n' ∧ Mates p q R F n' ∨ q.Skips n' n ∧ R n n ∧ Mates p q R F n

variable {p q : Program} {R : Nat → Nat → Prop} {F : FunctionId → Prop} {n n' : Nat}

/-! ### Symmetry -/

theorem Until.symm {ts ts' : List (Role × Nat)} (h : Until p q R ts ts') :
    Until q p (flip R) ts' ts := by
  induction h with
  | cons ht _ ih => exact .cons ht ih
  | cut ht hdiverges hdiverges' => exact .cut ht hdiverges' hdiverges

theorem rel_flip {c c' : Option Nat} (h : Option.Rel R c c') : Option.Rel (flip R) c' c := by
  cases h with
  | some hc => exact .some hc
  | none => exact .none

theorem Mates.symm (h : Mates p q R F n) : Mates q p (flip R) F n := by
  cases h with
  | same ho ho' hchild hchildren hf =>
    refine .same ho' ho (fun role => rel_flip (hchild role)) ?_ hf
    refine List.Forall₂.flip (hchildren.imp fun t t' ht => ?_)
    exact ⟨ht.1.symm, ht.2⟩
  | pruned ho ho' hstatements => exact .pruned ho' ho hstatements.symm
  | constant hl hl' => exact .constant hl' hl

theorem Corresponds.symm (h : Corresponds p q R F) : Corresponds q p (flip R) F where
  main := h.main
  function := by
    intro f hf
    obtain ⟨d, d', root, root', hd, hd', hname, hparams, hbody, hbody', hroots, hblock⟩ :=
      h.function hf
    exact ⟨d', d, root', root, hd', hd, hname.symm, hparams.symm, hbody', hbody, hroots,
      hblock.symm⟩
  node := by
    intro n n' hn
    rcases h.node hn with ⟨rfl, hmates⟩ | ⟨hskips, hself, hmates⟩ | ⟨hskips, hself, hmates⟩
    · exact Or.inl ⟨rfl, hmates.symm⟩
    · exact Or.inr (Or.inr ⟨hskips, hself, hmates.symm⟩)
    · exact Or.inr (Or.inl ⟨hskips, hself, hmates.symm⟩)

/-! ### Running corresponding programs side by side -/

namespace Corresponds

/-- Corresponding programs as a pair. -/
def pairing (h : Corresponds p q R F) : Pairing where
  first := p
  second := q
  loose := True
  nodes loop falls n n' := loop ∧ R n n' ∧ (DeadCode.diverges p n = false → falls)
  bodies root root' := R root root' ∧ (q.op? root' = some .block ↔ p.op? root = some .block)
  shared := F
  function hf := by
    obtain ⟨d, d', root, root', hd, hd', hname, hparams, hbody, hbody', hroots⟩ := h.function hf
    exact Or.inr ⟨d, d', hd, hd', hname, hparams, Or.inr ⟨root, root', hbody, hbody', hroots⟩⟩

variable {h : Corresponds p q R F} {module : ScopeId} {loop falls : Prop}

theorem runs_of_until {ts ts' : List (Role × Nat)} (hts : Until p q R ts ts') (hloop : loop) :
    (h.pairing.simulation module).Runs ⟨0, p⟩ ⟨0, q⟩ loop ts ts' := by
  induction hts with
  | cons ht _ ih => exact .cons ⟨rfl, rfl, hloop, ht, fun _ => trivial⟩ ih
  | cut ht hdiverges _ =>
    refine .cut ⟨rfl, rfl, hloop, ht, fun hfalse => ?_⟩
    rw [hdiverges] at hfalse
    cases hfalse

theorem runs_of_forall₂ {ts ts' : List (Role × Nat)} (hts : List.Forall₂ (Together R) ts ts')
    (hloop : loop) : (h.pairing.simulation module).Runs ⟨0, p⟩ ⟨0, q⟩ loop ts ts' := by
  induction hts with
  | nil => exact .nil
  | cons ht _ ih => exact .cons ⟨rfl, rfl, hloop, ht.2, fun _ => trivial⟩ ih

/-- Children that correspond do so family by family. -/
theorem together_filter {ts ts' : List (Role × Nat)} (hts : List.Forall₂ (Together R) ts ts')
    (family : Role) :
    List.Forall₂ (Together R) (ts.filter fun t => t.1.sameFamily family)
      (ts'.filter fun t => t.1.sameFamily family) := by
  induction hts with
  | nil => exact .nil
  | cons ht _ ih =>
    rw [List.filter_cons, List.filter_cons, ht.1]
    split
    · exact .cons ht ih
    · exact ih

theorem shares {o : Op} (hchild : ∀ role, Option.Rel R (p.child? n role) (q.child? n role))
    (hchildren : List.Forall₂ (Together R) (p.children n) (q.children n))
    (hf : ∀ f, o = .function f → F f) (hloop : loop) :
    (h.pairing.simulation module).Shares ⟨0, p⟩ ⟨0, q⟩ loop n o := by
  have hany : ∀ {inner : Prop} (role), inner → (h.pairing.simulation module).Child ⟨0, p⟩ ⟨0, q⟩
      inner (p.child? n role) (q.child? n role) := by
    intro inner role hinner
    have hrel := hchild role
    generalize p.child? n role = c at hrel ⊢
    generalize q.child? n role = c' at hrel ⊢
    cases hrel with
    | some hc => exact ⟨rfl, rfl, hinner, hc, fun _ => trivial⟩
    | none => trivial
  refine ⟨rfl, fun role _ => hany role hloop, hany .body (Or.inl hloop), fun _ _ _ => trivial,
    fun _ role _ => ?_, fun _ => runs_of_forall₂ (together_filter hchildren _) hloop,
    fun f hof => ⟨rfl, rfl, hf f hof⟩, fun _ => hloop⟩
  refine (together_filter hchildren role).imp fun t t' ht => ?_
  exact ⟨rfl, rfl, hloop, ht.2, fun _ => trivial⟩

/-! ### Nodes that are settled before the run -/

variable {w w' : Machine} {scope : ScopeId}

/-- Both nodes come to the same literal, whatever the worlds. -/
theorem matches_constant {l : Literal} (hl : p.Constant n l) (hl' : q.Constant n l)
    (hfalls : falls) (hrel : h.pairing.Related module w w') (fuel fuel' : Nat) :
    (h.pairing.simulation module).Matches (h.pairing.simulation module).fatal w
      ((h.pairing.simulation module).Gives loop falls)
      ((eval fuel).node ⟨0, p⟩ n scope w) ((eval (fuel' + 2)).node ⟨0, q⟩ n scope w') := by
  obtain ⟨events', trace', hrun'⟩ := calm_constant 0 hl' fuel' scope w'
  rcases constant_cases 0 hl fuel scope w with hnone | ⟨events, trace, hrun⟩
  · rw [hnone]
    exact .of_none nofun
  · rw [hrun, hrun']
    refine .of_some ⟨id, id⟩ (.ok (hrel.quiet _ _ _ _) ⟨?_, fun _ => hfalls⟩)
    exact Literal.holds_toValue l

/-- Recording a node after its evaluation changes nothing that matters. -/
theorem matches_record_left {a : Eval Signal} {y : Option (Except EvalError Signal × Machine)}
    {good : Signal → Machine → Prop} (hgood : (h.pairing.simulation module).Stable good)
    (code : Code) (o : Op)
    (ha : (h.pairing.simulation module).Matches (h.pairing.simulation module).fatal w good (a w) y) :
    (h.pairing.simulation module).Matches (h.pairing.simulation module).fatal w good
      ((a >>= fun s => record code n o s >>= fun _ => pure s) w) y := by
  rw [Act.run_bind]
  cases hx : a w with
  | none => exact .of_none nofun
  | some x =>
    obtain ⟨r, v⟩ := x
    obtain ⟨hstep, hout⟩ := ha.ends r v hx
    cases hout with
    | error hboth => exact .of_some hstep (.error hboth)
    | lost hlost => exact hlost.elim
    | ok hrel hs =>
      dsimp only
      rw [Act.run_bind, run_record]
      obtain ⟨trace, htrace⟩ := v.recorded_eq_quiet code n o _
      rw [htrace]
      have hs' : good _ (v.quiet v.events trace) := @hgood v (v.quiet v.events trace) (fun _ => id) _ hs
      exact .of_some ⟨hstep.isScope, hstep.closureScope⟩ (.ok (hrel.quiet _ _ _ _) hs')

theorem matches_record_right {a : Eval Signal} {x : Option (Except EvalError Signal × Machine)}
    {good : Signal → Machine → Prop} (code : Code) (o : Op)
    (ha : (h.pairing.simulation module).Matches (h.pairing.simulation module).fatal w good x
      (a w')) :
    (h.pairing.simulation module).Matches (h.pairing.simulation module).fatal w good x
      ((a >>= fun s => record code n o s >>= fun _ => pure s) w') := by
  refine ⟨fun r v hx => ?_, nofun⟩
  obtain ⟨hstep, hout⟩ := ha.ends r v hx
  refine ⟨hstep, ?_⟩
  rw [Act.run_bind]
  generalize a w' = y at hout ⊢
  cases hout with
  | error hboth => exact .error hboth
  | lost hlost => exact hlost.elim
  | ok hrel hs =>
    dsimp only
    rw [Act.run_bind, run_record]
    rename_i s v'
    obtain ⟨trace, htrace⟩ := v'.recorded_eq_quiet code n o s
    rw [htrace]
    exact .ok (hrel.quiet _ _ _ _) hs

theorem diverges_eq {o : Op} (ho : p.op? n = some o) : DeadCode.diverges p n = o.diverges := by
  unfold DeadCode.diverges
  rw [ho]

theorem diverges_of_constant {l : Literal} (hl : p.Constant n l) :
    DeadCode.diverges p n = false := by
  cases hl with
  | literal ho => exact diverges_eq ho
  | branch ho => exact diverges_eq ho
  | operator ho hls hresult =>
    rename_i o ls
    rw [diverges_eq ho]
    cases o <;> first | rfl | (cases hls; cases hresult)

theorem not_block_of_constant {l : Literal} (hl : p.Constant n l) : p.op? n ≠ some .block := by
  intro hblock
  cases hl with
  | literal ho =>
    rw [hblock] at ho
    cases ho
  | branch ho =>
    rw [hblock] at ho
    cases ho
  | operator ho hls hresult =>
    rw [hblock] at ho
    cases ho
    cases hls
    cases hresult

/-! ### Evaluation -/

/-- A node that does the same in both programs comes to the same. -/
theorem matches_mates {fuel fuel' : Nat}
    (hev : (h.pairing.simulation module).Follows (eval fuel) (eval (fuel' + 1)))
    (hfuel : fuel ≤ fuel' + 1) (hmates : Mates p q R F n) (hloop : loop)
    (hfalls : DeadCode.diverges p n = false → falls) (hrel : h.pairing.Related module w w')
    (hlive : (h.pairing.simulation module).live w scope) :
    (h.pairing.simulation module).Matches (h.pairing.simulation module).fatal w
      ((h.pairing.simulation module).Gives loop falls)
      ((eval (fuel + 1)).node ⟨0, p⟩ n scope w) ((eval (fuel' + 2)).node ⟨0, q⟩ n scope w') := by
  have hS := h.pairing.lawful module
  cases hmates with
  | constant hl hl' =>
    exact matches_constant hl hl' (hfalls (diverges_of_constant hl)) hrel (fuel + 1) fuel'
  | same ho ho' hchild hchildren hf =>
    rw [diverges_eq ho] at hfalls
    exact hev.evalNode hS ⟨hfuel, nofun⟩ ho ho' (shares hchild hchildren hf hloop) hfalls hrel hlive
  | pruned ho ho' hstatements =>
    have ho : (⟨0, p⟩ : Code).program.op? n = some .block := ho
    have ho' : (⟨0, q⟩ : Code).program.op? n = some .block := ho'
    refine .evalNode hS ho ho' rfl hrel fun v v' hv hrel => ?_
    refine (hev.block hS (runs_of_until hstatements hloop) hrel (hS.live_step hv hlive)).weaken ?_
    rintro (s | x) u - hx
    · exact hx
    · exact ⟨hfalls (diverges_eq ho), hx⟩

theorem roots {root root' : Nat} (hroots : R root root')
    (hblock : q.op? root' = some .block ↔ p.op? root = some .block) :
    (h.pairing.simulation module).Roots ⟨0, p⟩ ⟨0, q⟩ root root' where
  block := by
    rw [Bool.eq_iff_iff, Simulation.isBlock_iff, Simulation.isBlock_iff]
    exact hblock
  statements := by
    intro hroot
    have hroot : p.op? root = some .block := Simulation.isBlock_iff.1 hroot
    rcases h.node hroots with ⟨rfl, hmates⟩ | ⟨⟨l, ho, -⟩, -⟩ | ⟨⟨l, ho, -⟩, -⟩
    · cases hmates with
      | same _ _ _ hchildren _ => exact runs_of_forall₂ (together_filter hchildren _) trivial
      | pruned _ _ hstatements => exact runs_of_until hstatements trivial
      | constant hl _ => exact absurd hroot (not_block_of_constant hl)
    · rw [hroot] at ho
      cases ho
    · rw [hblock.2 hroot] at ho
      cases ho
  node _ := ⟨rfl, rfl, trivial, hroots, fun _ => trivial⟩

/-- The second of two corresponding programs follows the first one if it has more fuel: it may have
to pass through a branch before each node. -/
theorem follows (h : Corresponds p q R F) (module : ScopeId) {fuel fuel' : Nat}
    (hfuel : 3 * fuel ≤ fuel') :
    (h.pairing.simulation module).Follows (eval fuel) (eval fuel') := by
  have hS := h.pairing.lawful module
  induction fuel generalizing fuel' with
  | zero => exact ⟨fun _ _ _ => .of_none nofun, fun _ _ _ => .of_none nofun,
      fun _ _ _ _ => .of_none nofun⟩
  | succ fuel ih =>
    obtain ⟨more, rfl⟩ : ∃ more, fuel' = more + 3 := ⟨fuel' - 3, by omega⟩
    have hev : (h.pairing.simulation module).Follows (eval fuel) (eval (more + 2)) :=
      ih (by omega)
    refine ⟨?_, ?_, fun callNode hrel hf hargs => hev.callFunction hS hrel hf hargs callNode⟩
    · rintro _ _ loop falls n n' scope w w' ⟨rfl, rfl, hloop, hnodes, hfalls⟩ hrel hlive
      rcases h.node hnodes with ⟨rfl, hmates⟩ | ⟨hskips, hself, -⟩ | ⟨hskips, -, hmates⟩
      · exact matches_mates hev (by omega) hmates hloop hfalls hrel hlive
      · cases fuel with
        | zero =>
          rw [show (eval (0 + 1)).node ⟨0, h.pairing.first⟩ n scope w = none from
            skips_eq_none hskips scope w]
          exact .of_none nofun
        | succ fuel =>
          obtain ⟨events, trace, hrun⟩ := run_skips 0 hskips fuel scope w
          have hrun : (eval (fuel + 1 + 1)).node ⟨0, h.pairing.first⟩ n scope w = _ := hrun
          rw [hrun]
          have hbranch : falls := by
            obtain ⟨l, ho, -⟩ := hskips
            exact hfalls (diverges_eq ho)
          have hquiet : h.pairing.Related module (w.quiet events trace) w' :=
            hrel.quiet events trace w'.events w'.control.trace
          have hev' : (h.pairing.simulation module).Follows (eval (fuel + 1)) (eval (more + 3)) :=
            ih (by omega)
          have hsame : (h.pairing.simulation module).nodes ⟨0, h.pairing.first⟩
              ⟨0, h.pairing.second⟩ loop True _ _ :=
            ⟨rfl, rfl, hloop, hself, fun _ => trivial⟩
          have hnode := hev'.node hsame hquiet hlive
          have hstep : (h.pairing.simulation module).step w (w.quiet events trace) := ⟨id, id⟩
          exact (matches_record_left (Simulation.stable_gives _ loop falls) _ _
            (hnode.weaken fun s v _ hs => ⟨hs.1, fun _ => hbranch⟩)).after hS hstep
      · obtain ⟨events, trace, hrun⟩ := run_skips 0 hskips (more + 1) scope w'
        have hrun : (eval (more + 3)).node ⟨0, h.pairing.second⟩ n' scope w' = _ := hrun
        rw [hrun]
        have hquiet : h.pairing.Related module w (w'.quiet events trace) :=
          hrel.quiet w.events w.control.trace events trace
        have hev : (h.pairing.simulation module).Follows (eval fuel) (eval (more + 1)) :=
          ih (by omega)
        exact matches_record_right _ _
          (matches_mates hev (by omega) hmates hloop hfalls hquiet hlive)
    · rintro _ _ root root' scope w w' ⟨rfl, rfl, hroots, hblock⟩ hrel hlive
      exact hev.runBody hS (roots hroots hblock) hrel hlive

/-- Whatever the run of a program comes to, the run of a corresponding program looks the same. -/
theorem observed (h : Corresponds p q R F) {config config' : Config}
    (hdepth : config'.maxCallDepth = config.maxCallDepth) (verbosity : Verbosity)
    (natives : String → HostNative) (events events' : Array Event) {fuel : Nat}
    {r : Except EvalError Value} {v : Machine}
    (hrun : run fuel 0 (((World.evaluator config verbosity natives).withUnit p).quiet events #[]) =
      some (r, v)) :
    ∃ fuel' v', run fuel' 0
        (((World.evaluator config' verbosity natives).withUnit q).quiet events' #[]) =
          some (r, v') ∧ v'.observation r = v.observation r := by
  have hrel := h.pairing.related_new hdepth verbosity natives events events' #[] #[]
  obtain ⟨⟨v', hrun', hend⟩, -⟩ :=
    Pairing.run_same hrel h.main (h.follows _ (Nat.le_refl (3 * fuel))) hrun
  exact ⟨3 * fuel, v', hrun', hend.observation r⟩

end Corresponds

end GraphLang
