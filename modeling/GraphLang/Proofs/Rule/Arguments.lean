import GraphLang.Proofs.Callables
import GraphLang.Proofs.Program.Shapes
import GraphLang.Proofs.Simulation.Rules
import GraphLang.Proofs.Loading

/-!
# The arguments of rules

A description that passes its check makes its rule of as many arguments as it counts, and every
part of the rule is made of its own share of them. A node of a valid program has exactly these
arguments, be it one that attaches a rule or one that defines a ruleset, so neither fails to make
its rules.
-/

namespace GraphLang

namespace RuleSpec

/-! ### What a description makes of its arguments -/

/-- The description is one of a plain transform, and with these arguments it makes this one. -/
inductive MakesTransform : RuleSpec → List Value → Transform → Prop
  | noneToZero : MakesTransform .noneToZero [] .noneToZero
  | coalesce (l : Literal) : MakesTransform (.coalesce l) [] (.coalesce l.toValue)
  | clamp (min max : Literal) :
    MakesTransform (.clamp min max) [] (.clamp min.toValue max.toValue)
  | round (digits : Nat) : MakesTransform (.round digits) [] (.round digits)
  | lowercase : MakesTransform .lowercase [] .lowercase
  | uppercase : MakesTransform .uppercase [] .uppercase
  | trim : MakesTransform .trim [] .trim
  | lookup (table : Value) (l : Literal) :
    MakesTransform (.lookup l) [table] (.lookup table l.toValue)
  | custom (name : String) (callee : Value) :
    MakesTransform (.custom name) [callee] (.custom name callee)

/-- With these arguments the description makes this rule. The first argument of a conditional is its
predicate; then come as many as the first branch counts, and the others are those of the second
branch. -/
inductive Makes : RuleSpec → List Value → Rule → Prop
  | maxSize (limit : Nat) : Makes (.maxSize limit) [] (.validate (.maxSize limit))
  | acyclic : Makes .acyclic [] (.validate .acyclic)
  | singleRoot : Makes .singleRoot [] (.validate .singleRoot)
  | homogeneous : Makes .homogeneous [] (.validate .homogeneous)
  | predicate (name : String) (callee : Value) :
    Makes (.predicate name) [callee] (.validate (.predicate name callee))
  | transform {spec : RuleSpec} {args : List Value} {r : Transform} :
    MakesTransform spec args r → Makes spec args (.transform r)
  | conditional {t : RuleSpec} {args : List Value} {whenTrue : Transform} (test : Value) :
    MakesTransform t args whenTrue →
      Makes (.conditional t) (test :: args) (.conditional test whenTrue none)
  | conditionalElse {t f : RuleSpec} {args : List Value} {whenTrue whenFalse : Transform}
    (test : Value) :
    MakesTransform t (args.take t.argCount) whenTrue →
      MakesTransform f (args.drop t.argCount) whenFalse →
        Makes (.conditionalElse t f) (test :: args) (.conditional test whenTrue (some whenFalse))
  | rejectMixedFreeze : Makes .rejectMixedFreeze [] (.freeze .rejectMixed)
  | copyElements : Makes .copyElements [] (.freeze .copyElements)

variable {spec t f : RuleSpec} {args : List Value}

/-- A transform takes its own arguments from the front, and leaves the others. -/
theorem toTransform_of_isTransform (ht : t.isTransform = true) (hargs : t.argCount ≤ args.length) :
    ∃ r, t.toTransform args = .ok (r, args.drop t.argCount) ∧
      MakesTransform t (args.take t.argCount) r := by
  cases t with
  | noneToZero => exact ⟨_, rfl, .noneToZero⟩
  | coalesce l => exact ⟨_, rfl, .coalesce l⟩
  | clamp min max => exact ⟨_, rfl, .clamp min max⟩
  | round digits => exact ⟨_, rfl, .round digits⟩
  | lowercase => exact ⟨_, rfl, .lowercase⟩
  | uppercase => exact ⟨_, rfl, .uppercase⟩
  | trim => exact ⟨_, rfl, .trim⟩
  | lookup l =>
    obtain ⟨table, rest, rfl⟩ := List.exists_cons_of_length_pos hargs
    exact ⟨_, rfl, .lookup table l⟩
  | custom name =>
    obtain ⟨callee, rest, rfl⟩ := List.exists_cons_of_length_pos hargs
    exact ⟨_, rfl, .custom name callee⟩
  | _ => cases ht

/-- A transform that gets no more arguments than it counts leaves none. -/
theorem toTransform_of_length (ht : t.isTransform = true) (hargs : args.length = t.argCount) :
    ∃ r, t.toTransform args = .ok (r, []) ∧ MakesTransform t args r := by
  obtain ⟨r, hr, hmakes⟩ := toTransform_of_isTransform ht (Nat.le_of_eq hargs.symm)
  rw [← hargs, List.drop_length] at hr
  rw [← hargs, List.take_length] at hmakes
  exact ⟨r, hr, hmakes⟩

theorem isTransform_of_check_conditional (h : (RuleSpec.conditional t).check = .ok ()) :
    t.isTransform = true := by
  by_contra hnot
  simp [check, hnot] at h

theorem isTransform_of_check_conditionalElse (h : (RuleSpec.conditionalElse t f).check = .ok ()) :
    t.isTransform = true ∧ f.isTransform = true := by
  unfold check at h
  cases ht : t.isTransform with
  | false => simp [ht] at h
  | true =>
    cases hf : f.isTransform with
    | false => simp [ht, hf] at h
    | true => exact ⟨rfl, rfl⟩

/-- With as many arguments as it counts, a description that passes its check makes a rule. -/
theorem instantiate_of_check (hcheck : spec.check = .ok ()) (hargs : args.length = spec.argCount) :
    ∃ rule, spec.instantiate args = .ok rule ∧ spec.Makes args rule := by
  have hcount : ¬(args.length != spec.argCount) = true := by simp [hargs]
  unfold instantiate
  rw [if_neg hcount]
  cases spec with
  | maxSize limit =>
    obtain rfl := List.length_eq_zero_iff.1 hargs
    exact ⟨_, rfl, .maxSize limit⟩
  | acyclic =>
    obtain rfl := List.length_eq_zero_iff.1 hargs
    exact ⟨_, rfl, .acyclic⟩
  | singleRoot =>
    obtain rfl := List.length_eq_zero_iff.1 hargs
    exact ⟨_, rfl, .singleRoot⟩
  | homogeneous =>
    obtain rfl := List.length_eq_zero_iff.1 hargs
    exact ⟨_, rfl, .homogeneous⟩
  | rejectMixedFreeze =>
    obtain rfl := List.length_eq_zero_iff.1 hargs
    exact ⟨_, rfl, .rejectMixedFreeze⟩
  | copyElements =>
    obtain rfl := List.length_eq_zero_iff.1 hargs
    exact ⟨_, rfl, .copyElements⟩
  | predicate name =>
    obtain ⟨callee, rfl⟩ := List.length_eq_one_iff.1 hargs
    exact ⟨_, rfl, .predicate name callee⟩
  | conditional t =>
    have hlength : args.length = 1 + t.argCount := hargs
    obtain ⟨test, rest, rfl⟩ := List.exists_cons_of_length_pos (l := args) (by omega)
    rw [List.length_cons] at hlength
    have hrest : rest.length = t.argCount := by omega
    obtain ⟨r, hr, hmakes⟩ := toTransform_of_length (isTransform_of_check_conditional hcheck) hrest
    refine ⟨.conditional test r none, ?_, .conditional test hmakes⟩
    change (t.toTransform rest >>= fun x => pure (Rule.conditional test x.1 none)) = _
    rw [hr]
    rfl
  | conditionalElse t f =>
    have hlength : args.length = 1 + t.argCount + f.argCount := hargs
    obtain ⟨ht, hf⟩ := isTransform_of_check_conditionalElse hcheck
    obtain ⟨test, rest, rfl⟩ := List.exists_cons_of_length_pos (l := args) (by omega)
    rw [List.length_cons] at hlength
    have hrest : t.argCount ≤ rest.length := by omega
    have hothers : (rest.drop t.argCount).length = f.argCount := by
      rw [List.length_drop]
      omega
    obtain ⟨r, hr, hmakes⟩ := toTransform_of_isTransform ht hrest
    obtain ⟨r', hr', hmakes'⟩ := toTransform_of_length hf hothers
    refine ⟨.conditional test r (some r'), ?_, .conditionalElse test hmakes hmakes'⟩
    change (t.toTransform rest >>= fun x => f.toTransform x.2 >>= fun y =>
      pure (Rule.conditional test x.1 (some y.1))) = _
    rw [hr]
    change (f.toTransform (rest.drop t.argCount) >>= fun y =>
      pure (Rule.conditional test r (some y.1))) = _
    rw [hr']
    rfl
  | _ =>
    obtain ⟨r, hr, hmakes⟩ := toTransform_of_length rfl hargs
    refine ⟨.transform r, ?_, .transform hmakes⟩
    change (toTransform args _ >>= fun x => pure (Rule.transform x.1)) = _
    rw [hr]
    rfl

/-! ### Rulesets -/

/-- How many arguments the first so many descriptions take. -/
def argsBefore (specs : List RuleSpec) (i : Nat) : Nat := ((specs.take i).map argCount).sum

/-- The rules are those that the descriptions make, each of its own arguments, which follow those of
the descriptions before it. No argument is left over. -/
structure MakesAll (specs : List RuleSpec) (args : List Value) (rules : List Rule) : Prop where
  /-- There is one rule for each description. -/
  length : rules.length = specs.length
  /-- All arguments are taken. -/
  total : args.length = (specs.map argCount).sum
  /-- Each rule is made of the next arguments. -/
  makes : ∀ i spec rule, specs[i]? = some spec → rules[i]? = some rule →
    Makes spec ((args.drop (argsBefore specs i)).take spec.argCount) rule

theorem instantiateAll_of_check {specs : List RuleSpec}
    (hchecks : ∀ spec ∈ specs, spec.check = .ok ())
    (hargs : args.length = (specs.map argCount).sum) :
    ∃ rules, instantiateAll specs args = .ok rules ∧ MakesAll specs args rules := by
  induction specs generalizing args with
  | nil => exact ⟨[], rfl, rfl, hargs, fun i spec rule hspec => by cases hspec⟩
  | cons spec specs ih =>
    have htotal : args.length = spec.argCount + (specs.map argCount).sum := by
      rw [hargs, List.map_cons, List.sum_cons]
    have hown : (args.take spec.argCount).length = spec.argCount := by
      rw [List.length_take]
      omega
    have hothers : (args.drop spec.argCount).length = (specs.map argCount).sum := by
      rw [List.length_drop]
      omega
    obtain ⟨rule, hrule, hmakes⟩ := instantiate_of_check (hchecks spec List.mem_cons_self) hown
    obtain ⟨rules, hrules, hall⟩ := ih
      (fun other hother => hchecks other (List.mem_cons_of_mem spec hother)) hothers
    refine ⟨rule :: rules, ?_, congrArg (· + 1) hall.length, hargs, ?_⟩
    · rw [instantiateAll, hrule]
      change (instantiateAll specs (args.drop spec.argCount) >>= fun rest =>
        pure (rule :: rest)) = _
      rw [hrules]
      rfl
    · intro i found made hfound hmade
      cases i with
      | zero =>
        cases hfound
        cases hmade
        exact hmakes
      | succ i =>
        have hbefore : argsBefore (spec :: specs) (i + 1) =
            spec.argCount + argsBefore specs i := by
          simp [argsBefore]
        rw [hbefore, ← List.drop_drop]
        exact hall.makes i found made hfound hmade

end RuleSpec

/-! ### Nodes that make rules -/

namespace Role

variable {family role : Role}

/-- A role of an indexed kind is the one at its position. -/
theorem exists_eq_atPosition (hfamily : family.position?.isSome = true)
    (hsame : role.sameFamily family = true) : ∃ i, role = family.atPosition i := by
  have hposition : ∃ i, role.position? = some i := by
    cases family <;> simp [position?] at hfamily <;>
      cases role <;> simp [sameFamily, rank, position?] at hsame ⊢
  exact hposition.imp fun i hi => (eq_atPosition_iff hfamily).2 ⟨hsame, hi⟩

theorem atPosition_le {i j : Nat} (hfamily : family.position?.isSome = true) (h : i ≤ j) :
    (family.atPosition i).le (family.atPosition j) = true := by
  cases family <;> simp [position?] at hfamily <;> simp [atPosition, le, rank, position?, h]

end Role

namespace Program

variable {p : Program} {n : Nat} {o : Op}

/-- Where the positions have no gap, the indexed children stand at the first positions, in order. -/
theorem indexed_roles {family : Role} {k : Nat} (hfamily : family.position?.isSome = true)
    (hroles : (p.childRoles n).Nodup) (hk : positionsOf family (p.childRoles n) = List.range k) :
    (p.indexed n family).map (·.1) = (List.range k).map family.atPosition := by
  have hposition := (positionsOf_eq_range_iff hfamily hroles).1 hk
  have hindexed : (p.indexed n family).map (·.1) =
      (p.childRoles n).filter (·.sameFamily family) := by
    rw [indexed, childRoles, List.filter_map]
    rfl
  have hsorted : ((p.indexed n family).map (·.1)).Pairwise fun a b => a.le b = true :=
    List.pairwise_map.2 ((p.pairwise_children n).sublist List.filter_sublist)
  have hrange : ((List.range k).map family.atPosition).Pairwise fun a b => a.le b = true :=
    List.pairwise_map.2 (List.pairwise_le_range.imp fun h => Role.atPosition_le hfamily h)
  have hnodup : ((List.range k).map family.atPosition).Nodup := by
    refine List.nodup_range.map fun i j hij => ?_
    have hi := ((Role.eq_atPosition_iff (i := i) hfamily).1 rfl).2
    have hj := ((Role.eq_atPosition_iff (i := j) hfamily).1 rfl).2
    rw [hij, hj] at hi
    exact (Option.some.inj hi).symm
  refine List.Perm.eq_of_pairwise (fun _ _ _ _ => Role.le_antisymm) hsorted hrange ?_
  rw [hindexed]
  refine (List.perm_ext_iff_of_nodup (hroles.filter _) hnodup).2 fun role => ?_
  rw [List.mem_filter, List.mem_map]
  constructor
  · rintro ⟨hrole, hsame⟩
    obtain ⟨i, rfl⟩ := Role.exists_eq_atPosition hfamily hsame
    exact ⟨i, List.mem_range.2 ((hposition i).1 hrole), rfl⟩
  · rintro ⟨i, hi, rfl⟩
    exact ⟨(hposition i).2 (List.mem_range.1 hi), ((Role.eq_atPosition_iff hfamily).1 rfl).1⟩

/-- In a valid program a node has the indexed children that its operation counts, in order, and its
descriptions of rules pass their checks. -/
theorem indexed_of_valid (hvalid : p.validate = .ok []) (ho : p.op? n = some o) {family : Role}
    {count : Nat} (hfamily : o.shape.indexed = some family) (hcount : o.indexedCount = some count) :
    (p.indexed n family).map (·.1) = (List.range count).map family.atPosition ∧
      ∀ spec ∈ o.ruleSpecs, spec.check = .ok () := by
  obtain ⟨node, hnode, rfl⟩ := Option.map_eq_some_iff.1 ho
  obtain ⟨hlocal, -, -⟩ := validate_eq_nil hvalid
  have hlive : n ∈ p.nodeIds := SlotGraph.mem_nodeIds.2 (hasNode_of_op? ho)
  have hshape := List.flatMap_eq_nil_iff.1 (List.append_eq_nil_iff.1 hlocal).2 n hlive
  unfold shapeErrors at hshape
  rw [hnode] at hshape
  simp only [List.append_eq_nil_iff] at hshape
  obtain ⟨⟨⟨hroles, -⟩, hpositions⟩, -⟩ := hshape
  obtain ⟨hseen, hnodup⟩ := roleErrors_eq_nil hroles
  rw [List.nil_append] at hseen hnodup
  have hnodup : (p.childRoles n).Nodup := hnodup List.nodup_nil
  have hposition := Op.position?_of_indexed hfamily
  rw [hseen] at hpositions
  change positionErrors n node (p.childRoles n) = [] at hpositions
  rw [positionErrors_eq_nil_iff hnodup] at hpositions
  obtain ⟨k, hk, hexact⟩ := hpositions family hfamily
  obtain rfl := hexact count hcount
  exact ⟨indexed_roles hposition hnodup ((positionsOf_eq_range_iff hposition hnodup).2 hk),
    checks_of_valid hvalid ho⟩

end Program

/-- Nodes that were evaluated one after the other have given a value each. -/
theorem Step.length_of_nodes {ev : Evaluator} {code : Code} {scope : ScopeId}
    {cs : List (Role × Nat)} {w v : Machine} {args : List Value}
    (h : Step.nodes ev code scope cs w = some (.ok (.ok args), v)) : args.length = cs.length := by
  induction cs generalizing w v args with
  | nil =>
    cases h
    rfl
  | cons c cs ih =>
    rw [Step.nodes, Step.run_bind] at h
    split at h <;> try cases h
    rename_i x u _
    rw [Step.run_bind] at h
    split at h <;> cases h
    rename_i hrest
    exact congrArg (· + 1) (ih hrest)

open RuleSpec in
/-- Where the arguments of a node of a valid program were evaluated, each comes from the child at
its position, and they are those that the rules of the node take. A node that attaches a rule makes
it of all arguments, and goes on to attach it to the target. A node that defines a ruleset makes
each rule of the arguments that follow those of the rules before it, with none left over, and goes
on to define the set. Neither raises the error of a rule that cannot be made. -/
theorem rules_made_of_arguments {ev : Evaluator} {p : Program} {u : UnitId} {n : Nat} {o : Op}
    {scope : ScopeId} {w v : Machine} {args : List Value} (hvalid : p.validate = .ok [])
    (ho : p.op? n = some o)
    (hargs : Step.family ev ⟨u, p⟩ n (.argument 0) scope w = some (.ok (.ok args), v)) :
    (∀ spec, o = .addRule spec →
      (p.indexed n (.argument 0)).map (·.1) = (List.range args.length).map .argument ∧
      ∃ rule, spec.instantiate args = .ok rule ∧ spec.Makes args rule ∧
        ∀ target, Step.addRule ev target spec args = (do
          let g ← Step.container target
          Step.report .debug "add rule" fun s => [("rule", rule.display s none)]
          Step.governed (Engine.addRule (Eval.callback ev) g rule)
          return target)) ∧
    ∀ name specs, o = .defineRuleset name specs →
      (p.indexed n (.argument 0)).map (·.1) = (List.range args.length).map .argument ∧
      ∃ rules, instantiateAll specs args = .ok rules ∧ MakesAll specs args rules ∧
        Step.defineRuleset name specs args = (do
          Step.report .debug "ruleset defined" fun _ =>
            [("ruleset", name), ("rules", toString rules.length)]
          Step.modifySession fun st =>
            { st with rulesets := st.rulesets.define ⟨name, rules⟩ }
          return .nil) := by
  have hlength := Step.length_of_nodes hargs
  have hcounted {count : Nat} (hshape : o.shape.indexed = some (.argument 0))
      (hcount : o.indexedCount = some count) :
      args.length = count ∧ (∀ spec ∈ o.ruleSpecs, spec.check = .ok ()) ∧
        (p.indexed n (.argument 0)).map (·.1) =
          (List.range args.length).map .argument := by
    obtain ⟨hroles, hchecks⟩ := Program.indexed_of_valid hvalid ho hshape hcount
    have htotal : args.length = count := by
      rw [hlength, ← List.length_map (·.1), hroles, List.length_map, List.length_range]
    exact ⟨htotal, hchecks, htotal ▸ hroles⟩
  refine ⟨?_, ?_⟩
  · rintro spec rfl
    obtain ⟨htotal, hchecks, hroles⟩ := hcounted rfl rfl
    obtain ⟨rule, hrule, hmakes⟩ := instantiate_of_check (hchecks spec List.mem_cons_self) htotal
    refine ⟨hroles, rule, hrule, hmakes, fun target => ?_⟩
    unfold Step.addRule
    rw [hrule]
    rfl
  · rintro name specs rfl
    obtain ⟨htotal, hchecks, hroles⟩ := hcounted rfl rfl
    rw [← List.foldl_map, ← List.sum_eq_foldl] at htotal
    change ∀ spec ∈ specs, spec.check = .ok () at hchecks
    obtain ⟨rules, hrules, hall⟩ := instantiateAll_of_check hchecks htotal
    refine ⟨hroles, rules, hrules, hall, ?_⟩
    unfold Step.defineRuleset
    rw [hrules]
    rfl

/-! ### A ruleset with a conditional -/

/-- A program that defines a ruleset of a predicate and a conditional with two branches, of four
arguments. -/
def Program.twoRules : Program :=
  ⟨"rules",
    ⟨#[⟨some ⟨.literal (.int 1), 0, none⟩, [], [0]⟩, ⟨some ⟨.literal (.int 2), 0, none⟩, [], [1]⟩,
        ⟨some ⟨.literal (.int 3), 0, none⟩, [], [2]⟩, ⟨some ⟨.literal (.int 4), 0, none⟩, [], [3]⟩,
        ⟨some ⟨.defineRuleset "r"
            [.predicate "even", .conditionalElse (.custom "half") (.lookup .nil)], 0, none⟩,
          [3, 2, 1, 0], []⟩],
      #[some ⟨4, 0, .argument 0⟩, some ⟨4, 1, .argument 1⟩, some ⟨4, 2, .argument 2⟩,
        some ⟨4, 3, .argument 3⟩], [], []⟩,
    [(0, ⟨0, mainName, [], some 4, none⟩)], 1⟩

/-- The predicate gets the first argument, and the conditional the other three: one for its test,
and one for each of its branches. -/
theorem twoRules_made : Program.twoRules.validate = .ok [] ∧
    Step.family (Eval.eval 1) ⟨0, .twoRules⟩ 4 (.argument 0) 0
        (.evaluator .default .silent noNatives) =
      some (.ok (.ok [.int 1, .int 2, .int 3, .int 4]), .evaluator .default .silent noNatives) ∧
    RuleSpec.MakesAll [.predicate "even", .conditionalElse (.custom "half") (.lookup .nil)]
      [.int 1, .int 2, .int 3, .int 4]
      [.validate (.predicate "even" (.int 1)),
        .conditional (.int 2) (.custom "half" (.int 3)) (some (.lookup (.int 4) .nil))] := by
  have hvalid : Program.twoRules.validate = .ok [] := by cbv
  have hop : Program.twoRules.op? 4 = some (.defineRuleset "r"
      [.predicate "even", .conditionalElse (.custom "half") (.lookup .nil)]) := by cbv
  have hargs : Step.family (Eval.eval 1) ⟨0, .twoRules⟩ 4 (.argument 0) 0
        (.evaluator .default .silent noNatives) =
      some (.ok (.ok [.int 1, .int 2, .int 3, .int 4]), .evaluator .default .silent noNatives) := by
    cbv
  obtain ⟨-, hset⟩ := rules_made_of_arguments hvalid hop hargs
  obtain ⟨-, rules, hrules, hall, -⟩ := hset _ _ rfl
  cases hrules
  exact ⟨hvalid, hargs, hall⟩

end GraphLang
