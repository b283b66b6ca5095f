import GraphLang.Proofs.Json.Reading
import GraphLang.Proofs.Program.Construction

/-!
# Programs that are read

The numbers in a program that was read fit into their words, part by part, its functions stand in
the order of their numbers, and its graph is made of the slots that were read.
-/

namespace GraphLang

open Json

variable {origin : Origin} {d : Json}

/-! ### Rules, roles and operations -/

theorem RuleSpec.fits_of_decodeWithin (fuel : Nat) (d : Json) :
    Ensures Fits (decodeWithin origin fuel d) := by
  induction fuel generalizing d with
  | zero => exact ensures_none
  | succ fuel ih =>
    unfold decodeWithin
    refine ensures_bind fun ⟨name, c⟩ _ => ?_
    split
    case h_1 => exact ensures_bind fun d _ => ensures_map fun n hn => ensures_nat _ d n hn
    case h_9 => exact ensures_bind fun d _ => ensures_map fun n hn => ensures_nat _ d n hn
    case h_15 =>
      refine ensures_bind fun fields _ => ?_
      split
      · refine ensures_bind fun d _ => ensures_bind fun t ht => ?_
        split
        · exact ensures_some (ih d t ht)
        · exact ensures_some (ih d t ht)
        · exact ensures_bind fun f hf => ensures_some ⟨ih d t ht, ih _ f hf⟩
      · exact ensures_none
    -- No other description holds a number.
    all_goals repeat' first
      | exact ensures_unit trivial
      | exact ensures_map fun _ _ => trivial
      | exact ensures_some trivial
      | exact ensures_none
      | refine ensures_bind fun _ _ => ?_
      | split

theorem RuleSpec.fits_of_decode (d : Json) : Ensures Fits (decode origin d) :=
  fits_of_decodeWithin d.depth d

theorem Op.fits_of_decode (d : Json) : Ensures Fits (decode origin d) := by
  unfold decode
  refine ensures_bind fun ⟨name, c⟩ _ => ?_
  split
  case h_11 =>
    refine ensures_bind fun fields _ => ?_
    split
    · exact ensures_bind fun d _ => ensures_map fun f hf => ensures_nat _ d f hf
    · exact ensures_none
  case h_25 =>
    refine ensures_bind fun fields _ => ?_
    split
    · exact ensures_bind fun d _ => ensures_map fun rule => RuleSpec.fits_of_decode d rule
    · exact ensures_none
  case h_26 =>
    refine ensures_bind fun fields _ => ?_
    split
    · exact ensures_bind fun _ _ => ensures_bind fun _ _ => ensures_bind fun d _ =>
        ensures_bind fun rules hrules =>
          ensures_some (ensures_list RuleSpec.fits_of_decode d rules hrules)
    · exact ensures_none
  -- No other operation holds a number.
  all_goals repeat' first
    | exact ensures_unit trivial
    | exact ensures_map fun _ _ => trivial
    | exact ensures_some trivial
    | exact ensures_none
    | refine ensures_bind fun _ _ => ?_
    | split

theorem Role.fits_of_decode (d : Json) : Ensures Fits (decode d) := by
  have hposition {family : Nat → Role} (hfamily : ∀ i, (family i).position? = some i) (d : Json) :
      Ensures Fits (d.toNat16?.map family) := by
    refine ensures_map fun i hi j hj => ?_
    rw [hfamily] at hj
    cases hj
    exact ensures_nat _ d i hi
  unfold decode
  refine ensures_bind fun ⟨name, c⟩ _ => ?_
  split
  case h_5 => exact ensures_bind fun d _ => hposition (fun _ => rfl) d
  case h_13 => exact ensures_bind fun d _ => hposition (fun _ => rfl) d
  case h_14 => exact ensures_bind fun d _ => hposition (fun _ => rfl) d
  case h_17 => exact ensures_none
  all_goals exact ensures_unit nofun

/-! ### Nodes, functions and tables -/

theorem Location.fits_of_decode (d : Json) : Ensures Fits (decode d) := by
  unfold decode
  refine ensures_bind fun fields _ => ?_
  split
  · exact ensures_bind fun d _ => ensures_bind fun line hline => ensures_bind fun d' _ =>
      ensures_bind fun column hcolumn =>
        ensures_some ⟨ensures_nat _ d line hline, ensures_nat _ d' column hcolumn⟩
  · exact ensures_none

theorem Node.fits_of_decode (d : Json) : Ensures Fits (decode d) := by
  unfold decode
  refine ensures_bind fun fields _ => ?_
  split
  · exact ensures_bind fun d _ => ensures_bind fun o ho => ensures_bind fun d' _ =>
      ensures_bind fun owner howner => ensures_bind fun location hlocation =>
        ensures_some ⟨Op.fits_of_decode d o ho, ensures_nat _ d' owner howner,
          ensures_optionalField Location.fits_of_decode _ location hlocation⟩
  · exact ensures_none

theorem FunctionDef.fits_of_decode (d : Json) : Ensures Fits (decode d) := by
  unfold decode
  refine ensures_bind fun fields _ => ?_
  split
  · exact ensures_bind fun d _ => ensures_bind fun id hid => ensures_bind fun _ _ =>
      ensures_bind fun _ _ => ensures_bind fun _ _ => ensures_bind fun _ _ =>
        ensures_bind fun body hbody => ensures_bind fun parent hparent => ensures_some ⟨ensures_nat _ d id hid,
          ensures_optionalField (ensures_nat _) _ body hbody,
          ensures_optionalField (ensures_nat _) _ parent hparent⟩
  · exact ensures_none

theorem FunctionTable.ensures_keyNumber (key : String) :
    Ensures (· < UInt32.size) (keyNumber? key) := by
  unfold keyNumber?
  split
  · split_ifs
    · exact ensures_nat _ _
    · exact ensures_none
  · exact ensures_none

/-- The functions of a table that is read stand in the order of their numbers. -/
theorem FunctionTable.ensures_decode (d : Json) :
    Ensures (fun t => t.Ascending ∧ ∀ x ∈ t, x.1 < UInt32.size ∧ x.2.Fits) (decode d) := by
  unfold decode
  split
  · rename_i members
    have hfold : ∀ t : FunctionTable, (t.Ascending ∧ ∀ x ∈ t, x.1 < UInt32.size ∧ x.2.Fits) →
        Ensures (fun t => t.Ascending ∧ ∀ x ∈ t, x.1 < UInt32.size ∧ x.2.Fits)
          (members.foldlM readMember t) := by
      induction members with
      | nil => exact fun t ht => ensures_some ht
      | cons m members ih =>
        intro t ht
        rw [List.foldlM_cons]
        refine ensures_bind fun t' ht' => ih t' ?_
        obtain ⟨f, hf, ht'⟩ := Option.bind_eq_some_iff.1 ht'
        obtain ⟨def', hdef, ht'⟩ := Option.bind_eq_some_iff.1 ht'
        cases ht'
        refine ⟨ht.1.insert f def', fun x hx => ?_⟩
        rcases mem_insert hx with rfl | hx
        · exact ⟨ensures_keyNumber m.1 f hf, FunctionDef.fits_of_decode m.2 def' hdef⟩
        · exact ht.2 x hx
    exact hfold [] ⟨List.Pairwise.nil, List.forall_mem_nil _⟩
  · exact ensures_none

/-! ### Programs -/

/-- What holds of every program that was read. -/
structure Program.WasRead (p : Program) : Prop where
  /-- The graph is made of slots, and the numbers in them fit. -/
  slots : ∃ nodes edges, SlotGraph.ofSlots nodes edges = some p.graph ∧
    (∀ a : Node, some a ∈ nodes → a.Fits) ∧ ∀ edge : Edge Role, some edge ∈ edges → edge.weight.Fits
  /-- The functions stand in the order of their numbers. -/
  ascending : p.functions.Ascending
  /-- The numbers of functions fit, and so do those in functions. -/
  functions : ∀ x ∈ p.functions, x.1 < UInt32.size ∧ x.2.Fits
  /-- The number of the next function fits. -/
  next : p.nextFunction < UInt32.size

theorem Program.wasRead_of_decode (d : Json) : Ensures WasRead (decode d) := by
  unfold decode
  refine ensures_bind fun fields _ => ?_
  split
  · refine ensures_bind fun _ _ => ensures_bind fun _ _ => ensures_bind fun _ _ =>
      ensures_bind fun graph hgraph => ensures_bind fun _ _ => ensures_bind fun functions hfunctions =>
        ensures_bind fun _ _ => ensures_bind fun next hnext => ensures_some ?_
    obtain ⟨hascending, hfits⟩ := FunctionTable.ensures_decode _ functions hfunctions
    exact ⟨SlotGraph.ensures_decode Node.fits_of_decode Role.fits_of_decode _ graph hgraph, hascending,
      hfits, ensures_nat _ _ next hnext⟩
  · exact ensures_none

theorem Program.wasRead_of_parse {text : String} {p : Program}
    (h : Program.parse text = some p) : p.WasRead := by
  obtain ⟨d, -, hd⟩ := Option.bind_eq_some_iff.1 h
  exact wasRead_of_decode d p hd

end GraphLang
