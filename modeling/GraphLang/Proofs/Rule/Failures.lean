import GraphLang.Rule.Mutation

/-!
# Failures of containers

Only a callback can end a change with an error of its own. What a container refuses by itself has
nothing to do with callbacks.
-/

namespace GraphLang

/-- The error has nothing to do with a callback. -/
def MutationError.Plain {ε : Type} : MutationError ε → Prop
  | .aborted _ | .transformRaised .. => False
  | _ => True

theorem MutationError.plain_ofContainer {ε : Type} (cause : ContainerError) :
    (ofContainer cause : MutationError ε).Plain := by
  cases cause <;> trivial

namespace Container

variable {ε α β : Type} {c : Container}

/-- Every failure is plain. -/
def Plainly (x : Except (MutationError ε) α) : Prop := ∀ e, x = .error e → e.Plain

theorem Plainly.bind {x : Except (MutationError ε) α} {f : α → Except (MutationError ε) β}
    (hx : Plainly x) (hf : ∀ a, Plainly (f a)) : Plainly (x >>= f) := by
  intro e h
  cases x with
  | error e' =>
    cases h
    exact hx e rfl
  | ok a => exact hf a e h

theorem plainly_ok (a : α) : Plainly (.ok a : Except (MutationError ε) α) := by
  intro e h
  cases h

theorem plainly_expectList : Plainly (c.expectList : Except (MutationError ε) Unit) := by
  unfold expectList
  split <;> rintro e ⟨⟩
  trivial

theorem plainly_expectMap : Plainly (c.expectMap : Except (MutationError ε) Unit) := by
  unfold expectMap
  split <;> rintro e ⟨⟩
  trivial

theorem plainly_expectUser : Plainly (c.expectUser : Except (MutationError ε) Unit) := by
  unfold expectUser
  split <;> rintro e ⟨⟩
  trivial

theorem plainly_nodeAt (i : Nat) : Plainly (c.nodeAt i : Except (MutationError ε) Nat) := by
  unfold nodeAt
  split <;> rintro e ⟨⟩
  trivial

theorem plainly_nodeUnder (k : Key) : Plainly (c.nodeUnder k : Except (MutationError ε) Nat) := by
  unfold nodeUnder
  split <;> rintro e ⟨⟩
  trivial

theorem plainly_expectMember (n : Nat) :
    Plainly (c.expectMember n : Except (MutationError ε) Unit) := by
  unfold expectMember
  split <;> rintro e ⟨⟩
  trivial

theorem plainly_preflight (m : Mutation) :
    Plainly (c.preflight m : Except (MutationError ε) Unit) := by
  cases m with
  | insert value => exact plainly_expectList
  | set i value =>
    exact plainly_expectList.bind fun _ => (plainly_nodeAt i).bind fun _ => plainly_ok _
  | put key value => exact plainly_expectMap
  | remove target =>
    cases target with
    | index i =>
      exact plainly_expectList.bind fun _ => (plainly_nodeAt i).bind fun _ => plainly_ok _
    | key k =>
      exact plainly_expectMap.bind fun _ => (plainly_nodeUnder k).bind fun _ => plainly_ok _
    | node n => exact plainly_expectUser.bind fun _ => plainly_expectMember n
  | addMember value parent =>
    cases parent with
    | none => exact plainly_expectUser.bind fun _ => plainly_ok _
    | some link => exact plainly_expectUser.bind fun _ => plainly_expectMember link.1
  | link source target name data =>
    exact plainly_expectUser.bind fun _ => (plainly_expectMember source).bind fun _ =>
      plainly_expectMember target

end Container

end GraphLang
