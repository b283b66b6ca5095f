import GraphLang.Eval.Node
import Std.Internal.Do.WP.Lemmas

/-!
# How actions run

An action takes a world to a result and a world, or runs out of fuel. The equations here run
sequences, attempts and the primitive actions, so that later proofs never look into the layers
that actions are made of.
-/

namespace GraphLang

/-- The world of an evaluator. -/
abbrev Machine := World Session

namespace World

variable {σ : Type}

/-- The world after an event was reported. -/
def noted (w : World σ) (level : Level) (target message : String)
    (fields : Store → List (String × String)) : World σ :=
  if w.verbosity.keeps level then
    { w with events := w.events.push ⟨level, target, message, fields w.store⟩ }
  else w

@[simp] theorem noted_control (w : World σ) (level : Level) (target message : String)
    (fields : Store → List (String × String)) :
    (w.noted level target message fields).control = w.control := by
  unfold noted
  split <;> rfl

@[simp] theorem noted_store (w : World σ) (level : Level) (target message : String)
    (fields : Store → List (String × String)) :
    (w.noted level target message fields).store = w.store := by
  unfold noted
  split <;> rfl

@[simp] theorem noted_natives (w : World σ) (level : Level) (target message : String)
    (fields : Store → List (String × String)) :
    (w.noted level target message fields).natives = w.natives := by
  unfold noted
  split <;> rfl

end World

namespace Act

variable {σ ε ε' α β : Type}

/-- A sequence goes on with the result of its first action, and ends where that fails. -/
theorem run_bind (a : Act σ ε α) (f : α → Act σ ε β) (w : World σ) :
    (a >>= f) w =
      match a w with
      | some (.ok x, v) => f x v
      | some (.error e, v) => some (.error e, v)
      | none => none := by
  change (a w >>= fun p => ExceptT.bindCont f p.1 p.2) = _
  cases h : a w with
  | none => rfl
  | some p =>
    obtain ⟨r, v⟩ := p
    cases r <;> rfl

@[simp] theorem run_pure (x : α) (w : World σ) :
    (pure x : Act σ ε α) w = some (.ok x, w) := rfl

@[simp] theorem run_throw (e : ε) (w : World σ) :
    (throw e : Act σ ε α) w = some (.error e, w) := rfl

@[simp] theorem run_outOfFuel (w : World σ) : (outOfFuel : Act σ ε α) w = none := rfl

@[simp] theorem run_get (w : World σ) : (get : Act σ ε (World σ)) w = some (.ok w, w) := rfl

@[simp] theorem run_modify (f : World σ → World σ) (w : World σ) :
    (modify f : Act σ ε PUnit) w = some (.ok ⟨⟩, f w) := rfl

@[simp] theorem run_modifyGet (f : World σ → α × World σ) (w : World σ) :
    (modifyGet f : Act σ ε α) w = some (.ok (f w).1, (f w).2) := rfl

@[simp] theorem run_store (w : World σ) : (store : Act σ ε Store) w = some (.ok w.store, w) := rfl

@[simp] theorem run_container (g : GraphId) (w : World σ) :
    (container g : Act σ ε Container) w = some (.ok (w.store.get g), w) := rfl

@[simp] theorem run_setStore (s : Store) (w : World σ) :
    (setStore s : Act σ ε Unit) w = some (.ok (), { w with store := s }) := rfl

@[simp] theorem run_onStore (step : Store → α × Store) (w : World σ) :
    (onStore step : Act σ ε α) w =
      some (.ok (step w.store).1, { w with store := (step w.store).2 }) := rfl

@[simp] theorem run_report (level : Level) (target message : String)
    (fields : Store → List (String × String)) (w : World σ) :
    (report level target message fields : Act σ ε Unit) w =
      some (.ok (), w.noted level target message fields) := rfl

/-- A result is changed in its last step. -/
theorem run_map (f : α → β) (a : Act σ ε α) (w : World σ) :
    (f <$> a) w = (a w).map fun p => (p.1.map f, p.2) := by
  rw [map_eq_pure_bind, run_bind]
  cases a w with
  | none => rfl
  | some p =>
    obtain ⟨r, v⟩ := p
    cases r <;> rfl

/-- An attempt never fails: it gives what the action came to. -/
theorem run_attempt (a : Act σ ε α) (w : World σ) :
    (attempt a : Act σ ε' (Except ε α)) w = (a w).map fun p => (.ok p.1, p.2) := rfl

end Act

end GraphLang
