import GraphLang.Rule.Mutation
import GraphLang.Text.Classes
import GraphLang.Text.Case

/-!
# Built-in rules

What the validations and transforms without callbacks decide. Nothing here changes a
container.
-/

namespace GraphLang

/-- How many members without incoming links a removal would make: those that only links from the
removed member lead to, counted once for each such link. -/
def orphanCount (c : Container) (node : Nat) : Nat :=
  ((c.edgesFrom node).filter fun view =>
    view.tie.label.isLink &&
      (c.edgesTo view.target).all fun incoming =>
        !incoming.tie.label.isLink || incoming.source == node).length

/-- Whether a change keeps a user graph from having several members without incoming links, and
from losing the last one to a link. -/
def checkSingleRoot (c : Container) (m : Mutation) : Except Rejection Unit :=
  match c.kind with
  | .user _ =>
    let roots := c.linkRoots
    match m with
    | .addMember _ none => if roots.isEmpty then .ok () else .error .secondRoot
    | .link _ target _ _ =>
      if (roots.filter (· != target)).isEmpty then .error .noRoot else .ok ()
    | .remove (.node node) =>
      let after := (roots.filter (· != node)).length + orphanCount c node
      if 1 < after then .error (.rootsAfter after) else .ok ()
    | _ => .ok ()
  | _ => .ok ()

/-- Whether a validation without a callback allows a change. -/
def Validation.check (v : Validation) (s : Store) (c : Container) (m : Mutation) :
    Except Rejection Unit :=
  match v with
  | .maxSize limit =>
    let after := c.size + (if m.grows c then 1 else 0)
    if limit < after then .error (.sizeAfter after) else .ok ()
  | .acyclic =>
    match m with
    | .link source target _ _ =>
      if source == target || c.linkPath target source then .error (.closesCycle source target)
      else .ok ()
    | _ => .ok ()
  | .singleRoot => checkSingleRoot c m
  | .homogeneous =>
    match m.incomingMember? with
    | none => .ok ()
    | some incoming =>
      let others := c.members.filter fun n => some n != m.replaced? c
      match (others.filterMap c.value?).head? with
      | none => .ok ()
      | some first =>
        if s.typeOf first == s.typeOf incoming then .ok ()
        else .error (.typeDiffers (s.typeOf first) (s.typeOf incoming))
  | .predicate .. => .ok ()

/-- Whether a validation without a callback holds of a container as it is. -/
def Validation.checkNow (v : Validation) (s : Store) (c : Container) : Except Rejection Unit :=
  match v with
  | .maxSize limit => if limit < c.size then .error (.sizeNow c.size) else .ok ()
  | .acyclic => if c.hasLinkCycle then .error .hasCycle else .ok ()
  | .singleRoot =>
    match c.kind with
    | .user _ =>
      let roots := c.linkRoots.length
      if 1 < roots then .error (.rootsNow roots) else .ok ()
    | _ => .ok ()
  | .homogeneous =>
    match c.memberValues.map s.typeOf with
    | [] => .ok ()
    | first :: rest =>
      match rest.find? (· != first) with
      | some other => .error (.typesDiffer first other)
      | none => .ok ()
  | .predicate .. => .ok ()

/-- A double rounded to so many decimal places. Where the scaled number is no double, the number
stays as it is. -/
def roundTo (digits : Nat) (x : Float) : Float :=
  let scale := Decimal.power 10.0 (min digits 308)
  let scaled := x * scale
  if scaled.isFinite then Decimal.roundHalfAway scaled / scale else x

/-- The result of a transform without a callback. A value of a type that the transform does not
speak about stays as it is. -/
def Transform.apply (r : Transform) (s : Store) (value : Value) : Except TransformError Value :=
  match r with
  | .noneToZero =>
    match value with
    | .nil => .ok (.int 0)
    | v => .ok v
  | .coalesce replacement =>
    match value with
    | .nil => .ok replacement
    | v => .ok v
  | .clamp min max =>
    match min.number?, max.number? with
    | some low, some high =>
      match value.number? with
      | some x => .ok (if x < low then min else if high < x then max else value)
      | none => .ok value
    | _, _ => .error .boundsNotNumbers
  | .round digits =>
    match value with
    | .float x => .ok (.float (roundTo digits x))
    | v => .ok v
  | .lowercase =>
    match value with
    | .str t => .ok (.str (Text.lowercase t))
    | v => .ok v
  | .uppercase =>
    match value with
    | .str t => .ok (.str (Text.uppercase t))
    | v => .ok v
  | .trim =>
    match value with
    | .str t => .ok (.str (Text.trim t))
    | v => .ok v
  | .lookup table default =>
    match table with
    | .graph g =>
      let c := s.get g
      match c.kind with
      | .map => .ok (((Key.ofValue? value).bind c.entry?).getD default)
      | _ => .error .tableOtherKind
    | other => .error (.tableNotMap (s.typeOf other))
  | .custom name _ => .error (.needsEvaluator name)

end GraphLang
