import Std.Data.HashSet.Basic

/-!
# Reachability

A search from a list of starting points along a successor function. Every step
meets one new point, so the number of points bounds the number of steps.

A search that keeps a state of its own is made of turns, and comes to an end
since every turn but the last one spends something.
-/

namespace GraphLang

variable {ι : Type} [BEq ι] [Hashable ι]

/-- Adds to `seen` what can be reached from the points on the stack without passing through `seen`.
Each unit of fuel pays for one new point. -/
def reach (next : ι → List ι) : Nat → List ι → Std.HashSet ι → Std.HashSet ι
  | 0, _, seen => seen
  | fuel + 1, stack, seen =>
    match stack.dropWhile seen.contains with
    | [] => seen
    | x :: rest => reach next fuel (next x ++ rest) (seen.insert x)

/-- The points that are allowed and can be reached from the stack without passing through `seen`, in
the order in which a depth-first search meets them. -/
def preorder (next : ι → List ι) (allowed : ι → Bool) : Nat → List ι → Std.HashSet ι → List ι
  | 0, _, _ => []
  | fuel + 1, stack, seen =>
    match stack.dropWhile fun x => seen.contains x || !allowed x with
    | [] => []
    | x :: rest => x :: preorder next allowed fuel (next x ++ rest) (seen.insert x)

/-! ### Turns -/

/-- What a turn of a search comes to. -/
inductive Turn (σ : Type) where
  /-- The search is over, with its answer. -/
  | over (found : Bool)
  /-- The search goes on from here. -/
  | on (state : σ)

/-- A search that is made of turns, and spends something at every turn that is not its last one. -/
structure Search (σ : Type) where
  /-- One turn. -/
  turn : σ → Turn σ
  /-- What is left to spend. -/
  budget : σ → Nat
  /-- Going on costs something. -/
  spends : ∀ {s t}, turn s = .on t → budget t < budget s

/-- Takes turns until the search is over. -/
def Search.run {σ : Type} (search : Search σ) (s : σ) : Bool :=
  match _h : search.turn s with
  | .over found => found
  | .on t => search.run t
termination_by search.budget s
decreasing_by exact search.spends _h

end GraphLang
