import GraphMeasures.OperationError

/-!
# GraphMeasures — scores back on the rows of a bundle

A graph numbers its edges in an order of its own. `toAttribute` takes scores by
edge id and gives every row of a bundle the score of the edge that joins its
ends. An edge goes to one row only, so rows with the same ends are refused.
-/

namespace GraphMeasures.Reconciliation

/-- The scores given to rows so far, and for every edge id the row that has
taken it. -/
structure Matching where
  owners : Array (Option Nat)
  values : Array Float

/-- Gives the row with some position the score of its edge. -/
def matchRow (g : Graph Float) (scores : Array Float) (matching : Matching) (position : Nat)
    (row : Nat × Nat) : Except OperationError Matching := do
  let id ← (g.edgeId row.1 row.2).mapError .engine
  -- there are at least as many scores as owners, so the second lookup cannot fail alone
  match matching.owners[id]?, scores[id]? with
  | some (some first), _ => throw (.ambiguousEdge first position row.1 row.2)
  | some none, some score =>
    return ⟨matching.owners.setIfInBounds id (some position), matching.values.push score⟩
  | _, _ => throw (.scoreLength scores.size g.edgeIdBound)

/-- Gives rows their scores, the first of which has position `position`. -/
def matchRows (g : Graph Float) (scores : Array Float) (matching : Matching) (position : Nat) :
    List (Nat × Nat) → Except OperationError Matching
  | [] => .ok matching
  | row :: rows => do
    let matching ← matchRow g scores matching position row
    matchRows g scores matching (position + 1) rows

/-- The attribute of a bundle's rows that scores by edge id amount to. -/
def toAttribute (g : Graph Float) (edges : EdgeBundle) (scores : Array Float) :
    Except OperationError Attribute := do
  let index ← g.requireIndex.mapError .engine
  if scores.size < index.bound then throw (.scoreLength scores.size index.bound)
  let matching ← matchRows g scores ⟨Array.replicate index.bound none, #[]⟩ 0 edges.rows.toList
  return .ofValues matching.values

end GraphMeasures.Reconciliation
