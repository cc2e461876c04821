import GraphMeasures.Partition

/-!
# GraphMeasures — what an assignment changes

* `Partition.subsetOf_of_assign` — an assignment moves one node and leaves all
  others where they are.
* `Partition.upperBound_of_assign` — the bound grows to cover the subset.
* `Partition.ensureTotal_eq_ok_iff` — a partition passes for a graph when it has
  its nodes and leaves none out.
-/

namespace GraphMeasures.Partition

@[simp]
theorem size_unassigned (nodeCount : Nat) : (unassigned nodeCount).size = nodeCount := by
  simp [unassigned, size]

@[simp]
theorem size_singletons (nodeCount : Nat) : (singletons nodeCount).size = nodeCount := by
  simp [singletons, size]

@[simp]
theorem subsetOf_unassigned (nodeCount node : Nat) :
    (unassigned nodeCount).subsetOf node = none := by
  simp only [unassigned, subsetOf, Array.getElem?_replicate]
  split <;> rfl

theorem subsetOf_singletons (nodeCount node : Nat) :
    (singletons nodeCount).subsetOf node = if node < nodeCount then some node else none := by
  simp only [singletons, subsetOf, Array.getElem?_map, Array.getElem?_range]
  split <;> rfl

/-- A node without a place in the partition has no subset. -/
theorem subsetOf_eq_none {p : Partition} {node : Nat} (h : p.size ≤ node) :
    p.subsetOf node = none := by
  simp [subsetOf, Array.getElem?_eq_none h]

/-! ## Assigning -/

/-- A node is moved exactly if it has a place, whatever subset it is moved to.
The bound grows with the subset but never gets smaller. -/
theorem assign_eq_ok_iff {p q : Partition} {node subset : Nat} :
    p.assign node subset = .ok q ↔
      node < p.size ∧
        q = ⟨p.subsets.setIfInBounds node (some subset), max p.upperBound (Index.next subset)⟩ := by
  unfold assign
  split
  next h => simp [h, eq_comm]
  next h => simp [h]

/-- The only error is that of a node without a place; it says which node, and
how many places there are. -/
theorem assign_eq_error_iff {p : Partition} {node subset : Nat} {e : EngineError} :
    p.assign node subset = .error e ↔ p.size ≤ node ∧ e = .invalidNodeId node p.size := by
  unfold assign
  split
  next h => simp [Nat.not_le.2 h]
  next h => simp [Nat.not_lt.1 h, eq_comm]

/-- Moving nodes makes no places and takes none away. -/
theorem size_of_assign {p q : Partition} {node subset : Nat} (h : p.assign node subset = .ok q) :
    q.size = p.size := by
  obtain ⟨_, rfl⟩ := assign_eq_ok_iff.1 h
  simp [size]

/-- The node is in its new subset and all other nodes are where they were.
Whether the node had a subset before does not matter: an assignment is also a
move. -/
theorem subsetOf_of_assign {p q : Partition} {node subset : Nat}
    (h : p.assign node subset = .ok q) (other : Nat) :
    q.subsetOf other = if other = node then some subset else p.subsetOf other := by
  obtain ⟨hlt, rfl⟩ := assign_eq_ok_iff.1 h
  simp only [subsetOf, Array.getElem?_setIfInBounds]
  by_cases ho : other = node
  · subst ho
    have hlt : other < p.subsets.size := hlt
    simp [hlt]
  · simp [ho, Ne.symm ho]

/-- The bound is raised to one past the subset, if it is not there already. One
past the largest index is this index itself. -/
theorem upperBound_of_assign {p q : Partition} {node subset : Nat}
    (h : p.assign node subset = .ok q) :
    q.upperBound = max p.upperBound (Index.next subset) := by
  obtain ⟨_, rfl⟩ := assign_eq_ok_iff.1 h
  rfl

/-! ## Total partitions -/

/-- A partition is total for so many nodes exactly if it has as many places and
all of them are taken. The number of places is compared first, so a node that is
not there is never asked for its subset. -/
theorem ensureTotal_eq_ok_iff {p : Partition} {nodeCount : Nat} :
    p.ensureTotal nodeCount = .ok () ↔
      p.size = nodeCount ∧ ∀ node < nodeCount, (p.subsetOf node).isSome := by
  unfold ensureTotal
  split
  next h => simp [h]
  next h =>
    have h : p.size = nodeCount := Decidable.not_not.1 h
    subst h
    split
    next node hn =>
      obtain ⟨hlt, hnone, _⟩ := Array.findIdx?_eq_some_iff_getElem.1 hn
      simp only [reduceCtorEq, true_and, false_iff, Classical.not_forall]
      refine ⟨node, hlt, ?_⟩
      simpa [subsetOf, Array.getElem?_eq_getElem hlt] using hnone
    next hn =>
      rw [Array.findIdx?_eq_none_iff] at hn
      simp only [true_and, true_iff]
      intro node hlt
      have hlt : node < p.subsets.size := hlt
      have hsome := hn p.subsets[node] (Array.getElem_mem hlt)
      simpa [subsetOf, Array.getElem?_eq_getElem hlt, Option.isSome_iff_ne_none] using hsome

end GraphMeasures.Partition
