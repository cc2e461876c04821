import Mathlib.Order.Bounds.Basic
import GraphMeasures.Proofs.Partition.Sizes

/-!
# GraphMeasures — how far the bound is from the subsets

The bound of a partition grows with the numbers that nodes are given and never goes back:
it is the least one above all of them, past ones included, but that nothing is above the
largest index (`isLUB_upperBound`). So it covers the subsets of all nodes, and it is as
close to them as can be if no larger number was given before.

* `Exact` — the bound is one past the largest number in use.
* `upperBound_moveAll` — what holds of the bound in every state that moves can reach.
-/

namespace GraphMeasures.Partition

variable {p start : Partition} {n : Nat} {moves : List (Nat × Nat)}

/-- The bound is one past the largest number in use, or zero if none is. -/
structure Exact (p : Partition) : Prop where
  none : (∀ node, p.subsetOf node = none) → p.upperBound = 0
  greatest : ∀ largest, IsGreatest {subset | ∃ node, p.subsetOf node = some subset} largest →
    p.upperBound = largest + 1

/-! ## Numbers that were given -/

/-- A node had this number to start with, or an accepted move gave it to one. -/
def Given (n : Nat) (start : Partition) (moves : List (Nat × Nat)) (subset : Nat) : Prop :=
  (∃ node, start.subsetOf node = some subset) ∨ ∃ node, (node, subset) ∈ accepted n moves

/-- Before any move there are only the numbers that nodes have to start with. -/
theorem given_nil {subset : Nat} :
    Given n start [] subset ↔ ∃ node, start.subsetOf node = some subset := by
  simp [Given, accepted]

/-- An accepted move gives one more number, that of its subset, and takes none
away: a number that was given stays given when its last node leaves. -/
theorem given_concat_of_lt {move : Nat × Nat} (hmove : move.1 < n) {subset : Nat} :
    Given n start (moves ++ [move]) subset ↔ subset = move.2 ∨ Given n start moves subset := by
  have haccepted : accepted n (moves ++ [move]) = accepted n moves ++ [move] := by
    rw [accepted_append, accepted_cons_of_lt hmove]
    rfl
  have hnode : (∃ node, (node, subset) = move) ↔ subset = move.2 := by
    refine ⟨?_, fun h => ⟨move.1, by rw [h]⟩⟩
    rintro ⟨node, rfl⟩
    rfl
  simp only [Given, haccepted, List.mem_append, List.mem_singleton, exists_or, hnode]
  rw [← or_assoc, or_comm]

/-- A move that is refused gives none. -/
theorem given_concat_of_ge {move : Nat × Nat} (hmove : n ≤ move.1) {subset : Nat} :
    Given n start (moves ++ [move]) subset ↔ Given n start moves subset := by
  have haccepted : accepted n (moves ++ [move]) = accepted n moves := by
    rw [accepted_append, accepted_cons_of_ge hmove]
    exact List.append_nil _
  rw [Given, Given, haccepted]

/-- What a node has was given to it: by the last accepted move of the node, or
from the start. -/
theorem given_of_subsetOf (hsize : start.size = n) {node subset : Nat}
    (h : (start.moveAll moves).subsetOf node = some subset) : Given n start moves subset := by
  rw [subsetOf_moveAll, hsize] at h
  rcases Option.or_eq_some_iff.1 h with hlast | ⟨-, hstart⟩
  · exact Or.inr ⟨node, List.mem_reverse.1 (Conversion.mem_of_lookup hlast)⟩
  · exact Or.inl ⟨node, hstart⟩

/-- A node that was given a number has one for good. It may be another one by
now, since later moves replace it. -/
theorem Given.exists_subsetOf (hsize : start.size = n) {subset : Nat}
    (h : Given n start moves subset) :
    ∃ node last, (start.moveAll moves).subsetOf node = some last := by
  simp only [subsetOf_moveAll, hsize]
  rcases h with ⟨node, hnode⟩ | ⟨node, hmove⟩
  · refine ⟨node, (lastPlace n moves node).getD subset, ?_⟩
    rw [hnode]
    cases lastPlace n moves node <;> rfl
  · obtain ⟨last, hlast⟩ := Conversion.exists_lookup (List.mem_reverse.2 hmove)
    exact ⟨node, last, by rw [show lastPlace n moves node = some last from hlast]; rfl⟩

/-! ## The bound -/

/-- At the start the bound is as close to the numbers as it can be: zero where
no node has a subset, and one past the last node where every node has its
own. -/
theorem isLUB_upperBound_start (hstart : start = unassigned n ∨ start = singletons n)
    (hn : n ≤ Index.top) :
    IsLUB (Index.next '' {subset | ∃ node, start.subsetOf node = some subset})
      start.upperBound := by
  rcases hstart with rfl | rfl
  · simp only [subsetOf_unassigned, reduceCtorEq, exists_false, Set.ofPred_false, Set.image_empty]
    exact isLUB_empty
  · constructor
    · rintro _ ⟨subset, ⟨node, hnode⟩, rfl⟩
      exact Nat.le_trans (Nat.min_le_left _ _) ((bounded_singletons n).lt_upperBound _ _ hnode)
    · intro bound hbound
      -- the last node has the largest number
      rcases Nat.eq_zero_or_pos n with rfl | hpos
      · exact Nat.zero_le bound
      · have hlast : (singletons n).subsetOf (n - 1) = some (n - 1) := by
          rw [subsetOf_singletons, if_pos (by omega)]
        have hnext : Index.next (n - 1) ≤ bound := hbound ⟨n - 1, ⟨n - 1, hlast⟩, rfl⟩
        rw [Index.next, Nat.sub_add_cancel hpos, Nat.min_eq_left hn] at hnext
        exact hnext

/-- **The bound remembers**: it is the least one that covers all numbers that
were given. The induction takes the last move off the list; an accepted one adds
its number to those that were given and raises the bound just as far. -/
theorem isLUB_upperBound (hstart : start = unassigned n ∨ start = singletons n)
    (hn : n ≤ Index.top) (moves : List (Nat × Nat)) :
    IsLUB (Index.next '' {subset | Given n start moves subset})
      (start.moveAll moves).upperBound := by
  have hsize : start.size = n := (bounded_start hstart).size_eq
  -- from the end: the last move adds one number to those given, or none if it is refused
  induction moves using List.reverseRecOn with
  | nil =>
    simp only [given_nil]
    exact isLUB_upperBound_start hstart hn
  | append_singleton moves move ih =>
    have hmoveAll : start.moveAll (moves ++ [move]) = (start.moveAll moves).move move :=
      List.foldl_append
    have hsizes : (start.moveAll moves).size = n := (size_moveAll start moves).trans hsize
    rw [hmoveAll]
    rcases Nat.lt_or_ge move.1 n with hlt | hge
    · have hset : {subset | Given n start (moves ++ [move]) subset} =
          insert move.2 {subset | Given n start moves subset} := by
        ext subset
        exact given_concat_of_lt hlt
      rw [hset, Set.image_insert_eq,
        upperBound_of_assign (assign_eq_move (hsizes.symm ▸ hlt)), max_comm]
      exact ih.insert _
    · simp only [given_concat_of_ge hge]
      rw [move_eq_self (hsizes.trans_le hge)]
      exact ih

/-- **Bounds cover their subsets.** In every state that moves can reach, the bound is zero
without subsets and else one past each of them, as far as indexes go. It is one past the
largest of them if no larger number has been given before; at the largest index, which
nothing is past, it is that index itself. -/
theorem upperBound_moveAll (hstart : start = unassigned n ∨ start = singletons n)
    (hn : n ≤ Index.top) (moves : List (Nat × Nat)) :
    let p := start.moveAll moves
    ((∀ node, p.subsetOf node = none) → p.upperBound = 0) ∧
      (∀ node subset, p.subsetOf node = some subset → Index.next subset ≤ p.upperBound) ∧
      ∀ largest, IsGreatest {subset | ∃ node, p.subsetOf node = some subset} largest →
        (∀ subset, Given n start moves subset → subset ≤ largest) →
        p.upperBound = Index.next largest ∧
          (largest < Index.top → p.upperBound = largest + 1) := by
  intro p
  have hsize : start.size = n := (bounded_start hstart).size_eq
  have hbound := isLUB_upperBound hstart hn moves
  have hcovers : ∀ node subset, p.subsetOf node = some subset →
      Index.next subset ≤ p.upperBound := fun node subset hsubset =>
    hbound.1 ⟨subset, given_of_subsetOf hsize hsubset, rfl⟩
  refine ⟨fun hnone => ?_, hcovers, fun largest hlargest hgiven => ?_⟩
  · -- nothing was ever given, so zero is enough
    refine Nat.le_zero.1 (hbound.2 ?_)
    rintro _ ⟨subset, hsubset, rfl⟩
    obtain ⟨node, last, hlast⟩ := Given.exists_subsetOf hsize hsubset
    rw [show (start.moveAll moves).subsetOf node = none from hnone node] at hlast
    cases hlast
  · -- numbers that nodes have left do not reach past the largest one either
    obtain ⟨node, hnode⟩ := hlargest.1
    have hnext : (start.moveAll moves).upperBound = Index.next largest := by
      refine Nat.le_antisymm (hbound.2 ?_) (hcovers node largest hnode)
      rintro _ ⟨subset, hsubset, rfl⟩
      have hle := hgiven subset hsubset
      unfold Index.next
      omega
    exact ⟨hnext, fun hlt => hnext.trans (Nat.min_eq_left hlt)⟩

/-- Of four moves one is refused, and the others leave two nodes in the largest
subset. -/
theorem upperBound_moveAll_together :
    let moves := [(0, 7), (2, 0), (9, 40), (1, 7)]
    let p := (singletons 3).moveAll moves
    3 ≤ Index.top ∧ IsGreatest {subset | ∃ node, p.subsetOf node = some subset} 7 ∧
      (∀ subset, Given 3 (singletons 3) moves subset → subset ≤ 7) ∧
      p.upperBound = 8 := by
  intro moves p
  have hn : 3 ≤ Index.top := by decide
  have hp : p = ⟨#[some 7, some 7, some 0], 8⟩ := by decide +kernel
  have hgreatest : IsGreatest {subset | ∃ node, p.subsetOf node = some subset} 7 := by
    -- the places are 7, 7 and 0
    rw [hp]
    refine ⟨⟨0, rfl⟩, ?_⟩
    rintro subset ⟨node, hnode⟩
    have hslots : ∀ slot ∈ #[some 7, some 7, some 0], ∀ subset ∈ slot, subset ≤ 7 := by decide
    exact hslots _ (Array.mem_of_getElem? (Option.join_eq_some_iff.1 hnode)) subset rfl
  have hgiven : ∀ subset, Given 3 (singletons 3) moves subset → subset ≤ 7 := by
    rintro subset (⟨node, hnode⟩ | ⟨node, hmove⟩)
    · have hlt : subset < 3 := (bounded_singletons 3).lt_upperBound node subset hnode
      omega
    · have hmoves : ∀ move ∈ accepted 3 moves, move.2 ≤ 7 := by decide
      exact hmoves _ hmove
  exact ⟨hn, hgreatest, hgiven,
    ((upperBound_moveAll (Or.inr rfl) hn moves).2.2 7 hgreatest hgiven).2 (by decide)⟩

/-- **The bound is not exact in every state.** A node that comes back from a
subset leaves the bound behind, where no node is any longer. At the largest
index the bound is not one past the subset either, but there nothing could
be. -/
theorem not_exact_moveAll :
    ¬ ((unassigned 2).moveAll [(0, 5), (0, 0)]).Exact ∧
      ¬ ((unassigned 2).moveAll [(0, Index.top)]).Exact := by
  -- with one node in a subset the bound would have to be one past this subset
  have hsingle : ∀ subset bound, (⟨#[some subset, none], bound⟩ : Partition).Exact →
      bound = subset + 1 := by
    intro subset bound h
    refine h.greatest subset ⟨⟨0, rfl⟩, ?_⟩
    rintro other ⟨node, hnode⟩
    obtain _ | _ | node := node
    · exact (Option.some.inj hnode).ge
    · cases hnode
    · exact absurd hnode (by simp [subsetOf])
  constructor
  · have hback : (unassigned 2).moveAll [(0, 5), (0, 0)] = ⟨#[some 0, none], 6⟩ := by
      decide +kernel
    rw [hback]
    exact fun h => absurd (hsingle _ _ h) (by decide)
  · have htop : (unassigned 2).moveAll [(0, Index.top)] =
        ⟨#[some Index.top, none], Index.top⟩ := by decide +kernel
    rw [htop]
    exact fun h => absurd (hsingle _ _ h) (by decide)

end GraphMeasures.Partition
