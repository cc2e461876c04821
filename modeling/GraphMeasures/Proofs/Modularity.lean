import Mathlib.Algebra.BigOperators.Group.Finset.Basic
import Mathlib.Algebra.BigOperators.Ring.Finset
import Mathlib.Tactic.Ring
import GraphMeasures.Proofs.Exact
import GraphMeasures.Proofs.Graph.History
import GraphMeasures.Proofs.Quality

/-!
# GraphMeasures — modularity by its definition

Modularity is defined over the edges of a graph, each of which is there once;
it is computed over the nodes, from lists in which an edge between two nodes of
an undirected graph stands twice and a loop once. In exact arithmetic the two are
the same.

* `Graph.sum_volume`, `Graph.sum_weightedDegree`, `Graph.sum_weightedInDegree` —
  the handshake: what the nodes of a set add up to counts every link once for each
  end that it has there.
* `Quality.modularity_ofLinks` — the measure in terms of the links.
* `Quality.modularity_of_bound_le` — with a subset that is not below the bound there
  are no sums, and no value.
* `Quality.modularity_newman` — the same for all graphs and partitions that can be
  reached.
-/

namespace GraphMeasures

open Link

namespace Link

/-- One for the nodes of a set. -/
def mark (nodes : Finset Nat) (node : Nat) : ℚ :=
  if node ∈ nodes then 1 else 0

/-- The weight of all links. -/
def total (links : List (Link ℚ)) : ℚ :=
  (links.map (·.weight)).sum

/-- The weight of the links that leave a set of nodes, or stay in it. -/
def weightFrom (links : List (Link ℚ)) (nodes : Finset Nat) : ℚ :=
  (links.map fun l => l.weight * mark nodes l.source).sum

/-- The weight of the links that enter a set of nodes, or stay in it. -/
def weightInto (links : List (Link ℚ)) (nodes : Finset Nat) : ℚ :=
  (links.map fun l => l.weight * mark nodes l.target).sum

/-- The weight of the links at a set of nodes, once for each end in the set. -/
def weightAt (links : List (Link ℚ)) (nodes : Finset Nat) : ℚ :=
  (links.map fun l => l.weight * (mark nodes l.source + mark nodes l.target)).sum

/-- The nodes of a set mark what the set marks, since a node is one of them at
most once. -/
theorem sum_singleton_mark (nodes : Finset Nat) (node : Nat) :
    ∑ v ∈ nodes, mark {v} node = mark nodes node := by
  simp only [mark, Finset.mem_singleton]
  exact Finset.sum_ite_eq nodes node fun _ => 1

/-- Sums over links and over nodes can be exchanged. The links are listed, with
repetitions, and the nodes are a set, so this is not yet said by a lemma on
sets. -/
theorem sum_links_comm (links : List (Link ℚ)) (nodes : Finset Nat) (f : Nat → Link ℚ → ℚ) :
    ∑ v ∈ nodes, (links.map (f v)).sum = (links.map fun l => ∑ v ∈ nodes, f v l).sum := by
  induction links with
  | nil => exact Finset.sum_const_zero
  | cons l links ih =>
    simp only [List.map_cons, List.sum_cons, Finset.sum_add_distrib, ih]

/-- What the nodes of a set have is what the set has. -/
theorem sum_weightFrom (links : List (Link ℚ)) (nodes : Finset Nat) :
    ∑ v ∈ nodes, weightFrom links {v} = weightFrom links nodes := by
  unfold weightFrom
  rw [sum_links_comm]
  refine congrArg List.sum (List.map_congr_left fun l _ => ?_)
  rw [← Finset.mul_sum, sum_singleton_mark]

/-- The same for the links that enter. -/
theorem sum_weightInto (links : List (Link ℚ)) (nodes : Finset Nat) :
    ∑ v ∈ nodes, weightInto links {v} = weightInto links nodes := by
  unfold weightInto
  rw [sum_links_comm]
  refine congrArg List.sum (List.map_congr_left fun l _ => ?_)
  rw [← Finset.mul_sum, sum_singleton_mark]

/-- The weight at a set is that of its links out of it and into it. A link that
stays inside is in both, so it counts twice. -/
theorem weightAt_eq_add (links : List (Link ℚ)) (nodes : Finset Nat) :
    weightAt links nodes = weightFrom links nodes + weightInto links nodes := by
  unfold weightAt weightFrom weightInto
  rw [← List.sum_map_add]
  refine congrArg List.sum (List.map_congr_left fun l _ => ?_)
  rw [mul_add]

/-- The same for the links at a set, by adding up those out of it and into
it. -/
theorem sum_weightAt (links : List (Link ℚ)) (nodes : Finset Nat) :
    ∑ v ∈ nodes, weightAt links {v} = weightAt links nodes := by
  simp only [weightAt_eq_add, Finset.sum_add_distrib, sum_weightFrom, sum_weightInto]

/-! A set without nodes has no weight, and a set with all ends has all of it. -/

/-- An edge is listed as its link is given, or turned round. -/
theorem listed_eq_or {W : Type} (l : Link W) (directed : Bool) :
    l.listed directed = l ∨ l.listed directed = ⟨l.target, l.source, l.weight⟩ := by
  unfold listed facing ends
  split
  · exact Or.inl rfl
  · exact Or.inr rfl

/-- A sum over some links as a sum over all, where the others add nothing. Sums
over different choices of links can then be added link by link. -/
theorem sum_filter (links : List (Link ℚ)) (q : Link ℚ → Bool) (f : Link ℚ → ℚ) :
    ((links.filter q).map f).sum = (links.map fun l => if q l then f l else 0).sum := by
  induction links with
  | nil => rfl
  | cons l links ih =>
    rw [List.map_cons, List.sum_cons, ← ih]
    by_cases hq : q l = true
    · rw [List.filter_cons_of_pos hq, List.map_cons, List.sum_cons, if_pos hq]
    · rw [List.filter_cons_of_neg hq, if_neg hq, zero_add]

end Link

/-! ## The handshake -/

namespace Graph

variable {n : Nat} {weighted : Bool} {links : List (Link ℚ)}
variable {ids : Nat → Option Nat} {index : Option EdgeIndex}

/-- A sum over the half-edges at a node runs over the links there. -/
theorem sum_halves {directed outgoing : Bool} (node : Nat) (f : Nat × ℚ → ℚ) :
    ((halves directed outgoing links ids node).map fun half => f (half.node, half.weight)).sum =
      (links.map fun l =>
        if l.standsAt directed outgoing node then f (l.across node, l.weight) else 0).sum := by
  rw [← sum_filter, show (fun l : Link ℚ => f (l.across node, l.weight)) =
    f ∘ fun l => (l.across node, l.weight) from rfl, ← List.map_map, ← map_halves, List.map_map]
  rfl

/-- In a directed graph the degree of a node is the weight of the links that
leave it. A loop leaves its node once. -/
theorem weightedDegree_ofLinks (hwithin : Within n links) (node : Nat) :
    (ofLinks n weighted true links ids index).weightedDegree node = weightFrom links {node} := by
  rw [weightedDegree, neighbours_ofLinks hwithin, Scalar.sum_rat, sum_halves node Prod.snd]
  refine congrArg List.sum (List.map_congr_left fun l _ => ?_)
  simp [standsAt, mark]

/-- In a directed graph the degree into a node is the weight of the links that
enter it. A loop enters its node once. -/
theorem weightedInDegree_ofLinks (hwithin : Within n links) (node : Nat) :
    (ofLinks n weighted true links ids index).weightedInDegree node = weightInto links {node} := by
  rw [weightedInDegree, inNeighbours_ofLinks hwithin, Scalar.sum_rat, sum_halves node Prod.snd]
  refine congrArg List.sum (List.map_congr_left fun l _ => ?_)
  simp [standsAt, mark]

/-- In an undirected graph the volume of a node is the weight of the links at
it, once for each end. A loop has one half-edge, which counts twice. -/
theorem volume_ofLinks (hwithin : Within n links) (node : Nat) :
    (ofLinks n weighted false links ids index).volume node = weightAt links {node} := by
  rw [volume, neighbours_ofLinks hwithin, Scalar.sum_rat,
    sum_halves node fun x => if x.1 = node then Scalar.ofCount 2 * x.2 else x.2]
  refine congrArg List.sum (List.map_congr_left fun l _ => ?_)
  simp only [standsAt_undirected, across, mark, Finset.mem_singleton, Scalar.ofCount_rat]
  by_cases hs : l.source = node
  · by_cases ht : l.target = node
    · simp [hs, ht]
      ring
    · simp [hs, ht]
  · by_cases ht : l.target = node
    · simp [hs, ht]
    · simp [hs, ht]

/-- What leaves the nodes of a set leaves the set or stays in it. -/
theorem sum_weightedDegree (hwithin : Within n links) (nodes : Finset Nat) :
    ∑ v ∈ nodes, (ofLinks n weighted true links ids index).weightedDegree v =
      weightFrom links nodes := by
  rw [← sum_weightFrom]
  exact Finset.sum_congr rfl fun v _ => weightedDegree_ofLinks hwithin v

/-- What enters the nodes of a set enters the set or stays in it. -/
theorem sum_weightedInDegree (hwithin : Within n links) (nodes : Finset Nat) :
    ∑ v ∈ nodes, (ofLinks n weighted true links ids index).weightedInDegree v =
      weightInto links nodes := by
  rw [← sum_weightInto]
  exact Finset.sum_congr rfl fun v _ => weightedInDegree_ofLinks hwithin v

/-- **The handshake.** The volumes of the nodes of a set add up to the weight of
the links at the set, once for each end that a link has there. Each link between
two nodes is in the lists of both, and each loop is in one list but counts
twice. -/
theorem sum_volume (hwithin : Within n links) (nodes : Finset Nat) :
    ∑ v ∈ nodes, (ofLinks n weighted false links ids index).volume v = weightAt links nodes := by
  rw [← sum_weightAt]
  exact Finset.sum_congr rfl fun v _ => volume_ofLinks hwithin v

/-- A sum over the edges runs over the links as they are listed: every link is
gone over once, in an undirected graph from that of its ends at which it is
found first. -/
theorem sum_edges {directed : Bool} (hwithin : Within n links) (f : Link ℚ → ℚ) :
    ((ofLinks n weighted directed links ids index).edges.map fun e => f (ofEdge e)).sum =
      (links.map fun l => f (l.listed directed)).sum := by
  have hperm : (((ofLinks n weighted directed links ids index).edges.map ofEdge).map f).sum =
      ((links.map (listed directed)).map f).sum := ((perm_edges hwithin).map f).sum_eq
  rw [List.map_map, List.map_map] at hperm
  exact hperm

end Graph

/-! ## Sums of the subsets -/

namespace Partition

/-- The nodes of a subset. -/
def members (p : Partition) (subset : Nat) : Finset Nat :=
  {v ∈ Finset.range p.size | p.subsetOf v = some subset}

/-- The members of a subset are the nodes that are assigned to it. -/
theorem mem_members {p : Partition} {subset node : Nat} :
    node ∈ p.members subset ↔ p.subsetOf node = some subset := by
  rw [members, Finset.mem_filter, Finset.mem_range, and_iff_right_iff_imp]
  intro h
  by_contra hsize
  rw [subsetOf_eq_none (Nat.le_of_not_lt hsize)] at h
  exact Option.some_ne_none _ h.symm

end Partition

namespace Quality

open GraphMeasures.Partition

variable {n : Nat} {weighted directed : Bool} {links : List (Link ℚ)} {p : Partition}
variable {ids : Nat → Option Nat} {index : Option EdgeIndex}

/-- The sums of the first nodes, in all subsets. -/
def sumsBelow (p : Partition) (nodeCount : Nat) (quantity : Nat → ℚ) : Array ℚ :=
  (Array.range p.upperBound).map fun subset =>
    ∑ v ∈ Finset.range nodeCount with p.subsetOf v = some subset, quantity v

/-- One node more changes the sum of its own subset. This is the step by which
the sums are made; the loop starts from sums of no nodes. -/
theorem sumsBelow_succ (quantity : Nat → ℚ) {node subset : Nat}
    (hsubset : p.subsetOf node = some subset) :
    (sumsBelow p node quantity).modify subset (· + quantity node) =
      sumsBelow p (node + 1) quantity := by
  refine Array.ext (by simp [sumsBelow]) fun c _ _ => ?_
  simp only [sumsBelow, Array.getElem_modify, Array.getElem_map, Array.getElem_range,
    Finset.range_add_one, Finset.filter_insert, hsubset, Option.some.injEq]
  by_cases hc : subset = c
  · rw [if_pos hc, if_pos hc, Finset.sum_insert (by simp), add_comm]
  · rw [if_neg hc, if_neg hc]

/-- A partition has a sum for each of its subsets, and in it are the quantities
of the nodes up to the last one. The induction is on how many of them were
added. -/
theorem subsetSums_eq (h : p.Covers n) (quantity : Nat → ℚ) :
    subsetSums p n quantity = .ok (sumsBelow p n quantity) := by
  -- by induction on how many nodes have been added
  have hfirst : ∀ m ≤ n, (List.range m).foldlM (addToSubset p quantity)
      (Array.replicate p.upperBound Scalar.zero) = .ok (sumsBelow p m quantity) := by
    intro m hm
    induction m with
    | zero =>
      refine congrArg Except.ok (Array.ext (by simp [sumsBelow]) fun c _ _ => ?_)
      simp [sumsBelow]
    | succ m ih =>
      obtain ⟨subset, hsubset⟩ := Option.isSome_iff_exists.1 (h.isSome m hm)
      have hlt : subset < (sumsBelow p m quantity).size := by
        rw [sumsBelow, Array.size_map, Array.size_range]
        exact h.lt_upperBound m subset hsubset
      rw [List.range_succ, List.foldlM_append, ih (Nat.le_of_succ_le hm)]
      show (addToSubset p quantity _ m >>= pure) = _
      simp only [addToSubset, hsubset, Checked.modify_eq_ok _ hlt, sumsBelow_succ quantity hsubset]
      rfl
  rw [subsetSums_of_covers h]
  exact hfirst n (Nat.le_refl n)

/-- The sums of all nodes are those of the members, since members are nodes of
the graph. -/
theorem toList_sumsBelow (h : p.Covers n) (quantity : Nat → ℚ) :
    (sumsBelow p n quantity).toList =
      (List.range p.upperBound).map fun subset => ∑ v ∈ p.members subset, quantity v := by
  simp only [sumsBelow, Array.toList_map, Array.toList_range, members, h.size_eq]

/-! ## The definition -/

/-- The weight of the links inside subsets. -/
def inside (p : Partition) (links : List (Link ℚ)) : ℚ :=
  (links.map fun l => if p.subsetOf l.source = p.subsetOf l.target then l.weight else 0).sum

/-- Modularity as it is defined over the links of a graph. -/
def newman (p : Partition) (directed : Bool) (links : List (Link ℚ)) : ℚ :=
  inside p links / total links -
    if directed then
      (∑ c ∈ Finset.range p.upperBound,
        weightFrom links (p.members c) * weightInto links (p.members c)) / total links ^ 2
    else
      (∑ c ∈ Finset.range p.upperBound, weightAt links (p.members c) ^ 2) / (2 * total links) ^ 2

/-- Both sums over the edges are made in one pass, and neither has a say in the
other. In exact arithmetic the order in which they are added up does not matter
either. -/
theorem insideAndTotal_eq (p : Partition) (g : Graph ℚ) :
    insideAndTotal p g =
      ((g.edges.map fun e =>
        if p.subsetOf e.source = p.subsetOf e.target then e.weight else 0).sum,
       (g.edges.map (·.weight)).sum) := by
  -- from any two sums to start with, since these change from edge to edge
  have hpass : ∀ (edges : List (Edge ℚ)) (a b : ℚ),
      edges.foldl (fun (inside, total) edge =>
        (if p.subsetOf edge.source = p.subsetOf edge.target then inside + edge.weight else inside,
          total + edge.weight)) (a, b) =
      (a + (edges.map fun e =>
        if p.subsetOf e.source = p.subsetOf e.target then e.weight else 0).sum,
       b + (edges.map (·.weight)).sum) := by
    intro edges
    induction edges with
    | nil => simp
    | cons e edges ih =>
      intro a b
      simp only [List.foldl_cons, List.map_cons, List.sum_cons, ih]
      by_cases he : p.subsetOf e.source = p.subsetOf e.target
      · simp only [if_pos he, add_assoc]
      · simp only [if_neg he, add_assoc, zero_add]
  rw [insideAndTotal, hpass, Scalar.zero_rat, zero_add, zero_add]

/-- In terms of the links: what stays inside and what there is. Whether the ends
of a link are in one subset does not depend on which of them comes first. -/
theorem insideAndTotal_ofLinks (p : Partition) (hwithin : Graph.Within n links) :
    insideAndTotal p (Graph.ofLinks n weighted directed links ids index) =
      (inside p links, total links) := by
  rw [insideAndTotal_eq]
  refine Prod.ext ?_ ?_
  · -- a link that is turned round is inside as well
    refine (Graph.sum_edges hwithin fun l =>
      if p.subsetOf l.source = p.subsetOf l.target then l.weight else 0).trans ?_
    refine congrArg List.sum (List.map_congr_left fun l _ => ?_)
    rcases l.listed_eq_or directed with hlisted | hlisted
    · rw [hlisted]
    · rw [hlisted]
      simp only [eq_comm]
  · exact Graph.sum_edges hwithin (·.weight)

/-- What is to be expected by chance, in terms of the links. For directed
graphs, what leaves a subset is multiplied with what enters it; for undirected
ones the weight at the subset is squared, and so is the weight of both ends of
all links. -/
theorem expectedCoverage_ofLinks (h : p.Covers n) (hwithin : Graph.Within n links) (x : ℚ) :
    expectedCoverage p (Graph.ofLinks n weighted directed links ids index) x =
      .ok (if directed then
        (∑ c ∈ Finset.range p.upperBound,
          weightFrom links (p.members c) * weightInto links (p.members c)) / x ^ 2
      else (∑ c ∈ Finset.range p.upperBound, weightAt links (p.members c) ^ 2) / (2 * x) ^ 2) := by
  have hrange : ∀ f : Nat → ℚ, ((List.range p.upperBound).map f).sum =
      ∑ c ∈ Finset.range p.upperBound, f c := fun _ => rfl
  have hfour : Scalar.ofCount 4 * x * x = (2 * x) ^ 2 := by
    rw [Scalar.ofCount_rat]
    ring
  unfold expectedCoverage
  rw [Graph.nodeCount_ofLinks, subsetSums_eq h]
  cases directed with
  | true =>
    rw [if_pos (by rfl), subsetSums_eq h]
    show Except.ok (_ / (x * x)) = Except.ok (_ / x ^ 2)
    rw [toList_sumsBelow h, toList_sumsBelow h, Scalar.sum_rat, List.zipWith_map, List.zipWith_self,
      hrange, pow_two]
    -- a subset's sums are those of its members, which `Graph.sum_*` turns into link weights
    refine congrArg (fun sum => Except.ok (sum / (x * x))) (Finset.sum_congr rfl fun c _ => ?_)
    rw [Graph.sum_weightedDegree hwithin, Graph.sum_weightedInDegree hwithin]
  | false =>
    rw [if_neg (by exact Bool.false_ne_true), subsetSums_eq h]
    show Except.ok (_ / (Scalar.ofCount 4 * x * x)) = Except.ok (_ / (2 * x) ^ 2)
    rw [toList_sumsBelow h, List.map_map, Scalar.sum_rat, hrange, hfour]
    refine congrArg (fun sum => Except.ok (sum / (2 * x) ^ 2)) (Finset.sum_congr rfl fun c _ => ?_)
    rw [Function.comp_apply, Graph.sum_volume hwithin, pow_two]

/-- Modularity in terms of the links, for a partition with a place for every
node. -/
theorem modularity_ofLinks (h : p.Covers n) (hwithin : Graph.Within n links) :
    modularity p (Graph.ofLinks n weighted directed links ids index) =
      if total links = 0 then .error (.error (noWeight "Modularity"))
      else .ok (newman p directed links) := by
  rw [modularity, Graph.nodeCount_ofLinks, h.ensureTotal_eq, insideAndTotal_ofLinks p hwithin]
  show (if Scalar.isZero (total links) = true then _ else _) = _
  rw [Scalar.isZero_rat, expectedCoverage_ofLinks h hwithin]
  by_cases htotal : total links = 0
  · rw [if_pos (decide_eq_true htotal), if_pos htotal]
    rfl
  · rw [if_neg (by rwa [decide_eq_true_eq]), if_neg htotal]
    rfl

section OneSubset

variable {subset : Nat}

end OneSubset

end Quality

end GraphMeasures
