import GraphMeasures.Proofs.Double.Mean
import GraphMeasures.Proofs.Graph.Lookup
import GraphMeasures.Proofs.Quality.Blocks

/-!
# GraphMeasures — how far a hub can dominate

Hub dominance counts the edges that a node has inside its subset, one by one, and
compares the largest count with the number of the other members. A loop is not
counted, and an undirected edge is counted once at each of its ends. So the edges of a
node are those to each of the other members, and as long as no two members are joined
by more than one edge, no node has more edges than there are other members: no share is
above one, and the mean of the shares, with all its roundings, is not above one either
(`hubDominance_bounded`).

With parallel edges there is no such bound. Two nodes with two edges have two of the
one possible (`hubDominance_bounded_parallel`).
-/

namespace GraphMeasures

open Link

/-! ## Edges inside a set -/

namespace Link

variable {W : Type} {directed : Bool}

/-- The edges of a node inside a set are those to each of the other nodes.
Without parallel edges each of these terms is one at most. -/
theorem innerDegree_eq_sum (links : List (Link W)) (nodes : Finset Nat) (node : Nat) :
    innerDegree directed links nodes node =
      ∑ v ∈ nodes.erase node, links.countP fun l => SamePair directed l.ends (node, v) := by
  unfold innerDegree
  induction links with
  | nil => simp
  | cons l links ih =>
    -- what a link adds to the sum, it adds where it leads
    have hlink : ∑ v ∈ nodes.erase node, (if SamePair directed l.ends (node, v) then 1 else 0) =
        if l.standsAt directed true node ∧ l.across node ∈ nodes.erase node then 1 else 0 := by
      simp only [samePair_ends_iff]
      by_cases hstands : l.standsAt directed true node = true
      · simp only [hstands, true_and, Finset.sum_ite_eq]
      · rw [if_neg fun h => hstands h.1]
        exact Finset.sum_eq_zero fun v _ => if_neg fun h => hstands h.1
    simp only [List.countP_cons, Finset.sum_add_distrib, decide_eq_true_eq, hlink, ih,
      Finset.mem_erase]
    simp

end Link

/-! ## Edges between two nodes -/

namespace Graph

variable {W : Type} {n : Nat} {weighted directed : Bool} {links : List (Link W)}
variable {ids : Nat → Option Nat} {index : Option EdgeIndex} {g : Graph W} {nodes : Finset Nat}

/-- How many edges join two nodes: from the one to the other in a directed graph, in
any direction in an undirected one. -/
def multiplicity (g : Graph W) (u v : Nat) : Nat :=
  g.edges.countP fun e => SamePair g.directed (e.source, e.target) (u, v)

/-- The most edges that a node of a set has to the other nodes of the set. -/
def hubDegree (g : Graph W) (nodes : Finset Nat) : Nat :=
  nodes.sup fun u => ∑ v ∈ nodes.erase u, g.multiplicity u v

/-- No two nodes of a set are joined by more than one edge. -/
def NoParallel (g : Graph W) (nodes : Finset Nat) : Prop :=
  ∀ u ∈ nodes, ∀ v ∈ nodes, u ≠ v → g.multiplicity u v ≤ 1

instance (g : Graph W) (nodes : Finset Nat) : Decidable (g.NoParallel nodes) :=
  inferInstanceAs (Decidable (∀ u ∈ nodes, ∀ v ∈ nodes, u ≠ v → g.multiplicity u v ≤ 1))

/-- No node has more edges than the others allow together. With at most `m`
edges to each of them, that is `m` times as many as there are others. -/
theorem hubDegree_le_mul {m : Nat} (h : ∀ u ∈ nodes, ∀ v ∈ nodes, u ≠ v → g.multiplicity u v ≤ m) :
    g.hubDegree nodes ≤ (nodes.card - 1) * m := by
  refine Finset.sup_le fun u hu => ?_
  rw [← Finset.card_erase_of_mem hu, ← smul_eq_mul]
  refine Finset.sum_le_card_nsmul _ _ _ fun v hv => ?_
  obtain ⟨hne, hv⟩ := Finset.mem_erase.1 hv
  exact h u hu v hv hne.symm

/-- Without parallel edges a node has at most one edge to each of the others. -/
theorem NoParallel.hubDegree_le (h : g.NoParallel nodes) : g.hubDegree nodes ≤ nodes.card - 1 :=
  (hubDegree_le_mul h).trans_eq (Nat.mul_one _)

/-- The edges between two nodes are the links that join them, in either
direction if the graph is undirected. -/
theorem multiplicity_ofLinks (hwithin : Within n links) (u v : Nat) :
    (ofLinks n weighted directed links ids index).multiplicity u v =
      links.countP fun l => SamePair directed l.ends (u, v) := by
  have hcount : ((ofLinks n weighted directed links ids index).edges.map ofEdge).countP
      (fun l => decide (SamePair directed l.ends (u, v))) =
        (links.map (listed directed)).countP fun l => decide (SamePair directed l.ends (u, v)) :=
    (perm_edges hwithin).countP_eq _
  rw [List.countP_map, List.countP_map] at hcount
  refine hcount.trans (List.countP_congr fun l _ => ?_)
  rw [Function.comp_apply, decide_eq_true_eq, decide_eq_true_eq]
  exact samePair_facing_iff

/-- The degree of the hub is the one that the measure looks for. -/
theorem hubDegree_ofLinks (hwithin : Within n links) (nodes : Finset Nat) :
    (ofLinks n weighted directed links ids index).hubDegree nodes = hub directed links nodes := by
  refine Finset.sup_congr rfl fun u _ => ?_
  rw [innerDegree_eq_sum]
  exact Finset.sum_congr rfl fun v _ => multiplicity_ofLinks hwithin u v

end Graph

/-! ## Subsets that have a node -/

namespace Partition

variable {p : Partition} {c : Nat}

theorem mem_occupied : c ∈ p.occupied ↔ c < p.upperBound ∧ (p.members c).Nonempty := by
  simp [occupied]

/-- No more subsets than nodes have a node, since no node has two. -/
theorem length_occupied_le (p : Partition) : p.occupied.length ≤ p.size := by
  -- every such subset is that of a node
  have hused : p.used ⊆ (Finset.range p.size).image fun v => (p.subsetOf v).getD 0 := by
    intro c hc
    obtain ⟨v, hv⟩ := (Finset.mem_filter.1 hc).2
    refine Finset.mem_image.2 ⟨v, (Finset.mem_filter.1 hv).1, ?_⟩
    rw [mem_members.1 hv, Option.getD_some]
  calc p.occupied.length = p.used.card := rfl
    _ ≤ _ := Finset.card_le_card hused
    _ ≤ (Finset.range p.size).card := Finset.card_image_le
    _ = p.size := Finset.card_range _

theorem card_members_le (p : Partition) (c : Nat) : (p.members c).card ≤ p.size :=
  (Finset.card_filter_le _ _).trans_eq (Finset.card_range _)

end Partition

/-! ## Shares -/

namespace Quality

open GraphMeasures.Partition Double

variable {n : Nat} {weighted directed : Bool} {links : List (Link Float)}
variable {p : Partition} {ids : Nat → Option Nat} {index : Option EdgeIndex} {g : Graph Float}

/-- To what share a subset is dominated by its hub. -/
def share (p : Partition) (g : Graph Float) (c : Nat) : Float :=
  dominance (p.members c).card (g.hubDegree (p.members c))

/-- The share of a subset as a double. A single node has the share one by
definition, and else it is a quotient of counts, of which rounding does not
exceed the bound. -/
theorem upTo_dominance {size best top : Nat} (hpos : 0 < size) (hsize : size ≤ Index.count)
    (hbest : best ≤ Index.count) (htop : top ≤ 64) (hle : best ≤ (size - 1) * 2 ^ top) :
    UpTo (2 ^ (top : ℤ)) (dominance size best : Float) := by
  unfold Index.count at hsize hbest
  unfold dominance
  split
  · -- a single node
    refine ⟨1, hasValue_one, Or.inr (by norm_num), ?_⟩
    exact_mod_cast Nat.one_le_two_pow
  · exact upTo_quotient (by omega) (by omega) (by omega) htop hle

/-- What hub dominance makes of a graph and a partition of its nodes. -/
structure HubBounds (p : Partition) (g : Graph Float) : Prop where
  /-- What is compared are the members of each subset and the most edges that one of
  them has to the others. -/
  sizes : ∀ c < p.upperBound, p.subsetSizes[c]? = some (p.members c).card
  degrees : ∀ c < p.upperBound, (maxInternalDegrees p g)[c]? = some (g.hubDegree (p.members c))
  degree_le : ∀ c, g.NoParallel (p.members c) → g.hubDegree (p.members c) ≤ (p.members c).card - 1
  share_nonneg : ∀ c, (p.members c).Nonempty → 0 ≤ share p g c
  share_le_one : ∀ c, (p.members c).Nonempty → g.NoParallel (p.members c) → share p g c ≤ 1
  undefined : p.occupied = [] → hubDominance p g =
    .error (.undefinedQuality "HubDominance" "the partition has no subsets")
  /-- The measure is the mean of the shares. -/
  mean : p.occupied ≠ [] →
    let shares := p.occupied.map (share p g)
    let mean := shares.foldl (· + ·) 0 / Float.ofNat shares.length
    hubDominance p g = .ok mean ∧ 0 ≤ mean ∧
      ((∀ c ∈ p.occupied, g.NoParallel (p.members c)) → mean ≤ 1)

/-- The share of a subset, whose edges can be counted. -/
theorem upTo_share {c top : Nat} (hc : (p.members c).Nonempty) (hnodes : p.size ≤ Index.count)
    (hdegree : g.hubDegree (p.members c) ≤ Index.count) (htop : top ≤ 64)
    (h : ∀ u ∈ p.members c, ∀ v ∈ p.members c, u ≠ v → g.multiplicity u v ≤ 2 ^ top) :
    UpTo (2 ^ (top : ℤ)) (share p g c) :=
  upTo_dominance hc.card_pos ((card_members_le p c).trans hnodes) hdegree htop
    (Graph.hubDegree_le_mul h)

section OfLinks

variable (hwithin : Graph.Within n links)

include hwithin

/-- The list of largest degrees has for each subset the degree of its hub. -/
theorem getElem?_maxInternalDegrees (hsize : p.size = n) {c : Nat} (hc : c < p.upperBound) :
    (maxInternalDegrees p (Graph.ofLinks n weighted directed links ids index))[c]? =
      some ((Graph.ofLinks n weighted directed links ids index).hubDegree (p.members c)) := by
  rw [← Array.getElem?_toList, toList_maxInternalDegrees hsize hwithin, List.getElem?_map,
    List.getElem?_range hc, Option.map_some, Graph.hubDegree_ofLinks hwithin]

/-- Hub dominance is the mean of the shares, added from the left and divided by
how many there are, in doubles as well as in exact numbers. -/
theorem hubDominance_shares (htotal : p.ensureTotal n = .ok ()) :
    let g := Graph.ofLinks n weighted directed links ids index
    let shares := p.occupied.map (share p g)
    hubDominance p g =
      if p.occupied.isEmpty then
        .error (.undefinedQuality "HubDominance" "the partition has no subsets")
      else .ok (shares.foldl (· + ·) 0 / Float.ofNat shares.length) := by
  intro g shares
  -- the share of a subset is read off the graph or off its links
  have hshare : share p g = fun c =>
      dominance (p.members c).card (hub directed links (p.members c)) := by
    funext c
    rw [share, Graph.hubDegree_ofLinks hwithin]
  rw [hubDominance_eq htotal hwithin, show shares = p.occupied.map (share p g) from rfl, hshare,
    List.length_map]
  rfl

/-- Between two nodes there are at most all edges. -/
theorem multiplicity_le_length (u v : Nat) :
    (Graph.ofLinks n weighted directed links ids index).multiplicity u v ≤ links.length := by
  rw [Graph.multiplicity_ofLinks hwithin]
  exact List.countP_le_length

theorem hubDegree_le_length (nodes : Finset Nat) :
    (Graph.ofLinks n weighted directed links ids index).hubDegree nodes ≤ links.length := by
  rw [Graph.hubDegree_ofLinks hwithin]
  exact Finset.sup_le fun u _ => List.countP_le_length

/-- All bounds for a graph of links. Each share is bounded by what its subset
allows, and the mean by what bounds all shares; rounding does not exceed either,
because both bounds are powers of two. -/
theorem hubBounds_ofLinks (htotal : p.ensureTotal n = .ok ()) (hnodes : n ≤ Index.count)
    (hedges : links.length ≤ Index.count) :
    HubBounds p (Graph.ofLinks n weighted directed links ids index) := by
  have hsize := (ensureTotal_eq_ok_iff.1 htotal).1
  have hnodes : p.size ≤ Index.count := hsize.trans_le hnodes
  have hmeasure := @hubDominance_shares n weighted directed links p ids index hwithin htotal
  have hdegrees := fun c => @getElem?_maxInternalDegrees n weighted directed links p ids index
    hwithin hsize c
  have hdegree := fun nodes =>
    (@hubDegree_le_length n weighted directed links ids index hwithin nodes).trans hedges
  have hmultiplicity := fun u v =>
    (@multiplicity_le_length n weighted directed links ids index hwithin u v).trans hedges
  -- nothing else matters of the links
  generalize Graph.ofLinks n weighted directed links ids index = g at *
  -- any two nodes are joined by no more edges than can be counted, or even by at most one
  have hshare : ∀ c, (p.members c).Nonempty → UpTo (2 ^ ((64 : ℕ) : ℤ)) (share p g c) :=
    fun c hc => upTo_share hc hnodes (hdegree _) (le_refl 64) fun u _ v _ _ => hmultiplicity u v
  have hshare_one : ∀ c, (p.members c).Nonempty → g.NoParallel (p.members c) →
      UpTo (2 ^ ((0 : ℕ) : ℤ)) (share p g c) :=
    fun c hc hsimple => upTo_share hc hnodes (hdegree _) (Nat.zero_le 64) hsimple
  constructor
  case sizes =>
    intro c hc
    rw [← Array.getElem?_toList, toList_subsetSizes hsize, List.getElem?_map,
      List.getElem?_range hc, Option.map_some]
  case degrees => exact hdegrees
  case degree_le => exact fun c hsimple => hsimple.hubDegree_le
  case share_nonneg =>
    intro c hc
    obtain ⟨q, hq, hlow, -⟩ := hshare c hc
    exact hasValue_zero.le hq (nonneg_of_zero_or hlow)
  case share_le_one =>
    intro c hc hsimple
    obtain ⟨q, hq, -, hhigh⟩ := hshare_one c hc hsimple
    exact hq.le hasValue_one hhigh
  case undefined =>
    intro hempty
    rw [hmeasure, hempty]
    rfl
  case mean =>
    intro hne shares mean
    have hlength : shares.length ≤ 2 ^ 64 := by
      rw [List.length_map]
      exact (length_occupied_le p).trans hnodes
    have hshares : shares ≠ [] := by simpa [shares] using hne
    refine ⟨?_, ?_, fun hsimple => ?_⟩
    · rw [hmeasure, if_neg (by simpa using hne)]
    · obtain ⟨q, hq, hlow, -⟩ := exists_mean (le_refl 64) hshares hlength
        (List.forall_mem_map.2 fun c hc => hshare c (mem_occupied.1 hc).2)
      exact hasValue_zero.le hq hlow
    · obtain ⟨q, hq, -, hhigh⟩ := exists_mean (Nat.zero_le 64) hshares hlength
        (List.forall_mem_map.2 fun c hc => hshare_one c (mem_occupied.1 hc).2 (hsimple c hc))
      exact hq.le hasValue_one hhigh

end OfLinks

/-- **Without parallel edges hub dominance is at most one.** For every graph that can be
reached, whose nodes and edges can be counted, and every partition of all its nodes:
what is compared with `size - 1` is the largest number of edges that a member has to
the others. It is not above `size - 1` in a subset in which no two members are joined
by more than one edge, and the share of such a subset lies between zero and one. If
all subsets are like that the mean does, whatever loops there are and whatever
parallel edges between the subsets. -/
theorem hubDominance_bounded (n : Nat) (weighted directed : Bool) (steps : List Step)
    (p : Partition) (htotal : p.ensureTotal n = .ok ()) (hnodes : n ≤ Index.count)
    (hedges : ((Graph.empty n weighted directed).run steps).edgeCount ≤ Index.count) :
    HubBounds p ((Graph.empty n weighted directed).run steps) := by
  have hholds := Graph.holds_run n weighted directed steps
  obtain ⟨ids, index, hshape⟩ := hholds.shape
  rw [hholds.edgeCount_eq] at hedges
  rw [hshape]
  exact hubBounds_ofLinks hholds.within htotal hnodes hedges

set_option maxRecDepth 4096 in
/-- Loops, and parallel edges between two subsets, leave the mean of a star and a
single node at one. -/
theorem hubDominance_bounded_star :
    let p : Partition := ⟨#[some 2, some 2, some 0, some 2], 3⟩
    let steps : List Step :=
      [.add 0 1 1.0, .add 1 1 1.0, .add 2 3 1.0, .add 3 2 1.0, .add 0 3 1.0, .add 0 0 1.0]
    let g := (Graph.empty 4 false false).run steps
    p.ensureTotal 4 = .ok () ∧ g.edgeCount ≤ Index.count ∧
      (∀ c ∈ p.occupied, g.NoParallel (p.members c)) ∧ g.hubDegree (p.members 2) = 2 ∧
      ∃ mean, hubDominance p g = .ok mean ∧ 0 ≤ mean ∧ mean ≤ 1 := by
  intro p steps g
  have htotal : p.ensureTotal 4 = .ok () := ensureTotal_eq_ok_iff.2 (by decide)
  have hedges : g.edgeCount ≤ Index.count := by decide
  have hsimple : ∀ c ∈ p.occupied, g.NoParallel (p.members c) := by decide +kernel
  have hbounds := hubDominance_bounded 4 false false steps p htotal (by decide) hedges
  obtain ⟨hmean, hnonneg, hle⟩ := hbounds.mean (by decide)
  exact ⟨htotal, hedges, hsimple, by decide +kernel, _, hmean, hnonneg, hle hsimple⟩

/-- Two nodes that are joined twice: the hub has two edges where one is the largest
possible degree, and the measure is two. -/
theorem hubDominance_bounded_parallel :
    let p : Partition := ⟨#[some 0, some 0], 1⟩
    let g := (Graph.empty 2 false false).run [.add 0 1 1.0, .add 0 1 1.0]
    p.ensureTotal 2 = .ok () ∧ p.subsetSizes = #[2] ∧ maxInternalDegrees p g = #[2] ∧
      ∃ mean, hubDominance p g = .ok mean ∧ ¬ mean ≤ 1 := by
  intro p g
  have htotal : p.ensureTotal 2 = .ok () := ensureTotal_eq_ok_iff.2 (by decide)
  have hmean : (hubDominance p g).toOption = some 2.0 := by decide +kernel
  exact ⟨htotal, rfl, rfl, 2.0, toOption_eq_some_iff.1 hmean, by decide +kernel⟩

end Quality

end GraphMeasures
