import Mathlib.Data.Finset.Lattice.Fold
import Mathlib.Order.Lattice.Nat
import GraphMeasures.Proofs.Modularity

/-!
# GraphMeasures — measures do not see names

The subsets of a partition have numbers, and the measures go through them in the
order of these numbers. What they say depends on the **blocks** only, which are the
sets of nodes that are together: in exact arithmetic every measure is a sum over the
blocks of what the edges at a block make of it.

* `Partition.sum_members` — a sum over the numbers is a sum over the blocks.
* `Quality.hubDominance_eq` — hub dominance in any arithmetic, subset by subset.
* `Quality.hubDominance_ofLinks` — hub dominance by blocks and links.
* `Quality.coverage_congr`, `edgeCut_congr`, `hubDominance_congr`,
  `modularity_congr` — the same nodes together and the same edges, in whatever
  order and under whatever names, have the same quality.
* `Quality.sameQuality_of_alike` — the same for two partitions that any moves have
  made, on any graph that can be reached.
-/

namespace GraphMeasures

open Link

/-! ## Blocks -/

namespace Partition

variable {p q : Partition} {n : Nat}

/-- The nodes that are together with a node. -/
def block (p : Partition) (nodeCount node : Nat) : Finset Nat :=
  {v ∈ Finset.range nodeCount | p.subsetOf v = p.subsetOf node}

/-- The sets of nodes that are together. -/
def blocks (p : Partition) (nodeCount : Nat) : Finset (Finset Nat) :=
  (Finset.range nodeCount).image (p.block nodeCount)

/-- The numbers of the subsets that have a node. -/
def used (p : Partition) : Finset Nat :=
  {c ∈ Finset.range p.upperBound | (p.members c).Nonempty}

/-- The same numbers in their order. -/
def occupied (p : Partition) : List Nat :=
  (List.range p.upperBound).filter fun c => (p.members c).Nonempty

/-- Partitions that put the same nodes together have the same blocks. So what
can be said in terms of blocks does not depend on the names of the subsets. -/
theorem Alike.blocks_eq (h : p.Alike n q) : p.blocks n = q.blocks n := by
  refine Finset.image_congr fun v hv => ?_
  refine Finset.filter_congr fun w hw => ?_
  exact h w (Finset.mem_range.1 hw) v (Finset.mem_range.1 hv)

/-- Only nodes of the graph have a subset. -/
theorem Covers.node_lt (h : p.Covers n) {node subset : Nat}
    (hsubset : p.subsetOf node = some subset) : node < n := by
  by_contra hsize
  rw [subsetOf_eq_none (by rw [h.size_eq]; omega)] at hsubset
  exact Option.some_ne_none _ hsubset.symm

/-- The members of a node's subset are the block of the node. -/
theorem Covers.members_eq_block (h : p.Covers n) {node subset : Nat}
    (hsubset : p.subsetOf node = some subset) : p.members subset = p.block n node := by
  rw [members, block, h.size_eq, hsubset]

/-- The blocks are the members of the subsets that have some. A subset without
members is no block, and two subsets with members have different ones. -/
theorem Covers.image_members (h : p.Covers n) : p.used.image p.members = p.blocks n := by
  ext nodes
  simp only [used, blocks, Finset.mem_image, Finset.mem_filter, Finset.mem_range]
  constructor
  · rintro ⟨c, ⟨-, v, hv⟩, rfl⟩
    have hsubset := mem_members.1 hv
    exact ⟨v, h.node_lt hsubset, (h.members_eq_block hsubset).symm⟩
  · rintro ⟨v, hv, rfl⟩
    obtain ⟨c, hc⟩ := Option.isSome_iff_exists.1 (h.isSome v hv)
    exact ⟨c, ⟨h.lt_upperBound v c hc, v, mem_members.2 hc⟩, h.members_eq_block hc⟩

/-- Subsets with the same members have the same number. -/
theorem injOn_members (p : Partition) : Set.InjOn p.members p.used := by
  intro c hc d _ hsame
  obtain ⟨v, hv⟩ := (Finset.mem_filter.1 hc).2
  have hvd : v ∈ p.members d := hsame ▸ hv
  exact Option.some.inj ((mem_members.1 hv).symm.trans (mem_members.1 hvd))

/-- There are as many blocks as subsets that have a node. -/
theorem Covers.card_used (h : p.Covers n) : p.used.card = (p.blocks n).card := by
  rw [← h.image_members, Finset.card_image_of_injOn p.injOn_members]

/-- There is no subset with a node if there is no block. -/
theorem Covers.isEmpty_occupied (h : p.Covers n) :
    p.occupied.isEmpty = decide (p.blocks n = ∅) := by
  have hlength : p.occupied.length = (p.blocks n).card := h.card_used
  rw [Bool.eq_iff_iff, List.isEmpty_iff, ← List.length_eq_zero_iff, hlength, Finset.card_eq_zero,
    decide_eq_true_eq]

/-- A sum over the subsets that have a node runs over the blocks. -/
theorem Covers.sum_used (h : p.Covers n) (f : Finset Nat → ℚ) :
    ∑ c ∈ p.used, f (p.members c) = ∑ nodes ∈ p.blocks n, f nodes := by
  rw [← h.image_members, Finset.sum_image p.injOn_members]

/-- Names do not matter in a sum in which sets without nodes do not. The bound
of the partition may be far above the subsets that have a node. -/
theorem Covers.sum_members (h : p.Covers n) {f : Finset Nat → ℚ} (hf : f ∅ = 0) :
    ∑ c ∈ Finset.range p.upperBound, f (p.members c) = ∑ nodes ∈ p.blocks n, f nodes := by
  rw [← h.sum_used, used, Finset.sum_filter_of_ne]
  intro c _ hc
  rw [Finset.nonempty_iff_ne_empty]
  intro hempty
  rw [hempty, hf] at hc
  exact hc rfl

end Partition

/-! ## Edges -/

namespace Link

variable {W : Type} {directed : Bool} {links links' : List (Link W)}

/-- The edges of a node to other nodes of a set. -/
def innerDegree (directed : Bool) (links : List (Link W)) (nodes : Finset Nat) (node : Nat) : Nat :=
  links.countP fun l =>
    l.standsAt directed true node && (l.across node ≠ node && l.across node ∈ nodes)

/-- The most edges that a node of a set has inside it. -/
def hub (directed : Bool) (links : List (Link W)) (nodes : Finset Nat) : Nat :=
  nodes.sup (innerDegree directed links nodes)

/-- What counts for a link as for its edge counts the same in every order. -/
theorem countP_of_perm (h : (links.map (listed directed)).Perm (links'.map (listed directed)))
    {good : Link W → Bool} (hgood : ∀ l : Link W, good (l.listed directed) = good l) :
    links.countP good = links'.countP good := by
  have hcount := h.countP_eq good
  rw [List.countP_map, List.countP_map] at hcount
  rwa [show good ∘ listed directed = good from funext hgood] at hcount

/-- What adds up over the links as over their edges is the same in every
order. -/
theorem sum_of_perm {links links' : List (Link ℚ)}
    (h : (links.map (listed directed)).Perm (links'.map (listed directed)))
    {f : Link ℚ → ℚ} (hf : ∀ l : Link ℚ, f (l.listed directed) = f l) :
    (links.map f).sum = (links'.map f).sum := by
  have hsum := (h.map f).sum_eq
  rw [List.map_map, List.map_map] at hsum
  rwa [show f ∘ listed directed = f from funext hf] at hsum

theorem listed_directed (l : Link W) : l.listed true = l :=
  rfl

/-- The hub of a set of nodes has the same degree, however the links are
ordered. -/
theorem hub_of_perm (h : (links.map (listed directed)).Perm (links'.map (listed directed)))
    (nodes : Finset Nat) : hub directed links nodes = hub directed links' nodes := by
  refine Finset.sup_congr rfl fun node _ => countP_of_perm h fun l => ?_
  cases directed with
  | true => rw [listed_directed]
  | false =>
    -- a link that is turned round stands at the same nodes, with the same ones across
    rcases l.listed_eq_or false with hlisted | hlisted
    · rw [hlisted]
    · rw [hlisted]
      simp only [standsAt_undirected, across]
      grind

end Link

/-! ## Hub dominance -/

namespace Quality

open GraphMeasures.Partition

section Subsets

variable {W : Type} {n : Nat} {weighted directed : Bool} {links : List (Link W)}
variable {p : Partition} {ids : Nat → Option Nat} {index : Option EdgeIndex}

/-- What goes to the subsets node by node goes to each subset from its nodes. A
subset that is not below the bound has no entry, and its nodes change
nothing. -/
theorem getElem?_foldl_modify (p : Partition) (change : Nat → Nat → Nat → Nat) (nodes : List Nat)
    (start : Array Nat) (c : Nat) :
    (nodes.foldl (fun sums node =>
        match p.subsetOf node with
        | some subset => sums.modify subset (change node subset)
        | none => sums) start)[c]? =
      start[c]?.map fun x =>
        (nodes.filter (p.subsetOf · = some c)).foldl (fun x node => change node c x) x := by
  -- along the nodes: each of them changes the entry of its own subset and no other
  induction nodes generalizing start with
  | nil => simp
  | cons node nodes ih =>
    rw [List.foldl_cons, ih]
    cases hsubset : p.subsetOf node with
    | none => simp [hsubset]
    | some subset =>
      rw [Array.getElem?_modify]
      by_cases hc : subset = c
      · subst hc
        simp [hsubset, Function.comp_def]
      · simp [hsubset, hc]

/-- The members of a subset, in the order of the nodes. -/
theorem toFinset_filter_range (hsize : p.size = n) (c : Nat) :
    ((List.range n).filter (p.subsetOf · = some c)).toFinset = p.members c := by
  ext v
  simp [members, hsize]

/-- The sizes of the subsets are the numbers of their members. The walk along
the nodes adds one at the entry of each node's subset; entry by entry that is a
count. -/
theorem toList_subsetSizes (hsize : p.size = n) :
    p.subsetSizes.toList = (List.range p.upperBound).map fun c => (p.members c).card := by
  -- the places in the order of the nodes, so that both folds go along the nodes
  have hlist : p.subsets.toList = (List.range n).map p.subsetOf := by
    refine List.ext_getElem (by simpa [size] using hsize) fun v hv _ => ?_
    simp at hv
    simp [subsetOf, hv]
  have hsizes : p.subsetSizes = (List.range n).foldl (fun sums node =>
      match p.subsetOf node with
      | some subset => sums.modify subset (· + 1)
      | none => sums) (Array.replicate p.upperBound 0) := by
    rw [subsetSizes, ← Array.foldl_toList, hlist]
    exact List.foldl_map
  have hcount : ∀ (nodes : List Nat) (x : Nat), nodes.foldl (fun x _ => x + 1) x = x + nodes.length := by
    intro nodes
    induction nodes with
    | nil => intro x; rfl
    | cons node nodes ih =>
      intro x
      rw [List.foldl_cons, ih, List.length_cons]
      omega
  -- entry by entry; an entry counts the nodes whose subset it belongs to
  refine List.ext_getElem? fun c => ?_
  rw [Array.getElem?_toList, hsizes]
  refine (getElem?_foldl_modify p (fun _ _ x => x + 1) _ _ c).trans ?_
  by_cases hc : c < p.upperBound
  · have hnodup : ((List.range n).filter (p.subsetOf · = some c)).Nodup := List.nodup_range.filter _
    have hcard : ((List.range n).filter (p.subsetOf · = some c)).length = (p.members c).card := by
      rw [← toFinset_filter_range hsize c, List.toFinset_card_of_nodup hnodup]
    simp [hc, hcount, hcard]
  · simp [hc]

/-- The internal degree counts the links of a node to its subset, without loops.
A link that is there twice counts twice, which is what lets a hub have more than
its share. -/
theorem internalDegree_ofLinks (hwithin : Graph.Within n links) (node c : Nat) :
    internalDegree p (Graph.ofLinks n weighted directed links ids index) node c =
      innerDegree directed links (p.members c) node := by
  -- the degree sees the far end and the weight of a half-edge, and both are the link's
  have hhalves : ∀ good : Nat × W → Bool,
      (Graph.halves directed true links ids node).countP (fun half => good (half.node, half.weight)) =
        links.countP fun l => l.standsAt directed true node && good (l.across node, l.weight) := by
    intro good
    have hcount : ((Graph.halves directed true links ids node).map
        fun half => (half.node, half.weight)).countP good =
          ((links.filter (standsAt directed true node)).map
            fun l => (l.across node, l.weight)).countP good := by
      rw [Graph.map_halves]
    rw [List.countP_map, List.countP_map, List.countP_filter] at hcount
    refine hcount.trans (List.countP_congr fun l _ => ?_)
    simp [and_comm]
  rw [internalDegree, Graph.neighbours_ofLinks hwithin, innerDegree]
  refine (hhalves fun x => x.1 ≠ node && p.subsetOf x.1 = some c).trans ?_
  simp only [mem_members]

/-- The largest internal degrees are those of the hubs: at every subset the
greatest number of edges that one of its members has to other members. -/
theorem toList_maxInternalDegrees (hsize : p.size = n) (hwithin : Graph.Within n links) :
    (maxInternalDegrees p (Graph.ofLinks n weighted directed links ids index)).toList =
      (List.range p.upperBound).map fun c => hub directed links (p.members c) := by
  -- a running maximum that starts with zero is a supremum
  have hmax : ∀ (nodes : List Nat) (f : Nat → Nat) (x : Nat),
      nodes.foldl (fun x node => max x (f node)) x = max x (nodes.toFinset.sup f) := by
    intro nodes f
    induction nodes with
    | nil => intro x; simp
    | cons node nodes ih =>
      intro x
      rw [List.foldl_cons, ih, List.toFinset_cons, Finset.sup_insert, max_assoc]
  refine List.ext_getElem? fun c => ?_
  rw [Array.getElem?_toList, maxInternalDegrees, Graph.nodeCount_ofLinks]
  refine (getElem?_foldl_modify p (fun node subset x => max x (internalDegree p
    (Graph.ofLinks n weighted directed links ids index) node subset)) _ _ c).trans ?_
  by_cases hc : c < p.upperBound
  · simp only [internalDegree_ofLinks hwithin, hmax, toFinset_filter_range hsize c]
    simp [hc, hub]
  · simp [hc]

variable [Scalar W]

/-- Hub dominance as a mean over the subsets that have a node. Sizes and degrees
are lists over all subsets below the bound, and only those with a node are
looked at. -/
theorem hubDominance_eq (htotal : p.ensureTotal n = .ok ()) (hwithin : Graph.Within n links) :
    hubDominance p (Graph.ofLinks n weighted directed links ids index) =
      if p.occupied.isEmpty then
        .error (.undefinedQuality "HubDominance" "the partition has no subsets")
      else .ok ((p.occupied.map fun c =>
          dominance (p.members c).card (hub directed links (p.members c))).foldl (· + ·) Scalar.zero /
        (Scalar.ofCount p.occupied.length : W)) := by
  have hsize := (ensureTotal_eq_ok_iff.1 htotal).1
  -- the subsets that are kept are those that have a node
  have hsubsets : ((p.subsetSizes.toList.zip
      (maxInternalDegrees p (Graph.ofLinks n weighted directed links ids index)).toList).filter
        (·.1 ≠ 0)) =
      p.occupied.map fun c => ((p.members c).card, hub directed links (p.members c)) := by
    rw [toList_subsetSizes hsize, toList_maxInternalDegrees hsize hwithin, List.zip_map',
      List.filter_map]
    refine congrArg (List.map _) (List.filter_congr fun c _ => ?_)
    rw [Function.comp_apply, decide_eq_decide]
    exact (Finset.card_ne_zero : (p.members c).card ≠ 0 ↔ _)
  rw [hubDominance, Graph.nodeCount_ofLinks, htotal]
  show (if _ then _ else _) = _
  rw [hsubsets, List.isEmpty_map, List.length_map, List.foldl_map, List.foldl_map]
  cases p.occupied.isEmpty <;> rfl

end Subsets

variable {n : Nat} {weighted weighted' directed : Bool} {links links' : List (Link ℚ)}
variable {p q : Partition} {ids ids' : Nat → Option Nat} {index index' : Option EdgeIndex}

/-- Hub dominance by blocks and links: the mean, over the blocks, of how large a
share of the other members the hub is joined to, and an error if there are no
blocks. -/
theorem hubDominance_ofLinks (h : p.Covers n) (hwithin : Graph.Within n links) :
    hubDominance p (Graph.ofLinks n weighted directed links ids index) =
      if p.blocks n = ∅ then
        .error (.undefinedQuality "HubDominance" "the partition has no subsets")
      else .ok ((∑ nodes ∈ p.blocks n, dominance nodes.card (hub directed links nodes)) /
        ((p.blocks n).card : ℚ)) := by
  have hsum : ∀ (shares : List ℚ) (x : ℚ), shares.foldl (· + ·) x = x + shares.sum := by
    intro shares
    induction shares with
    | nil => simp
    | cons share shares ih =>
      intro x
      rw [List.foldl_cons, ih, List.sum_cons, add_assoc]
  -- subsets without nodes add nothing, so the sum over the ids is one over the blocks
  have hused : (p.occupied.map fun c =>
      (dominance (p.members c).card (hub directed links (p.members c)) : ℚ)).sum =
        ∑ nodes ∈ p.blocks n, dominance nodes.card (hub directed links nodes) :=
    h.sum_used fun nodes => dominance nodes.card (hub directed links nodes)
  have hlength : p.occupied.length = (p.blocks n).card := h.card_used
  rw [hubDominance_eq h.ensureTotal_eq hwithin, hsum, hlength, h.isEmpty_occupied, Scalar.zero_rat,
    zero_add, hused]
  by_cases hblocks : p.blocks n = ∅
  · rw [if_pos (decide_eq_true hblocks), if_pos hblocks]
  · rw [if_neg (by simpa using hblocks), if_neg hblocks]
    rfl

/-! ## Measures -/

/-- Coverage by links: the weight of the links inside a subset by that of all
links, and an error if all links together weigh nothing. -/
theorem coverage_ofLinks (htotal : p.ensureTotal n = .ok ()) (hwithin : Graph.Within n links) :
    coverage p (Graph.ofLinks n weighted directed links ids index) =
      if total links = 0 then .error (noWeight "Coverage")
      else .ok (inside p links / total links) := by
  rw [coverage, Graph.nodeCount_ofLinks, htotal, insideAndTotal_ofLinks p hwithin]
  show (if Scalar.isZero (total links) = true then _ else _) = _
  rw [Scalar.isZero_rat]
  by_cases hzero : total links = 0
  · rw [if_pos (decide_eq_true hzero), if_pos hzero]
    rfl
  · rw [if_neg (by rwa [decide_eq_true_eq]), if_neg hzero]
    rfl

/-- Edge cut by links. -/
theorem edgeCut_ofLinks (htotal : p.ensureTotal n = .ok ()) (hwithin : Graph.Within n links) :
    edgeCut p (Graph.ofLinks n weighted directed links ids index) =
      .ok (total links - inside p links) := by
  rw [edgeCut, Graph.nodeCount_ofLinks, htotal, insideAndTotal_ofLinks p hwithin]
  rfl

section Congr

variable (hp : p.Covers n) (hq : q.Covers n) (halike : p.Alike n q)
variable (hwithin : Graph.Within n links) (hwithin' : Graph.Within n links')
variable (hperm : (links.map (listed directed)).Perm (links'.map (listed directed)))

include hperm

theorem total_of_perm : total links = total links' :=
  sum_of_perm hperm fun _ => rfl

/-- The same edges are at a set of nodes. Without a direction it does not matter
which of its ends a link names first. -/
theorem weightAt_of_perm (hdirected : directed = false) (nodes : Finset Nat) :
    weightAt links nodes = weightAt links' nodes := by
  subst hdirected
  refine sum_of_perm hperm fun l => ?_
  rcases l.listed_eq_or false with hlisted | hlisted
  · rw [hlisted]
  · rw [hlisted, add_comm]

theorem weightFrom_of_perm (hdirected : directed = true) (nodes : Finset Nat) :
    weightFrom links nodes = weightFrom links' nodes := by
  subst hdirected
  exact sum_of_perm hperm fun _ => rfl

theorem weightInto_of_perm (hdirected : directed = true) (nodes : Finset Nat) :
    weightInto links nodes = weightInto links' nodes := by
  subst hdirected
  exact sum_of_perm hperm fun _ => rfl

include halike hwithin

/-- The same links are inside. Whether one is, is decided by two nodes that are
together in both partitions or in neither. -/
theorem inside_congr : inside p links = inside q links' := by
  have hnames : inside p links = inside q links := by
    refine congrArg List.sum (List.map_congr_left fun l hl => ?_)
    obtain ⟨hsource, htarget⟩ := hwithin l hl
    exact if_congr (halike l.source hsource l.target htarget) rfl rfl
  rw [hnames]
  refine sum_of_perm hperm fun l => ?_
  rcases l.listed_eq_or directed with hlisted | hlisted
  · rw [hlisted]
  · rw [hlisted]
    simp only [eq_comm]

include hp hq

/-- The definition of modularity does not see names: it is a sum over the
subsets in which sets without nodes add nothing, hence a sum over the blocks.
Nor does it see the order of the edges, or in which direction an undirected one
was given. -/
theorem newman_congr : newman p directed links = newman q directed links' := by
  have hblocks : p.blocks n = q.blocks n := halike.blocks_eq
  -- a sum over the ids in use is one over the blocks, and these the partitions share
  have hsum : ∀ f f' : Finset Nat → ℚ, f ∅ = 0 → f' ∅ = 0 → (∀ nodes, f nodes = f' nodes) →
      ∑ c ∈ Finset.range p.upperBound, f (p.members c) =
        ∑ c ∈ Finset.range q.upperBound, f' (q.members c) := by
    intro f f' hf hf' hsame
    rw [hp.sum_members hf, hq.sum_members hf', hblocks]
    exact Finset.sum_congr rfl fun nodes _ => hsame nodes
  unfold newman
  rw [inside_congr halike hwithin hperm, total_of_perm hperm]
  cases directed with
  | true =>
    rw [if_pos rfl, if_pos rfl, hsum (fun nodes => weightFrom links nodes * weightInto links nodes)
      (fun nodes => weightFrom links' nodes * weightInto links' nodes)
      (by simp [weightFrom, mark]) (by simp [weightFrom, mark])]
    intro nodes
    rw [weightFrom_of_perm hperm rfl, weightInto_of_perm hperm rfl]
  | false =>
    rw [if_neg Bool.false_ne_true, if_neg Bool.false_ne_true,
      hsum (fun nodes => weightAt links nodes ^ 2) (fun nodes => weightAt links' nodes ^ 2)
        (by simp [weightAt, mark]) (by simp [weightAt, mark])]
    intro nodes
    rw [weightAt_of_perm hperm rfl]

include hwithin'

/-- Coverage sees neither names nor the order of the edges. -/
theorem coverage_congr :
    coverage p (Graph.ofLinks n weighted directed links ids index) =
      coverage q (Graph.ofLinks n weighted' directed links' ids' index') := by
  rw [coverage_ofLinks hp.ensureTotal_eq hwithin, coverage_ofLinks hq.ensureTotal_eq hwithin',
    inside_congr halike hwithin hperm, total_of_perm hperm]

/-- The cut does not either. -/
theorem edgeCut_congr :
    edgeCut p (Graph.ofLinks n weighted directed links ids index) =
      edgeCut q (Graph.ofLinks n weighted' directed links' ids' index') := by
  rw [edgeCut_ofLinks hp.ensureTotal_eq hwithin, edgeCut_ofLinks hq.ensureTotal_eq hwithin',
    inside_congr halike hwithin hperm, total_of_perm hperm]

/-- Nor does hub dominance, which is known by blocks and hubs. -/
theorem hubDominance_congr :
    hubDominance p (Graph.ofLinks n weighted directed links ids index) =
      hubDominance q (Graph.ofLinks n weighted' directed links' ids' index') := by
  rw [hubDominance_ofLinks hp hwithin, hubDominance_ofLinks hq hwithin', halike.blocks_eq]
  simp only [hub_of_perm hperm]

/-- Nor does modularity. -/
theorem modularity_congr :
    modularity p (Graph.ofLinks n weighted directed links ids index) =
      modularity q (Graph.ofLinks n weighted' directed links' ids' index') := by
  rw [modularity_ofLinks hp hwithin, modularity_ofLinks hq hwithin',
    newman_congr hp hq halike hwithin hperm, total_of_perm hperm]

end Congr

/-! ## Graphs that can be reached -/

section Reached

variable {W : Type} [Scalar W] {g : Graph W}

/-- In any arithmetic the same edges are inside, one after the other. So both
sums are made of the same numbers in the same order, and come out the same to
the last digit. -/
theorem insideAndTotal_alike (halike : p.Alike n q)
    (hends : ∀ e ∈ g.edges, e.source < n ∧ e.target < n) :
    insideAndTotal p g = insideAndTotal q g := by
  refine List.foldl_ext _ _ _ fun sums e he => ?_
  obtain ⟨hsource, htarget⟩ := hends e he
  exact congrArg (Prod.mk · _) (if_congr (halike _ hsource _ htarget) rfl rfl)

/-- Modularity has only one error, since the sums for the subsets have none when
every subset is below the bound: that of a total weight of zero. -/
theorem modularity_eq_error_iff (h : p.Covers g.nodeCount) {failure : Failure EngineError} :
    modularity p g = .error failure ↔
      Scalar.isZero (insideAndTotal p g).2 = true ∧ failure = .error (noWeight "Modularity") := by
  have hexpected := ends_expectedCoverage h (insideAndTotal p g).2
  rw [modularity, h.ensureTotal_eq]
  -- whether the total is zero is all that matters of it
  generalize insideAndTotal p g = sums at hexpected ⊢
  show (if Scalar.isZero sums.2 = true then _ else _) = _ ↔ _
  by_cases hzero : Scalar.isZero sums.2 = true
  · rw [if_pos hzero]
    show Except.error _ = Except.error _ ↔ _
    rw [Except.error.injEq]
    exact ⟨fun he => ⟨hzero, he.symm⟩, fun he => he.2.symm⟩
  · rw [if_neg hzero]
    cases hok : expectedCoverage p g sums.2 with
    | error e =>
      rw [hok] at hexpected
      exact hexpected.elim
    | ok expected =>
      show Except.ok _ = Except.error _ ↔ _
      simp [hzero]

/-- Hub dominance has only one error too: there has to be a node. -/
theorem hubDominance_eq_error_iff {links : List (Link W)} (h : p.Covers n)
    (hwithin : Graph.Within n links) {e : EngineError} :
    hubDominance p (Graph.ofLinks n weighted directed links ids index) = .error e ↔
      p.blocks n = ∅ ∧ e = .undefinedQuality "HubDominance" "the partition has no subsets" := by
  rw [hubDominance_eq h.ensureTotal_eq hwithin, h.isEmpty_occupied]
  by_cases hempty : p.blocks n = ∅
  · simp [hempty, eq_comm]
  · simp [hempty]

end Reached

/-- Two partitions have the same quality on a graph, which the measures that only walk
along the edges show to the last bit. The other two make sums for each subset, in the
order of their numbers: these are the same in exact arithmetic, and there is one in
doubles for both partitions or for none. -/
structure SameQuality (p q : Partition) (g : Graph Float) : Prop where
  coverage_eq : coverage p g = coverage q g
  edgeCut_eq : edgeCut p g = edgeCut q g
  hubDominance_eq : ∀ value : Float → ℚ,
    hubDominance p (g.map value) = hubDominance q (g.map value)
  modularity_eq : ∀ value : Float → ℚ, modularity p (g.map value) = modularity q (g.map value)
  hubDominance_error_iff : ∀ e, hubDominance p g = .error e ↔ hubDominance q g = .error e
  modularity_error_iff : ∀ failure, modularity p g = .error failure ↔
    modularity q g = .error failure

/-- **Quality does not see names.** On every graph that can be reached, two partitions
of all its nodes that put the same nodes together have the same quality, whatever moves
have made them and however far these have pushed their bounds. -/
theorem sameQuality_of_alike {weighted directed : Bool} {steps : List Step}
    (hp : p.Reachable n) (hq : q.Reachable n) (hpTotal : p.ensureTotal n = .ok ())
    (hqTotal : q.ensureTotal n = .ok ())
    (hpTop : ∀ node subset, p.subsetOf node = some subset → subset < Index.top)
    (hqTop : ∀ node subset, q.subsetOf node = some subset → subset < Index.top)
    (halike : p.Alike n q) : SameQuality p q ((Graph.empty n weighted directed).run steps) := by
  have hpCovers := hp.capped.covers hpTotal hpTop
  have hqCovers := hq.capped.covers hqTotal hqTop
  have hholds := Graph.holds_run n weighted directed steps
  have hends : ∀ e ∈ ((Graph.empty n weighted directed).run steps).edges,
      e.source < n ∧ e.target < n := by
    have hfaithful := hholds.faithful.ends
    rwa [hholds.nodeCount_eq] at hfaithful
  have hnodes := hholds.nodeCount_eq
  have hsums := insideAndTotal_alike halike hends
  -- with exact weights it is still a graph of links, so the sums over blocks apply
  obtain ⟨ids, index, hshape⟩ := hholds.shape
  have hmap : ∀ value : Float → ℚ, ((Graph.empty n weighted directed).run steps).map value =
      Graph.ofLinks n weighted directed _ ids index := fun value => by
    rw [hshape, Graph.map_ofLinks]
  have hwithin := fun value : Float → ℚ => hholds.within.map value
  constructor
  case coverage_eq => rw [coverage, coverage, hnodes, hpTotal, hqTotal, hsums]
  case edgeCut_eq => rw [edgeCut, edgeCut, hnodes, hpTotal, hqTotal, hsums]
  case hubDominance_eq =>
    intro value
    rw [hmap value]
    exact hubDominance_congr hpCovers hqCovers halike (hwithin value) (hwithin value) (.refl _)
  case modularity_eq =>
    intro value
    rw [hmap value]
    exact modularity_congr hpCovers hqCovers halike (hwithin value) (hwithin value) (.refl _)
  case hubDominance_error_iff =>
    intro e
    rw [hshape, hubDominance_eq_error_iff hpCovers hholds.within,
      hubDominance_eq_error_iff hqCovers hholds.within, halike.blocks_eq]
  case modularity_error_iff =>
    intro failure
    rw [modularity_eq_error_iff (by rwa [hnodes]), modularity_eq_error_iff (by rwa [hnodes]), hsums]

/-- Two nodes together and one alone: one partition has moved all nodes and left a bound
far above its subsets, the other has moved one node. -/
theorem sameQuality_of_alike_moved :
    let p := (Partition.unassigned 3).moveAll [(0, 9), (1, 9), (2, 4), (0, 2), (1, 2)]
    let q := (Partition.singletons 3).moveAll [(1, 0)]
    let steps : List Step := [.add 0 1 1.0, .add 1 0 2.0, .add 2 2 1.0, .add 1 2 0.5]
    p.upperBound = 10 ∧ q.upperBound = 3 ∧ p.Alike 3 q ∧
      SameQuality p q ((Graph.empty 3 true false).run steps) := by
  intro p q steps
  have hp : p = ⟨#[some 2, some 2, some 4], 10⟩ := by decide +kernel
  have hq : q = ⟨#[some 0, some 0, some 2], 3⟩ := by decide +kernel
  have hpTotal : p.ensureTotal 3 = .ok () := Partition.ensureTotal_eq_ok_iff.2 (by rw [hp]; decide)
  have hqTotal : q.ensureTotal 3 = .ok () := Partition.ensureTotal_eq_ok_iff.2 (by rw [hq]; decide)
  have hbelow : ∀ r : Partition, (∀ slot ∈ r.subsets, ∀ s ∈ slot, s < Index.top) →
      ∀ node subset, r.subsetOf node = some subset → subset < Index.top := by
    intro r hr node subset hsubset
    exact hr _ (Array.mem_of_getElem? (Option.join_eq_some_iff.1 hsubset)) subset rfl
  have halike : p.Alike 3 q := by
    rw [hp, hq]
    show ∀ v < 3, ∀ w < 3, _
    decide
  exact ⟨by rw [hp], by rw [hq], halike,
    sameQuality_of_alike ⟨_, _, Or.inl rfl, rfl⟩ ⟨_, _, Or.inr rfl, rfl⟩ hpTotal hqTotal
      (hbelow p (by rw [hp]; decide)) (hbelow q (by rw [hq]; decide)) halike⟩

end Quality

end GraphMeasures
