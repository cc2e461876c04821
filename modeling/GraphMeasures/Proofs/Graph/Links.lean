import GraphMeasures.Graph.Lemmas
import GraphMeasures.Proofs.StableOrder

/-!
# GraphMeasures — graphs as lists of links

A **link** is what a caller adds to a graph: two ends in the order in which they
are given, and a weight. A graph is known completely by its links in the order
in which they were added, by the id that each of them has at present, and by its
index. `Graph.ofLinks` writes that graph down in one go:

* the list of a node holds the half-edges of the links at that node, in order;
* the twin of a half-edge stands behind those of the earlier links in the other
  list, so its position is a count (`Link.seat`).

`insertEdge_ofLinks` says that adding an edge appends a link. Everything a graph
shows is then read off its links: `neighbours_ofLinks`, `inNeighbours_ofLinks`,
`edges_ofLinks`, and `twin_halves` for the twins.
-/

namespace GraphMeasures

/-- What a caller adds to a graph. -/
structure Link (W : Type) where
  source : Nat
  target : Nat
  weight : W
deriving Repr, DecidableEq

/-- The ends of an edge as it is listed: of an undirected one the larger first. -/
def facing (directed : Bool) (ends : Nat × Nat) : Nat × Nat :=
  if directed || ends.2 ≤ ends.1 then ends else (ends.2, ends.1)

namespace Link

variable {W : Type}

/-- The link of a listed edge. -/
def ofEdge (e : Edge W) : Link W :=
  ⟨e.source, e.target, e.weight⟩

/-- The ends in the order in which they were given. -/
def ends (l : Link W) : Nat × Nat :=
  (l.source, l.target)

/-- The link as its edge is listed. -/
def listed (directed : Bool) (l : Link W) : Link W :=
  ⟨(facing directed l.ends).1, (facing directed l.ends).2, l.weight⟩

/-- The node at which the edge of a link is listed. -/
def node (directed : Bool) (l : Link W) : Nat :=
  (facing directed l.ends).1

/-- The end across from a node at which a link has the other end. -/
def across (l : Link W) (node : Nat) : Nat :=
  if l.source = node then l.target else l.source

/-- Whether a link has a half-edge in the outgoing list of a node, or else in
the incoming one. In an undirected graph there is no difference. -/
def standsAt (directed outgoing : Bool) (node : Nat) (l : Link W) : Bool :=
  (if outgoing then l.source else l.target) = node ||
    !directed && (if outgoing then l.target else l.source) = node

variable {directed outgoing : Bool} {node : Nat} {l : Link W}

/-- A link has half-edges at its ends only. -/
theorem end_of_standsAt (h : l.standsAt directed outgoing node) :
    l.source = node ∨ l.target = node := by
  cases outgoing <;> simp [standsAt] at h <;> tauto

/-- Undirected graphs have one list only: a link stands in it at either end. -/
theorem standsAt_undirected (outgoing : Bool) (node : Nat) (l : Link W) :
    l.standsAt false outgoing node = (l.source = node || l.target = node) := by
  cases outgoing <;> simp [standsAt, Bool.or_comm]

/-- So in an undirected graph it makes no difference which of the lists is asked
for. -/
theorem standsAt_incoming :
    (standsAt false false : Nat → Link W → Bool) = standsAt false true := by
  funext node l
  rw [standsAt_undirected, standsAt_undirected]

/-- Across from a link's half-edge its other half-edge stands in the list of the
other kind. -/
theorem standsAt_across (h : l.standsAt directed outgoing node) :
    l.standsAt directed (!outgoing) (l.across node) := by
  cases outgoing <;> cases directed <;> simp [standsAt, across] at h ⊢ <;> grind

theorem across_source (l : Link W) : l.across l.source = l.target := by
  rw [across, if_pos rfl]

/-- Across from the target is the source. For a loop that is the target
again. -/
theorem across_target (l : Link W) : l.across l.target = l.source := by
  unfold across
  split
  · exact Eq.symm ‹_›
  · rfl

/-- Across twice is where one came from. -/
theorem across_across (h : l.standsAt directed outgoing node) :
    l.across (l.across node) = node := by
  have h := end_of_standsAt h
  grind [across]

/-- A half-edge stands for its edge at the node at which the edge is listed. Of
the two half-edges in an undirected graph it is the one at the larger end, so
each edge is listed once. -/
theorem listed_at_iff :
    l.node directed = node ↔
      l.standsAt directed true node ∧ (directed || l.across node ≤ node) = true := by
  cases directed <;> grind [Link.node, facing, ends, standsAt, across]

/-- Seen from where a link is listed, across is its far end in the order in
which its ends are shown. -/
theorem across_eq_listed (h : l.node directed = node) :
    l.across node = (facing directed l.ends).2 := by
  cases directed <;> grind [Link.node, facing, ends, across]

/-! ## Positions -/

/-- How many of the first `k` links stand in a list: the position there of the
link with number `k`. -/
def seat (directed outgoing : Bool) (links : List (Link W)) (node k : Nat) : Nat :=
  (links.take k).countP (standsAt directed outgoing node)

end Link

open Link

namespace Graph

variable {W : Type}

/-- The half-edge that a link with its number leaves at a node. -/
def halfOf (directed outgoing : Bool) (links : List (Link W)) (ids : Nat → Option Nat)
    (node : Nat) (l : Link W × Nat) : HalfEdge W where
  node := l.1.across node
  weight := l.1.weight
  twin := seat directed (!outgoing) links (l.1.across node) l.2
  id := ids l.2

/-- The links with a half-edge in a list, with their numbers. -/
def seated (directed outgoing : Bool) (links : List (Link W)) (node : Nat) :
    List (Link W × Nat) :=
  links.zipIdx.filter fun l => l.1.standsAt directed outgoing node

/-- The half-edges that links leave at a node. -/
def halves (directed outgoing : Bool) (links : List (Link W)) (ids : Nat → Option Nat)
    (node : Nat) : List (HalfEdge W) :=
  (seated directed outgoing links node).map (halfOf directed outgoing links ids node)

/-- The lists of all nodes. -/
def rows (nodeCount : Nat) (directed outgoing : Bool) (links : List (Link W))
    (ids : Nat → Option Nat) : Array (Array (HalfEdge W)) :=
  (Array.range nodeCount).map fun node => (halves directed outgoing links ids node).toArray

/-- The graph with the given links, each with its present id. -/
def ofLinks (nodeCount : Nat) (weighted directed : Bool) (links : List (Link W))
    (ids : Nat → Option Nat) (index : Option EdgeIndex) : Graph W where
  directed := directed
  weighted := weighted
  outgoing := rows nodeCount directed true links ids
  incoming := if directed then rows nodeCount directed false links ids else #[]
  edgeCount := links.length
  index := index

/-- All ends exist. -/
def Within (nodeCount : Nat) (links : List (Link W)) : Prop :=
  ∀ l ∈ links, l.source < nodeCount ∧ l.target < nodeCount

variable {n : Nat} {weighted directed outgoing : Bool} {links : List (Link W)}
variable {ids : Nat → Option Nat} {index : Option EdgeIndex} {node : Nat}

/-- One more link within the nodes. -/
theorem Within.append {l : Link W} (h : Within n links) (hs : l.source < n) (ht : l.target < n) :
    Within n (links ++ [l]) := by
  intro m hm
  rcases List.mem_append.1 hm with hm | hm
  · exact h m hm
  · obtain rfl := List.mem_singleton.1 hm
    exact ⟨hs, ht⟩

/-- Links are listed at nodes that exist. -/
theorem Within.node_lt (h : Within n links) {l : Link W} (hl : l ∈ links) (directed : Bool) :
    l.node directed < n := by
  obtain ⟨hs, ht⟩ := h l hl
  unfold Link.node facing
  split
  · exact hs
  · exact ht

/-! ## The half-edges at a node -/

/-- A numbered link has the number of its position. -/
theorem mem_zipIdx_iff {l : Link W} {k i : Nat} :
    links.zipIdx[i]? = some (l, k) ↔ links[i]? = some l ∧ k = i := by
  rw [List.getElem?_zipIdx]
  cases links[i]? with
  | none => simp
  | some m => simp [eq_comm]

theorem countP_fst {q : Link W → Bool} (numbered : List (Link W × Nat)) :
    (numbered.map Prod.fst).countP q = numbered.countP (fun l => q l.1) :=
  List.countP_map

/-- There are as many half-edges at a node as links that stand there. -/
theorem length_halves :
    (halves directed outgoing links ids node).length =
      links.countP (standsAt directed outgoing node) := by
  rw [halves, List.length_map, seated, ← List.countP_eq_length_filter]
  rw [← countP_fst, List.zipIdx_map_fst]

/-- The entries of a list are the links that stand in it, each at its seat. With
this every question about half-edges is one about links: a position is the
number of links before it that stand in the same list. -/
theorem getElem?_halves_iff {p : Nat} {half : HalfEdge W} :
    (halves directed outgoing links ids node)[p]? = some half ↔
      ∃ k l, links[k]? = some l ∧ l.standsAt directed outgoing node = true ∧
        p = seat directed outgoing links node k ∧
        half = halfOf directed outgoing links ids node (l, k) := by
  have hseat : ∀ k, (links.zipIdx.take k).countP (fun l => l.1.standsAt directed outgoing node) =
      seat directed outgoing links node k := by
    intro k
    rw [← countP_fst, List.map_take, List.zipIdx_map_fst, seat]
  simp only [halves, List.getElem?_map, Option.map_eq_some_iff, seated]
  constructor
  · rintro ⟨⟨l, k⟩, hp, rfl⟩
    obtain ⟨i, hi, hstands, rfl⟩ := StableOrder.getElem?_filter_iff.1 hp
    obtain ⟨hl, rfl⟩ := mem_zipIdx_iff.1 hi
    exact ⟨k, l, hl, hstands, hseat k, rfl⟩
  · rintro ⟨k, l, hl, hstands, rfl, rfl⟩
    refine ⟨(l, k), ?_, rfl⟩
    rw [StableOrder.getElem?_filter_iff]
    exact ⟨k, mem_zipIdx_iff.2 ⟨hl, rfl⟩, hstands, (hseat k).symm⟩

/-- Undirected graphs make no difference between outgoing and incoming. -/
theorem halves_undirected :
    halves false false links ids = halves false true links ids := by
  funext node
  unfold halves seated
  refine congrArg₂ List.map ?_ ?_
  · funext l
    simp only [halfOf, seat, Bool.not_false, Bool.not_true, standsAt_incoming]
  · rw [standsAt_incoming]

/-- The twin of a half-edge is where it says, in the other list at the far end,
and has the half-edge as its own twin. Both have the weight and the id of their
link. -/
theorem twin_halves {p : Nat} {half : HalfEdge W}
    (h : (halves directed outgoing links ids node)[p]? = some half) :
    (halves directed (!outgoing) links ids half.node)[half.twin]? =
      some ⟨node, half.weight, p, half.id⟩ := by
  obtain ⟨k, l, hl, hstands, rfl, rfl⟩ := getElem?_halves_iff.1 h
  -- it is the other half-edge of the same link
  rw [getElem?_halves_iff]
  refine ⟨k, l, hl, standsAt_across hstands, rfl, ?_⟩
  simp only [halfOf, across_across hstands, Bool.not_not]

/-! ## One more link -/

/-- Only the links in front of a link decide where it stands. -/
theorem seat_append {l : Link W} {k : Nat} (hk : k ≤ links.length) :
    seat directed outgoing (links ++ [l]) node k = seat directed outgoing links node k := by
  rw [seat, List.take_append_of_le_length hk, seat]

/-- A link that comes next stands behind all that are there. -/
theorem seat_length :
    seat directed outgoing links node links.length =
      links.countP (standsAt directed outgoing node) := by
  rw [seat, List.take_length]

/-- A new link leaves a half-edge behind the others, or none. Its twin is where
the list at the far end stops, which is where that half-edge is put in the same
step. -/
theorem halves_concat (l : Link W) :
    halves directed outgoing (links ++ [l]) ids node =
      halves directed outgoing links ids node ++
        if l.standsAt directed outgoing node then
          [⟨l.across node, l.weight,
            links.countP (standsAt directed (!outgoing) (l.across node)), ids links.length⟩]
        else [] := by
  rw [halves, seated, List.zipIdx_append, List.filter_append, List.map_append]
  congr 1
  -- the links that were there stay where they are
  · rw [halves, seated]
    refine List.map_congr_left fun numbered hm => ?_
    obtain ⟨m, k⟩ := numbered
    have hk : k < links.length := by
      have hk := List.mem_zipIdx (List.mem_filter.1 hm).1
      omega
    simp only [halfOf, seat_append hk.le]
  · by_cases hstands : l.standsAt directed outgoing node = true
    · simp [hstands, halfOf, seat_append (Nat.le_refl _), seat_length]
    · simp [hstands]

/-- Only the ids of the links in a list matter there, so two numberings that
agree on the links at a node make the same list of half-edges. -/
theorem halves_congr {ids' : Nat → Option Nat}
    (h : ∀ k l, links[k]? = some l → l.standsAt directed outgoing node = true → ids k = ids' k) :
    halves directed outgoing links ids node = halves directed outgoing links ids' node := by
  unfold halves seated
  refine List.map_congr_left fun numbered hl => ?_
  obtain ⟨l, k⟩ := numbered
  obtain ⟨hl, hstands⟩ := List.mem_filter.1 hl
  have hk : links[k]? = some l := List.mem_zipIdx_iff_getElem?.1 hl
  simp only [halfOf, h k l hk hstands]

/-- A new link has no id, and the others keep theirs. -/
def idsWithNew (links : List (Link W)) (ids : Nat → Option Nat) (k : Nat) : Option Nat :=
  if k < links.length then ids k else none

/-- The same with a link that has no id yet, as links have when they are
added. -/
theorem halves_append (l : Link W) :
    halves directed outgoing (links ++ [l]) (idsWithNew links ids) node =
      halves directed outgoing links ids node ++
        if l.standsAt directed outgoing node then
          [⟨l.across node, l.weight,
            links.countP (standsAt directed (!outgoing) (l.across node)), none⟩]
        else [] := by
  have hold : halves directed outgoing links (idsWithNew links ids) node =
      halves directed outgoing links ids node := by
    refine halves_congr fun k l hl _ => ?_
    rw [idsWithNew, if_pos (List.getElem?_eq_some_iff.1 hl).1]
  rw [halves_concat, hold, idsWithNew, if_neg (Nat.lt_irrefl _)]

/-- A half-edge put at the end of one row changes this row and no other, also
when rows are described by a function of their node. -/
theorem pushHalf_rows (f : Nat → Array (HalfEdge W)) (node far : Nat) (weight : W) (twin : Nat) :
    pushHalf ((Array.range n).map f) node far weight twin =
      (Array.range n).map fun v =>
        if v = node then (f v).push ⟨far, weight, twin, none⟩ else f v := by
  refine Array.ext (by simp [pushHalf]) fun v _ _ => ?_
  simp only [pushHalf, Array.getElem_modify, Array.getElem_map, Array.getElem_range]
  by_cases h : node = v
  · rw [if_pos h, if_pos h.symm]
  · rw [if_neg h, if_neg (Ne.symm h)]

theorem size_row (hnode : node < n) :
    ((rows n directed outgoing links ids).getD node #[]).size =
      links.countP (standsAt directed outgoing node) := by
  simp [rows, Array.getD, hnode, length_halves]

/-- The lists change at one node only when the new link stands at one node only:
for a loop, and in a directed graph, where one end is in the outgoing lists and
the other in the incoming ones. -/
theorem rows_append {l : Link W} {far : Nat}
    (hnode : ∀ v, l.standsAt directed outgoing v = decide (v = node)) (hfar : l.across node = far) :
    rows n directed outgoing (links ++ [l]) (idsWithNew links ids) =
      pushHalf (rows n directed outgoing links ids) node far l.weight
        (links.countP (standsAt directed (!outgoing) far)) := by
  rw [rows, rows, pushHalf_rows]
  refine congrArg (Array.map · _) (funext fun v => ?_)
  rw [halves_append, hnode]
  by_cases hv : v = node
  · subst hv
    simp [hfar]
  · simp [hv]

/-- A link between two nodes of an undirected graph stands at either, so two
rows grow. Each of the new half-edges names the place of the other, which is the
end of its row. -/
theorem rows_append_both {l : Link W} (h : l.source ≠ l.target) :
    rows n false true (links ++ [l]) (idsWithNew links ids) =
      pushHalf (pushHalf (rows n false true links ids) l.source l.target l.weight
        (links.countP (standsAt false true l.target))) l.target l.source l.weight
        (links.countP (standsAt false true l.source)) := by
  rw [rows, rows, pushHalf_rows, pushHalf_rows]
  -- node by node; the two ends are different
  refine congrArg (Array.map · _) (funext fun v => ?_)
  rw [halves_append, standsAt_undirected, Bool.not_true, standsAt_incoming]
  by_cases ht : v = l.target
  · subst ht
    simp [across_target, h.symm]
  · by_cases hs : v = l.source
    · subst hs
      simp [across_source, h]
    · simp [ht, hs, Ne.symm ht, Ne.symm hs]

/-- Adding an edge appends a link. The cases are those of the function: in a
directed graph a half-edge goes to each kind of list, in an undirected one two
of them go to the same lists, or one if the link is a loop. The index is gone in
each. -/
theorem insertEdge_ofLinks (l : Link W) (hs : l.source < n) (ht : l.target < n) :
    (ofLinks n weighted directed links ids index).insertEdge l.source l.target l.weight =
      ofLinks n weighted directed (links ++ [l]) (idsWithNew links ids) none := by
  cases directed with
  | true =>
    -- one half-edge for each of the two kinds of lists, also of a loop
    have hout : rows n true true (links ++ [l]) (idsWithNew links ids) =
        pushHalf (rows n true true links ids) l.source l.target l.weight
          (links.countP (standsAt true false l.target)) :=
      rows_append (fun v => by simp [standsAt, eq_comm]) l.across_source
    have hin : rows n true false (links ++ [l]) (idsWithNew links ids) =
        pushHalf (rows n true false links ids) l.target l.source l.weight
          (links.countP (standsAt true true l.source)) :=
      rows_append (fun v => by simp [standsAt, eq_comm]) l.across_target
    simp only [insertEdge, ofLinks, degree, if_true, size_row hs, size_row ht, hout, hin,
      List.length_append, List.length_singleton]
  | false =>
    -- a loop is stored once, at its only end
    by_cases hloop : l.source = l.target
    · have hout : rows n false true (links ++ [l]) (idsWithNew links ids) =
          pushHalf (rows n false true links ids) l.source l.target l.weight
            (links.countP (standsAt false true l.source)) := by
        have hnode : ∀ v, l.standsAt false true v = decide (v = l.source) := by
          intro v
          rw [standsAt_undirected, ← hloop, Bool.or_self]
          exact decide_eq_decide.2 eq_comm
        rw [rows_append hnode l.across_source, Bool.not_true, standsAt_incoming, ← hloop]
      simp only [insertEdge, ofLinks, degree, size_row hs, if_pos hloop, hout, Bool.false_eq_true,
        if_false, List.length_append, List.length_singleton]
    · simp only [insertEdge, ofLinks, degree, size_row hs, size_row ht, if_neg hloop,
        rows_append_both hloop, Bool.false_eq_true, if_false, List.length_append,
        List.length_singleton]

/-- Without links there is the graph that one starts with. -/
theorem ofLinks_nil :
    ofLinks n weighted directed ([] : List (Link W)) ids none = empty n weighted directed := by
  have hrows : ∀ outgoing, rows n directed outgoing ([] : List (Link W)) ids =
      Array.replicate n #[] := by
    intro outgoing
    refine Array.ext (by simp [rows]) fun v _ _ => ?_
    simp [rows, halves, seated]
  simp only [ofLinks, empty, hrows, List.length_nil]

/-! ## What a graph shows -/

@[simp]
theorem nodeCount_ofLinks :
    (ofLinks n weighted directed links ids index).nodeCount = n := by
  simp [ofLinks, nodeCount, rows]

/-- No link stands at a node that does not exist. -/
theorem halves_eq_nil (hwithin : Within n links) (hnode : n ≤ node) :
    halves directed outgoing links ids node = [] := by
  have hnone : links.countP (standsAt directed outgoing node) = 0 := by
    rw [List.countP_eq_zero]
    intro l hl hstands
    obtain ⟨hs, ht⟩ := hwithin l hl
    rcases end_of_standsAt hstands with h | h <;> omega
  rw [← List.length_eq_zero_iff, length_halves, hnone]

/-- The row of a node, which is empty for one that does not exist. -/
theorem toList_row (hwithin : Within n links) :
    ((rows n directed outgoing links ids).getD node #[]).toList =
      halves directed outgoing links ids node := by
  by_cases hnode : node < n
  · simp [rows, Array.getD, hnode]
  · rw [halves_eq_nil hwithin (by omega)]
    simp [rows, Array.getD, hnode]

/-- The neighbours of a node are the half-edges of the links that go out from
it, or in an undirected graph of all links at it. -/
theorem neighbours_ofLinks (hwithin : Within n links) :
    (ofLinks n weighted directed links ids index).neighbours node =
      halves directed true links ids node :=
  toList_row hwithin

/-- The neighbours into a node are the half-edges of the links that come in.
Undirected graphs keep no lists for them and show those that go out. -/
theorem inNeighbours_ofLinks (hwithin : Within n links) :
    (ofLinks n weighted directed links ids index).inNeighbours node =
      halves directed false links ids node := by
  cases directed with
  | true => exact toList_row hwithin
  | false =>
    rw [halves_undirected]
    exact toList_row hwithin

/-- What the half-edges at a node show of their links: the far end and the
weight. -/
theorem map_halves (node : Nat) :
    (halves directed outgoing links ids node).map (fun half => (half.node, half.weight)) =
      (links.filter (standsAt directed outgoing node)).map fun l => (l.across node, l.weight) := by
  have hfst : links.filter (standsAt directed outgoing node) =
      (links.zipIdx.filter fun l => l.1.standsAt directed outgoing node).map Prod.fst := by
    rw [show (fun l : Link W × Nat => l.1.standsAt directed outgoing node) =
      standsAt directed outgoing node ∘ Prod.fst from rfl, ← List.filter_map, List.zipIdx_map_fst]
  rw [hfst, halves, seated, List.map_map, List.map_map]
  rfl

/-- The edge of a link with its number. -/
def edgeOf (directed : Bool) (ids : Nat → Option Nat) (l : Link W × Nat) : Edge W where
  source := (facing directed l.1.ends).1
  target := (facing directed l.1.ends).2
  weight := l.1.weight
  id := ids l.2

/-- The edges listed at a node are those of the links there, in the order in
which they were added. An undirected link has half-edges at two nodes, and only
one of them lists it. -/
theorem edgesAt_halves :
    ((halves directed true links ids node).filter (standsFor directed node)).map
        (fun half => (⟨node, half.node, half.weight, half.id⟩ : Edge W)) =
      (links.zipIdx.filter fun l => decide (l.1.node directed = node)).map
        (edgeOf directed ids) := by
  rw [halves, seated, List.filter_map, List.filter_filter, List.map_map]
  -- of the half-edges at a node, those of the links listed there stand for their edges
  have hlisted : ∀ l : Link W × Nat,
      (((standsFor directed node) ∘ halfOf directed true links ids node) l &&
        l.1.standsAt directed true node) = decide (l.1.node directed = node) := by
    intro l
    rw [Bool.eq_iff_iff, Bool.and_eq_true, decide_eq_true_eq, listed_at_iff, and_comm]
    rfl
  rw [List.filter_congr fun l _ => hlisted l]
  refine List.map_congr_left fun l hl => ?_
  have hnode := of_decide_eq_true (List.mem_filter.1 hl).2
  simp only [Function.comp_apply, edgeOf, halfOf, across_eq_listed hnode]
  rw [← hnode]
  rfl

/-- The edges are the links in the stable order by the node at which they are
listed. -/
theorem edges_ofLinks :
    (ofLinks n weighted directed links ids index).edges =
      (StableOrder.buckets (fun l => l.1.node directed) n links.zipIdx).map
        (edgeOf directed ids) := by
  -- every row comes with its node
  have hzip : (rows n directed true links ids).toList.zipIdx =
      (List.range n).map fun v => ((halves directed true links ids v).toArray, v) := by
    refine List.ext_getElem (by simp [rows]) fun v _ _ => ?_
    simp [rows]
  rw [edges, StableOrder.buckets, List.map_flatMap]
  simp only [ofLinks, hzip, List.flatMap_map, edgesAt_halves]

/-- Every link is listed once, at the end where its edge is listed. The edges
come in the order of the nodes and the links in that of their making, so this is
a permutation. -/
theorem perm_edges (hwithin : Within n links) :
    ((ofLinks n weighted directed links ids index).edges.map Link.ofEdge).Perm
      (links.map (Link.listed directed)) := by
  have hnodes : ∀ l ∈ links.zipIdx, l.1.node directed < n := fun l hl =>
    hwithin.node_lt (List.fst_mem_of_mem_zipIdx hl) directed
  have hperm := ((StableOrder.buckets_perm hnodes).map (edgeOf directed ids)).map Link.ofEdge
  have hlisted : (links.zipIdx.map (edgeOf directed ids)).map Link.ofEdge =
      links.map (Link.listed directed) := by
    rw [List.map_map]
    conv_rhs => rw [← List.zipIdx_map_fst 0 links, List.map_map]
    rfl
  rw [edges_ofLinks, ← hlisted]
  exact hperm

end Graph

end GraphMeasures
