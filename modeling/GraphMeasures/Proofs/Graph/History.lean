import GraphMeasures.Algorithm
import GraphMeasures.Proofs.Graph.Numbering
import GraphMeasures.Run.Lemmas

/-!
# GraphMeasures — the history of a graph

A graph that can be reached comes from a graph without edges by `Step`s: edges
are added, or refused, and from time to time all edges are numbered. What such a
graph knows of its history are the links that were accepted, in order
(`Graph.Holds`, kept by every step: `Holds.apply`).

* `run_faithful` — the lists and the edges show the accepted links, each where
  it belongs and nothing else.
-/

namespace GraphMeasures

open Link

/-- What a caller does to a graph. -/
inductive Step where
  | add (source target : Nat) (weight : Float)
  | index

namespace Graph

/-- The graph after a step. An edge that is refused leaves it as it is. -/
def apply (g : Graph Float) : Step → Graph Float
  | .add source target weight =>
    match g.addEdge source target weight with
    | .ok next => next
    | .error _ => g
  | .index => g.indexEdges

/-- The link that a step adds, if it adds one. -/
def admitted (g : Graph Float) : Step → List (Link Float)
  | .add source target weight =>
    match g.addEdge source target weight with
    | .ok _ => [⟨source, target, if g.weighted then weight else Scalar.one⟩]
    | .error _ => []
  | .index => []

/-- The graph after some steps. -/
def run (g : Graph Float) (steps : List Step) : Graph Float :=
  steps.foldl apply g

/-- The links that are accepted along some steps. -/
def accepted (g : Graph Float) : List Step → List (Link Float)
  | [] => []
  | step :: rest => g.admitted step ++ (g.apply step).accepted rest

/-- Steps that come later start from the graph that the earlier ones have
made. -/
theorem run_append (g : Graph Float) (before after : List Step) :
    g.run (before ++ after) = (g.run before).run after :=
  List.foldl_append

/-! ## What is kept -/

variable {n : Nat} {weighted directed : Bool} {links : List (Link Float)} {g : Graph Float}

/-- A weight that an edge can have. -/
def Storable (weighted : Bool) (weight : Float) : Prop :=
  weight.isFinite = true ∧ (weighted = false → weight = Scalar.one)

/-- A graph with the given links, which it has accepted. -/
structure Holds (nodeCount : Nat) (weighted directed : Bool) (links : List (Link Float))
    (g : Graph Float) : Prop where
  shape : ∃ ids index, g = ofLinks nodeCount weighted directed links ids index
  within : Within nodeCount links
  storable : ∀ l ∈ links, Storable weighted l.weight

/-- An empty graph holds no links. -/
theorem holds_empty (n : Nat) (weighted directed : Bool) :
    Holds n weighted directed [] (empty n weighted directed) where
  shape := ⟨fun _ => none, none, ofLinks_nil.symm⟩
  within := by simp [Within]
  storable := by simp

/-- What an edge is stored with is finite, and it is one in a graph without
weights. -/
theorem storable_of_isFinite {weight : Float}
    (h : (if weighted then weight else Scalar.one).isFinite = true) :
    Storable weighted (if weighted then weight else Scalar.one) :=
  ⟨h, fun hweighted => by rw [hweighted]; rfl⟩

/-- A graph holds one more link when its edge has been inserted. The index goes
with this, since it would not know the new edge, and the ids of the half-edges
with it. -/
theorem Holds.insertEdge (h : Holds n weighted directed links g) {l : Link Float}
    (hs : l.source < n) (ht : l.target < n) (hw : Storable weighted l.weight) :
    Holds n weighted directed (links ++ [l]) (g.insertEdge l.source l.target l.weight) where
  shape := by
    obtain ⟨ids, index, rfl⟩ := h.shape
    exact ⟨_, _, insertEdge_ofLinks l hs ht⟩
  within := h.within.append hs ht
  storable := by
    intro m hm
    rcases List.mem_append.1 hm with hm | hm
    · exact h.storable m hm
    · obtain rfl := List.mem_singleton.1 hm
      exact hw

/-- All graphs with the same links are the same when their edges have been
numbered, whether they were numbered before or not. -/
theorem Holds.indexEdges_eq (h : Holds n weighted directed links g) :
    g.indexEdges = ofLinks n weighted directed links (some ∘ idOf directed links)
      (some (table n directed links)) := by
  obtain ⟨ids, index, rfl⟩ := h.shape
  exact indexEdges_ofLinks h.within

/-- Numbering takes no links away. -/
theorem Holds.indexed (h : Holds n weighted directed links g) :
    Holds n weighted directed links g.indexEdges := by
  rw [h.indexEdges_eq]
  exact ⟨⟨_, _, rfl⟩, h.within, h.storable⟩

theorem Holds.nodeCount_eq (h : Holds n weighted directed links g) : g.nodeCount = n := by
  obtain ⟨ids, index, rfl⟩ := h.shape
  exact nodeCount_ofLinks

theorem Holds.weighted_eq (h : Holds n weighted directed links g) : g.weighted = weighted := by
  obtain ⟨ids, index, rfl⟩ := h.shape
  rfl

theorem Holds.directed_eq (h : Holds n weighted directed links g) : g.directed = directed := by
  obtain ⟨ids, index, rfl⟩ := h.shape
  rfl

theorem Holds.edgeCount_eq (h : Holds n weighted directed links g) : g.edgeCount = links.length := by
  obtain ⟨ids, index, rfl⟩ := h.shape
  rfl

/-- A weight that can be stored is stored as it is. A graph without weights
stores the weight that it asks for. -/
theorem Holds.stored_eq (h : Holds n weighted directed links g) {weight : Float}
    (hw : Storable weighted weight) : (if g.weighted then weight else Scalar.one) = weight := by
  rw [h.weighted_eq]
  cases weighted with
  | true => rfl
  | false => exact (hw.2 rfl).symm

/-- A link between nodes, with a weight that can be stored, is accepted. -/
theorem Holds.addEdge_eq (h : Holds n weighted directed links g) {l : Link Float}
    (hs : l.source < n) (ht : l.target < n) (hw : Storable weighted l.weight) :
    g.addEdge l.source l.target l.weight = .ok (g.insertEdge l.source l.target l.weight) := by
  rw [addEdge_eq_ok_iff, h.nodeCount_eq, h.stored_eq hw]
  exact ⟨hs, ht, hw.1, rfl⟩

/-- One step: a graph holds what it held and the link that the step adds. A step
that is refused adds none and leaves the graph as it was, and one that numbers
the edges changes their ids only. -/
theorem Holds.apply (h : Holds n weighted directed links g) (step : Step) :
    Holds n weighted directed (links ++ g.admitted step) (g.apply step) := by
  cases step with
  | index =>
    rw [admitted, List.append_nil]
    exact h.indexed
  | add source target weight =>
    rw [admitted, Graph.apply]
    cases hadd : g.addEdge source target weight with
    | error e =>
      rw [List.append_nil]
      exact h
    | ok next =>
      -- what has been accepted is within the graph, and its weight can be stored
      obtain ⟨hs, ht, hw, rfl⟩ := addEdge_eq_ok_iff.1 hadd
      rw [h.nodeCount_eq] at hs ht
      rw [h.weighted_eq] at hw ⊢
      exact h.insertEdge (l := ⟨source, target, if weighted then weight else Scalar.one⟩) hs ht
        (storable_of_isFinite hw)

/-- All steps, by induction on their list: a graph holds what it held before
and, behind it, the links that were accepted since. -/
theorem Holds.run (h : Holds n weighted directed links g) (steps : List Step) :
    Holds n weighted directed (links ++ g.accepted steps) (g.run steps) := by
  induction steps generalizing links g with
  | nil =>
    rw [accepted, List.append_nil]
    exact h
  | cons step rest ih =>
    rw [accepted, ← List.append_assoc]
    exact ih (h.apply step)

/-- A graph that can be reached holds the links that were accepted on the way.
This is what every theorem on such graphs starts from. -/
theorem holds_run (n : Nat) (weighted directed : Bool) (steps : List Step) :
    Holds n weighted directed ((empty n weighted directed).accepted steps)
      ((empty n weighted directed).run steps) := by
  simpa using (holds_empty n weighted directed).run steps

/-! ## The lists -/

/-- A graph shows the given links, each where it belongs and nothing else. -/
structure Faithful (g : Graph Float) (links : List (Link Float)) : Prop where
  outgoing : g.directed = true → ∀ node,
    (g.neighbours node).map (fun half => (half.node, half.weight)) =
      (links.filter (·.source = node)).map fun l => (l.target, l.weight)
  incoming : g.directed = true → ∀ node,
    (g.inNeighbours node).map (fun half => (half.node, half.weight)) =
      (links.filter (·.target = node)).map fun l => (l.source, l.weight)
  /-- A loop is incident once. -/
  incident : g.directed = false → ∀ node,
    g.inNeighbours node = g.neighbours node ∧
    (g.neighbours node).map (fun half => (half.node, half.weight)) =
      (links.filter fun l => l.source = node || l.target = node).map fun l =>
        (l.across node, l.weight)
  /-- The sort is stable. -/
  edges : g.edges.map Link.ofEdge =
    (links.map (Link.listed g.directed)).mergeSort fun a b => a.source ≤ b.source
  edgeCount : g.edgeCount = links.length
  ends : ∀ e ∈ g.edges, e.source < g.nodeCount ∧ e.target < g.nodeCount
  farEnds : ∀ node half, half ∈ g.neighbours node ∨ half ∈ g.inNeighbours node →
    half.node < g.nodeCount ∧ half.weight.isFinite = true
  twin : ∀ node position, ∀ half : HalfEdge Float, (g.neighbours node)[position]? = some half →
    ∃ other : HalfEdge Float, (g.inNeighbours half.node)[half.twin]? = some other ∧
      other.node = node ∧ other.twin = position ∧ other.weight = half.weight
  twinBack : ∀ node position, ∀ half : HalfEdge Float, (g.inNeighbours node)[position]? = some half →
    ∃ other : HalfEdge Float, (g.neighbours half.node)[half.twin]? = some other ∧
      other.node = node ∧ other.twin = position ∧ other.weight = half.weight

/-- What the edges show of their links: the ends as they are listed, and the
weight. -/
theorem map_edgeOf {ids : Nat → Option Nat} (hwithin : Within n links) :
    ((StableOrder.buckets (fun l => l.1.node directed) n links.zipIdx).map
        (edgeOf directed ids)).map Link.ofEdge =
      (links.map (Link.listed directed)).mergeSort fun a b => a.source ≤ b.source := by
  have hsources : ∀ l ∈ links.map (Link.listed directed), l.source < n := by
    intro l hl
    obtain ⟨m, hm, rfl⟩ := List.mem_map.1 hl
    exact hwithin.node_lt hm directed
  rw [← StableOrder.buckets_eq_mergeSort hsources, StableOrder.buckets_map, List.map_map]
  conv_rhs => rw [← List.zipIdx_map_fst 0 links, StableOrder.buckets_map, List.map_map]
  rfl

/-- A half-edge leads to a node of the graph, and its weight is finite, because
both come from a link that was checked when it was added. -/
theorem Holds.mem_halves (h : Holds n weighted directed links g) {outgoing : Bool}
    {ids : Nat → Option Nat} {node : Nat} {half : HalfEdge Float}
    (hhalf : half ∈ halves directed outgoing links ids node) :
    half.node < n ∧ half.weight.isFinite = true := by
  obtain ⟨p, hp⟩ := List.mem_iff_getElem?.1 hhalf
  obtain ⟨k, l, hl, hstands, -, rfl⟩ := getElem?_halves_iff.1 hp
  have hmem := List.mem_of_getElem? hl
  obtain ⟨hs, ht⟩ := h.within l hmem
  refine ⟨?_, (h.storable l hmem).1⟩
  simp only [halfOf, across]
  split
  · exact ht
  · exact hs

/-- A graph shows the links that it holds. Each view is a list of which the
entries are known by the links alone: the half-edges at a node, those into it,
the two together, and the edges; and the twin of a half-edge is the other one of
its link. -/
theorem Holds.faithful (h : Holds n weighted directed links g) : Faithful g links := by
  obtain ⟨ids, index, rfl⟩ := h.shape
  have hwithin := h.within
  constructor
  case outgoing =>
    rintro (rfl : directed = true) node
    rw [neighbours_ofLinks hwithin, map_halves]
    have hstands : standsAt true true node = fun l : Link Float => decide (l.source = node) := by
      funext l
      simp [standsAt]
    rw [hstands]
    refine List.map_congr_left fun l hl => ?_
    rw [across, if_pos (of_decide_eq_true (List.mem_filter.1 hl).2)]
  case incoming =>
    rintro (rfl : directed = true) node
    rw [inNeighbours_ofLinks hwithin, map_halves]
    have hstands : standsAt true false node = fun l : Link Float => decide (l.target = node) := by
      funext l
      simp [standsAt]
    rw [hstands]
    refine List.map_congr_left fun l hl => ?_
    have htarget := of_decide_eq_true (List.mem_filter.1 hl).2
    -- of a loop the far end is the near one
    rw [across]
    split
    · rw [htarget, ‹l.source = node›]
    · rfl
  case incident =>
    rintro (rfl : directed = false) node
    rw [neighbours_ofLinks hwithin, inNeighbours_ofLinks hwithin, halves_undirected, map_halves]
    refine ⟨rfl, ?_⟩
    rw [List.filter_congr fun l _ => standsAt_undirected true node l]
  case edges =>
    rw [edges_ofLinks]
    exact map_edgeOf hwithin
  case edgeCount => rfl
  case ends =>
    intro e he
    rw [edges_ofLinks] at he
    obtain ⟨l, hl, rfl⟩ := List.mem_map.1 he
    obtain ⟨hs, ht⟩ := hwithin l.1 (List.fst_mem_of_mem_zipIdx (StableOrder.mem_buckets.1 hl).1)
    rw [nodeCount_ofLinks]
    simp only [edgeOf, facing]
    split
    · exact ⟨hs, ht⟩
    · exact ⟨ht, hs⟩
  case farEnds =>
    intro node half hhalf
    rw [neighbours_ofLinks hwithin, inNeighbours_ofLinks hwithin] at hhalf
    rw [nodeCount_ofLinks]
    rcases hhalf with hhalf | hhalf
    · exact h.mem_halves hhalf
    · exact h.mem_halves hhalf
  case twin =>
    intro node position half hhalf
    rw [neighbours_ofLinks hwithin] at hhalf
    rw [inNeighbours_ofLinks hwithin]
    exact ⟨_, twin_halves hhalf, rfl, rfl, rfl⟩
  case twinBack =>
    intro node position half hhalf
    rw [inNeighbours_ofLinks hwithin] at hhalf
    rw [neighbours_ofLinks hwithin]
    exact ⟨_, twin_halves hhalf, rfl, rfl, rfl⟩

/-- **The adjacency lists are a faithful view of the accepted links**, whatever
was added, refused and numbered before. The links at a node are its half-edges,
in the order in which they came; the edges are the links in the stable order of
the nodes that list them; and every half-edge points to the twin that points
back to it. -/
theorem run_faithful (n : Nat) (weighted directed : Bool) (steps : List Step) :
    let g := (empty n weighted directed).run steps
    g.nodeCount = n ∧ g.weighted = weighted ∧ g.directed = directed ∧
      Faithful g ((empty n weighted directed).accepted steps) := by
  have h := holds_run n weighted directed steps
  exact ⟨h.nodeCount_eq, h.weighted_eq, h.directed_eq, h.faithful⟩

end Graph

end GraphMeasures
