import GraphMeasures.Graph.Numbering

/-!
# GraphMeasures — what changes a graph and what does not

The counts and the flags of a graph after every operation that makes one.

* `Graph.nodeCount_insertEdge`, `Graph.nodeCount_indexEdges` — nodes are neither
  added nor lost.
* `Graph.edgeIdBound_insertEdge` — a new edge takes the index away.
* `Graph.addEdge_eq_ok_iff` — an edge is refused or inserted; there is no third
  way.
-/

namespace GraphMeasures.Graph

variable {W : Type}

/-! ## Graphs without edges -/

@[simp]
theorem nodeCount_empty (nodeCount : Nat) (weighted directed : Bool) :
    (empty nodeCount weighted directed : Graph W).nodeCount = nodeCount := by
  simp [empty, Graph.nodeCount]

/-- A graph starts without edges: the lists of its nodes are empty, so there is
nothing to gather from them. -/
@[simp]
theorem edges_empty (nodeCount : Nat) (weighted directed : Bool) :
    (empty nodeCount weighted directed : Graph W).edges = [] := by
  simp only [edges, empty, Array.toList_replicate, List.flatMap_eq_nil_iff]
  rintro ⟨row, source⟩ h
  obtain rfl := List.eq_of_mem_replicate (List.fst_mem_of_mem_zipIdx h)
  rfl

/-! ## Adding an edge -/

@[simp]
theorem size_pushHalf (lists : Array (Array (HalfEdge W))) (node far : Nat) (weight : W)
    (twin : Nat) : (pushHalf lists node far weight twin).size = lists.size := by
  simp [pushHalf]

/-- Edges come and nodes stay: the lists of half-edges get longer, and there are
as many of them as before. -/
@[simp]
theorem nodeCount_insertEdge (g : Graph W) (source target : Nat) (weight : W) :
    (g.insertEdge source target weight).nodeCount = g.nodeCount := by
  unfold insertEdge nodeCount
  split
  · simp
  · split <;> simp

/-- An edge is one edge, although it is kept as two half-edges. -/
@[simp]
theorem edgeCount_insertEdge (g : Graph W) (source target : Nat) (weight : W) :
    (g.insertEdge source target weight).edgeCount = g.edgeCount + 1 := by
  unfold insertEdge
  split
  · rfl
  · split <;> rfl

/-- Edges have no say in whether a graph is directed. -/
@[simp]
theorem directed_insertEdge (g : Graph W) (source target : Nat) (weight : W) :
    (g.insertEdge source target weight).directed = g.directed := by
  unfold insertEdge
  split
  · rfl
  · split <;> rfl

/-- Edges have no say in whether a graph is weighted. -/
@[simp]
theorem weighted_insertEdge (g : Graph W) (source target : Nat) (weight : W) :
    (g.insertEdge source target weight).weighted = g.weighted := by
  unfold insertEdge
  split
  · rfl
  · split <;> rfl

/-- An index does not outlive the edges that it was made for: one more edge and
it is gone, since the new edge would have no id in it. -/
@[simp]
theorem index_insertEdge (g : Graph W) (source target : Nat) (weight : W) :
    (g.insertEdge source target weight).index = none := by
  unfold insertEdge
  split
  · rfl
  · split <;> rfl

@[simp]
theorem edgeIdBound_insertEdge (g : Graph W) (source target : Nat) (weight : W) :
    (g.insertEdge source target weight).edgeIdBound = 0 := by
  simp [edgeIdBound]

theorem checkNode_eq_ok_iff {g : Graph W} {node : Nat} :
    g.checkNode node = .ok () ↔ node < g.nodeCount := by
  unfold checkNode
  split <;> simp_all

/-- An edge is added exactly when its ends exist and its weight is finite. The
weight is the one that is stored, which for a graph without weights is one, so
what is given there may be anything. -/
theorem addEdge_eq_ok_iff {g h : Graph Float} {source target : Nat} {weight : Float} :
    g.addEdge source target weight = .ok h ↔
      source < g.nodeCount ∧ target < g.nodeCount ∧
        (if g.weighted then weight else Scalar.one).isFinite ∧
        h = g.insertEdge source target (if g.weighted then weight else Scalar.one) := by
  unfold addEdge admittedWeight checkNode
  by_cases hs : source < g.nodeCount
  · by_cases ht : target < g.nodeCount
    · by_cases hw : (if g.weighted then weight else Scalar.one).isFinite
      · simp only [hs, ht, hw, bind, Except.bind, pure, Except.pure, if_true, Except.ok.injEq, true_and]
        exact eq_comm
      · simp [hs, ht, hw, bind, Except.bind, throw, throwThe, MonadExceptOf.throw]
    · simp [hs, ht, bind, Except.bind]
  · simp [hs, bind, Except.bind]

/-! ## Numbering the edges -/

/-- Numbering gives the half-edges ids, and leaves them in as many lists. -/
@[simp]
theorem size_numberRows (directed : Bool) (rows : Array (Array (HalfEdge W))) :
    (numberRows directed rows).1.size = rows.size := by
  unfold numberRows
  refine Array.foldl_induction
    (fun i (state : Array (Array (HalfEdge W)) × Nat) => state.1.size = i) rfl ?_
  intro i state h
  simp [h]

@[simp]
theorem nodeCount_indexEdges (g : Graph W) : g.indexEdges.nodeCount = g.nodeCount := by
  simp [indexEdges, nodeCount]

@[simp]
theorem edgeCount_indexEdges (g : Graph W) : g.indexEdges.edgeCount = g.edgeCount :=
  rfl

@[simp]
theorem directed_indexEdges (g : Graph W) : g.indexEdges.directed = g.directed :=
  rfl

@[simp]
theorem weighted_indexEdges (g : Graph W) : g.indexEdges.weighted = g.weighted :=
  rfl

/-- After the edges were numbered there is an index, also where there are no
edges. -/
@[simp]
theorem hasEdgeIds_indexEdges (g : Graph W) : g.indexEdges.hasEdgeIds = true :=
  rfl

end GraphMeasures.Graph
