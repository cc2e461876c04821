import GraphMeasures.Proofs.Conversion.Bundles
import GraphMeasures.Proofs.Conversion.Segmentations
import GraphMeasures.Proofs.Segmentation.Presentation

/-!
# GraphMeasures — measures by the rows of the caller

Coverage and edge cut see a graph that lists its edges by their larger ends, and a
partition that has numbers for vertices nobody has put anywhere. What they say can be
read off the rows all the same: every row is one edge, and its ends are in one subset
exactly if they are `Together` in the memberships.

* `RowSums` — the two measures as sums over rows.
* `Segmentation.load_rowSums` — they are that for every segmentation that has been
  loaded, and in a graph with the other direction as well.
-/

namespace GraphMeasures

open Conversion Link

/-! ## Rows -/

/-- Two vertices are the same, or a segment has both. So a vertex without a segment is
together with itself only. -/
def EdgeBundle.Together (belongsTo : EdgeBundle) (v w : Nat) : Prop :=
  v = w ∨ ∃ row ∈ belongsTo.rows.toList, row.1 = v ∧ (w, row.2) ∈ belongsTo.rows.toList

instance (belongsTo : EdgeBundle) (v w : Nat) : Decidable (belongsTo.Together v w) :=
  inferInstanceAs (Decidable (_ ∨ _))

/-- The rows of a bundle with exact weights, all one without a column of weights. -/
def EdgeBundle.weighed (value : Float → ℚ) (edges : EdgeBundle) (weights : Option Attribute) :
    List (Link ℚ) :=
  edges.rows.toList.zipIdx.map fun row =>
    { source := row.1.1
      target := row.1.2
      weight :=
        match weights with
        | none => 1
        | some column => value (column.values.getD row.2 0) }

/-- The rows with both ends in one segment. -/
def EdgeBundle.staying (belongsTo : EdgeBundle) (rows : List (Link ℚ)) : List (Link ℚ) :=
  rows.filter fun l => belongsTo.Together l.source l.target

/-- The rows from one segment to another. -/
def EdgeBundle.crossing (belongsTo : EdgeBundle) (rows : List (Link ℚ)) : List (Link ℚ) :=
  rows.filter fun l => ¬ belongsTo.Together l.source l.target

variable {value : Float → ℚ} {vertices segments : VertexSet} {edges belongsTo : EdgeBundle}
variable {weights : Option Attribute} {p : Partition} {g : Graph Float} {directed : Bool}

/-- The rows are the links of the graph, if one is read as one: rows without
weights weigh one in both. -/
theorem weighed_eq (hone : value 1 = 1) :
    edges.weighed value weights = (edges.links weights).map (Link.map value) := by
  rw [EdgeBundle.weighed, EdgeBundle.links, List.map_map]
  refine List.map_congr_left fun row _ => ?_
  cases weights with
  | none =>
    rw [Function.comp_apply, Link.map, hone]
  | some column => rfl

/-- Every row stays or crosses, and none does both. -/
theorem total_staying_add_crossing (belongsTo : EdgeBundle) (rows : List (Link ℚ)) :
    total (belongsTo.staying rows) + total (belongsTo.crossing rows) = total rows := by
  -- both lists are filters of the rows, so together they are the rows in another order
  have hperm := List.filter_append_perm
    (fun l : Link ℚ => decide (belongsTo.Together l.source l.target)) rows
  have hsum := (hperm.map (·.weight)).sum_eq
  rw [List.map_append, List.sum_append] at hsum
  simpa only [total, EdgeBundle.staying, EdgeBundle.crossing, decide_not] using hsum

/-! ## Subsets -/

/-- The ends of a row are in one subset exactly if they are together: in a
segment that both have, or because they are one vertex. Vertices without a
segment are alone. -/
theorem placement_eq_iff_together (h : Unambiguous vertices segments belongsTo.rows.toList)
    (v w : Nat) :
    placement segments belongsTo.rows.toList v = placement segments belongsTo.rows.toList w ↔
      belongsTo.Together v w := by
  simp only [h.placement_eq_iff, h.lookup_eq_some_iff, EdgeBundle.Together]
  refine or_congr_right ⟨?_, ?_⟩
  · rintro ⟨segment, hv, hw⟩
    exact ⟨(v, segment), hv, rfl, hw⟩
  · rintro ⟨⟨_, segment⟩, hv, rfl, hw⟩
    exact ⟨segment, hv, hw⟩

/-! ## Measures -/

/-- Coverage and edge cut as sums over rows. -/
structure RowSums (rows : List (Link ℚ)) (belongsTo : EdgeBundle) (p : Partition) (g : Graph ℚ) :
    Prop where
  edgeCut_eq : Quality.edgeCut p g = .ok (total (belongsTo.crossing rows))
  coverage_eq : Quality.coverage p g =
    if total rows = 0 then .error (Quality.noWeight "Coverage")
    else .ok (total (belongsTo.staying rows) / total rows)

/-- A partition that memberships make and a graph that rows make. What is inside
a subset is what stays in a segment, row by row; vertices without a segment are
in no row with both ends together but a loop. -/
theorem rowSums_of_holds (hone : value 1 = 1)
    (hsize : segments.size + vertices.size ≤ Index.top)
    (hp : toPartition vertices segments belongsTo = .ok p)
    (hg : g.Holds vertices.size weights.isSome directed (edges.links weights)) :
    RowSums (edges.weighed value weights) belongsTo p (g.map value) := by
  have hrows : Unambiguous vertices segments belongsTo.rows.toList :=
    unambiguous_of_toPartition (by omega) hp
  obtain ⟨_, hp', hcovers, hsubsets⟩ := subsetOf_toPartition hsize hrows
  obtain rfl := Except.ok.inj (hp.symm.trans hp')
  obtain ⟨ids, index, rfl⟩ := hg.shape
  have hwithin := hg.within.map value
  rw [Graph.map_ofLinks]
  rw [← weighed_eq hone] at hwithin ⊢
  -- inside a subset is what stays in a segment
  have hinside : Quality.inside p (edges.weighed value weights) =
      total (belongsTo.staying (edges.weighed value weights)) := by
    rw [EdgeBundle.staying, total, sum_filter]
    refine congrArg List.sum (List.map_congr_left fun l hl => ?_)
    obtain ⟨hsource, htarget⟩ := hwithin l hl
    have hends : p.subsetOf l.source = p.subsetOf l.target ↔
        belongsTo.Together l.source l.target := by
      rw [hsubsets _ hsource, hsubsets _ htarget, Option.some_inj]
      exact placement_eq_iff_together hrows _ _
    exact if_congr (hends.trans decide_eq_true_iff.symm) rfl rfl
  constructor
  case edgeCut_eq =>
    -- the cut is found as what is left of the total
    rw [Quality.edgeCut_ofLinks hcovers.ensureTotal_eq hwithin, hinside,
      ← total_staying_add_crossing belongsTo, add_sub_cancel_left]
  case coverage_eq =>
    rw [Quality.coverage_ofLinks hcovers.ensureTotal_eq hwithin, hinside]

/-- The inputs of a segmentation. -/
structure Accessor.Segments (a : Accessor) (vertices segments : VertexSet)
    (edges belongsTo : EdgeBundle) (weights : Option Attribute) : Prop where
  vertices_eq : a.vertexSet "vs" = .ok vertices
  edges_eq : a.edgeBundle "es" = .ok edges
  weights_eq : a.doubleAttribute? "weight" = .ok weights
  segments_eq : a.vertexSet "segments" = .ok segments
  belongsTo_eq : a.edgeBundle "belongsTo" = .ok belongsTo

/-- **Coverage and edge cut measure what the caller has given**, once every weight has
its exact value and one is one. Whenever a segmentation has been loaded, edge cut is the
weight of the rows from one segment to another, and coverage is the share of all others
in the weight of all rows, if that is not zero. Each of several rows with the same ends
counts, a loop stays where it is, and the direction has no say. -/
theorem Segmentation.load_rowSums (hone : value 1 = 1) {stage : Stage Host} {s : Segmentation}
    (hload : (load.on stage).1 = .ok s)
    (hinputs : stage.own.accessor.Segments vertices segments edges belongsTo weights)
    (hsize : segments.size + vertices.size ≤ Index.top) :
    ∃ g p, s.held = .ok (g, p) ∧
      RowSums (edges.weighed value weights) belongsTo p (g.map value) ∧
      ∀ directed, ∃ g', toGraph vertices edges weights directed = .ok g' ∧
        RowSums (edges.weighed value weights) belongsTo p (g'.map value) := by
  rw [(Segmentation.on_load stage).1] at hload
  obtain ⟨-, -, g, p, hresources, hgraph, hpartition⟩ := described_eq_ok_iff.1 hload
  obtain ⟨directed, _, _, _, -, hvertices, hedges, hweights, hg⟩ := hgraph
  obtain ⟨_, _, _, hvertices', hsegments, hbelongsTo, hp⟩ := hpartition
  -- what has been read is what the caller has given
  obtain rfl := Except.ok.inj (hinputs.vertices_eq.symm.trans hvertices)
  obtain rfl := Except.ok.inj (hinputs.vertices_eq.symm.trans hvertices')
  obtain rfl := Except.ok.inj (hinputs.edges_eq.symm.trans hedges)
  obtain rfl := Except.ok.inj (hinputs.weights_eq.symm.trans hweights)
  obtain rfl := Except.ok.inj (hinputs.segments_eq.symm.trans hsegments)
  obtain rfl := Except.ok.inj (hinputs.belongsTo_eq.symm.trans hbelongsTo)
  have hmeasured : ∀ directed, ∃ g', toGraph vertices edges weights directed = .ok g' ∧
      RowSums (edges.weighed value weights) belongsTo p (g'.map value) := by
    intro directed'
    obtain ⟨g', hg', hholds⟩ := holds_of_toGraph hg directed'
    exact ⟨g', hg', rowSums_of_holds hone hsize hp hholds⟩
  refine ⟨g, p, by rw [held, hresources], ?_, hmeasured⟩
  obtain ⟨g', hg', hsums⟩ := hmeasured directed
  rwa [Except.ok.inj (hg.symm.trans hg')]

/-- Two edges between two vertices, a loop, and an edge between vertices without
a segment: all kinds of rows that the sums tell apart. -/
theorem Segmentation.load_rowSums_parallel :
    let inputs := ((((∅ : Std.TreeMap String Entity).insert "vs" (.vertexSet ⟨3⟩)).insert "es"
      (.edgeBundle ⟨#[(0, 1), (1, 0), (2, 2), (2, 1)]⟩)).insert "weight"
      (.doubleAttribute (.ofValues #[0.5, 0.25, 2.0, 1.0]))).insert "segments"
      (.vertexSet ⟨1⟩) |>.insert "belongsTo" (.edgeBundle ⟨#[(0, 0), (0, 0)]⟩)
    let params := ((∅ : Std.TreeMap String String).insert "op" "Coverage").insert "options"
      "\x7b\"directed\":true\x7d"
    let stage : Stage Host := { (default : Stage Host) with own := ⟨⟨inputs, params, ∅⟩, ∅⟩ }
    ∃ s g p, (load.on stage).1 = .ok s ∧ s.held = .ok (g, p) ∧
      Quality.edgeCut p (g.map exactValue) = .ok (7 / 4) ∧
      Quality.coverage p (g.map exactValue) = .ok (8 / 15) := by
  intro inputs params stage
  have hok : (described stage.own.accessor).isOk = true := by decide +kernel
  obtain ⟨s, hs⟩ := exists_ok_of_isOk hok
  have hload : (load.on stage).1 = .ok s := (Segmentation.on_load stage).1.trans hs
  have hone : exactValue 1 = 1 := by decide +kernel
  obtain ⟨g, p, hheld, hsums, -⟩ := load_rowSums hone hload
    ⟨rfl, rfl, rfl, rfl, rfl⟩ (by decide)
  refine ⟨s, g, p, hload, hheld, ?_, ?_⟩
  · -- the sums over the rows are small enough to be evaluated
    rw [hsums.edgeCut_eq]
    exact congrArg Except.ok (by decide +kernel)
  · rw [hsums.coverage_eq, if_neg (by decide +kernel)]
    exact congrArg Except.ok (by decide +kernel)

end GraphMeasures
