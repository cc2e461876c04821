import GraphMeasures.Proofs.Conversion.Rows
import GraphMeasures.Proofs.Double
import GraphMeasures.Proofs.Operation
import GraphMeasures.Proofs.Reading
import GraphMeasures.Proofs.Score.Triangles

/-!
# GraphMeasures — triangles on the rows of a bundle

Where no two rows have the same ends, the operation that scores edges gives every
row the triangles of its own edge. These are a function of the rows
(`EdgeBundle.triangles`), in which neither a direction nor an order has a say.

* `Accessor.Provides` — when the operation ends well.
* `Operation.triangles_commonNeighbours` — what the score and the operation give.
-/

namespace GraphMeasures

open Conversion Link Reconciliation
open Score (Joined triangleCount)

variable {vertices : VertexSet} {edges edges' : EdgeBundle} {weights weights' : Option Attribute}
variable {directed : Bool} {links : List (Link Float)} {order : Nat → Nat}

/-! ## Rows -/

namespace EdgeBundle

/-- No two rows have the same ends, in whatever order. -/
def Unrepeated (edges : EdgeBundle) : Prop :=
  ∀ i j, i < j → ¬ SameEnds false edges i j

/-- The number of triangles on every row. -/
def triangles (vertices : VertexSet) (edges : EdgeBundle) : Attribute :=
  ⟨edges.rows.map fun row => (.ofNat (triangleCount vertices.size edges.rows.toList row), true)⟩

theorem size_triangles : (triangles vertices edges).size = edges.size :=
  Array.size_map

/-- The value at a position is the count for the row there, and it is
defined. -/
theorem getElem?_triangles (i : Nat) :
    (triangles vertices edges).entries[i]? = edges.rows[i]?.map fun row =>
      (.ofNat (triangleCount vertices.size edges.rows.toList row), true) :=
  Array.getElem?_map

/-- Counts are defined everywhere, because no double for a count is NaN. -/
theorem ofValues_counts (counts : Array Nat) :
    Attribute.ofValues (counts.map Float.ofNat) = ⟨counts.map fun count => (.ofNat count, true)⟩ := by
  rw [Attribute.ofValues, Array.map_map]
  congr 2
  funext count
  simp only [Function.comp_apply, isNaN_ofNat, Bool.not_false]

/-- Rows are unrepeated when none has the ends of one before it. This can be decided by
going along the rows. -/
theorem unrepeated_iff_pairwise :
    edges.Unrepeated ↔ edges.rows.toList.Pairwise fun a b => ¬ (a = b ∨ a = b.swap) := by
  rw [List.pairwise_iff_getElem]
  constructor
  · intro h i j hi hj hij hends
    refine h i j hij ⟨edges.rows.toList[i], edges.rows.toList[j], ?_, ?_, ?_⟩
    · rw [← Array.getElem?_toList, List.getElem?_eq_getElem hi]
    · rw [← Array.getElem?_toList, List.getElem?_eq_getElem hj]
    · exact hends.imp_right fun hturned => ⟨rfl, hturned⟩
  · rintro h i j hij ⟨a, b, ha, hb, hends⟩
    rw [← Array.getElem?_toList, List.getElem?_eq_some_iff] at ha hb
    obtain ⟨hi, rfl⟩ := ha
    obtain ⟨hj, rfl⟩ := hb
    exact h i j hi hj hij (hends.imp_right And.right)

/-- Rows without repeated pairs are distinct in either direction. -/
theorem Unrepeated.distinct (h : edges.Unrepeated) (directed : Bool) (position : Nat) :
    Distinct directed edges position := by
  rintro i j hij - ⟨a, b, ha, hb, hends⟩
  refine h i j hij ⟨a, b, ha, hb, ?_⟩
  rcases hends with hsame | ⟨-, hturned⟩
  · exact Or.inl hsame
  · exact Or.inr ⟨rfl, hturned⟩

end EdgeBundle

/-- The edge of a row has the triangles of its ends. What the edges of the graph
join is what the rows join, so the count can be said of the rows alone. -/
theorem triangles_graphOf (h : Describes vertices edges weights directed links) :
    ∃ scores, Score.triangles (graphOf vertices weights directed links) = .ok scores ∧
      scores.size = links.length ∧ ∀ (k : Nat) (row : Nat × Nat), edges.rows[k]? = some row →
        scores[idOf directed links k]? =
          some (.ofNat (triangleCount vertices.size edges.rows.toList row)) := by
  have hnumbered : (graphOf vertices weights directed links).Numbered links :=
    Graph.numbered_ofLinks h.within
  have hdirected : (graphOf vertices weights directed links).directed = directed := rfl
  obtain ⟨scores, hscores, hsize, hentries⟩ := Score.triangles_numbered h.holds_graphOf rfl
  refine ⟨scores, hscores, hsize, fun k row hrow => ?_⟩
  rw [row_eq h, Option.map_eq_some_iff] at hrow
  obtain ⟨l, hl, rfl⟩ := hrow
  -- listed, the edge has its ends in one order or the other
  obtain ⟨hedge, -, -⟩ := hnumbered.entry k l hl
  rw [hdirected] at hedge
  obtain ⟨-, hscore⟩ := hentries _ _ hedge
  rw [hscore, h.ends_eq]
  exact congrArg (some ∘ Float.ofNat) (Score.triangleCount_facing directed l.ends)

/-- The rows get the triangles of their edges: without repetitions each row
finds the edge that was made of it. -/
theorem toAttribute_triangles {g : Graph Float} (hunrepeated : edges.Unrepeated)
    (hg : toGraph vertices edges weights directed = .ok g) :
    ∃ scores, Score.triangles g = .ok scores ∧
      toAttribute g edges scores = .ok (edges.triangles vertices) := by
  -- the graph was made of rows, and its scores count the triangles over these
  rcases toGraph_cases vertices edges weights directed with ⟨e, he, -⟩ | ⟨links, h, hok⟩
  · rw [he] at hg
    exact absurd hg (by simp)
  obtain rfl := Except.ok.inj (hok.symm.trans hg)
  obtain ⟨scores, hscores, hsize, hrows⟩ := triangles_graphOf h
  refine ⟨scores, hscores, ?_⟩
  rcases toAttribute_cases h hsize.ge with ⟨first, second, l, -, hrepeat, -⟩ |
    ⟨-, values, hvaluesSize, hvalues, hattribute⟩
  · -- no two rows have the same ends, so none finds the edge of another
    exact absurd hrepeat.sameEnds
      (hunrepeated.distinct directed (second + 1) first second hrepeat.lt (Nat.lt_succ_self second))
  · have hcounts : values = (edges.rows.map (triangleCount vertices.size edges.rows.toList)).map
        Float.ofNat := by
      have hvaluesRows : values.size = edges.rows.size := hvaluesSize
      refine Array.ext (by simpa using hvaluesRows) fun k hk _ => ?_
      have hrow : k < edges.rows.size := lt_of_lt_of_eq hk hvaluesRows
      have hvalue : values[k]? = some (.ofNat (triangleCount vertices.size edges.rows.toList
          edges.rows[k])) := by
        rw [hvalues k hrow, hrows k _ (Array.getElem?_eq_getElem hrow)]
      rw [Array.getElem?_eq_getElem hk] at hvalue
      simpa using hvalue
    rw [hattribute, hcounts, EdgeBundle.ofValues_counts, Array.map_map]
    rfl

/-! ## Another order -/

/-- A row is that of its old place, or the same turned round; which of the two
does not matter to an undirected graph. -/
theorem Conversion.Reordered.row_cases (h : Reordered false edges edges' weights weights' order)
    {i : Nat} (hi : i < edges.size) :
    ∃ row, edges.rows[order i]? = some row ∧
      (edges'.rows[i]? = some row ∨ edges'.rows[i]? = some row.swap) := by
  have hj : order i < edges.rows.size := h.bijOn.mapsTo hi
  refine ⟨edges.rows[order i], Array.getElem?_eq_getElem hj, ?_⟩
  rcases h.row i hi with hrow | ⟨-, hrow⟩
  · exact Or.inl (hrow.trans (Array.getElem?_eq_getElem hj))
  · rw [hrow, Array.getElem?_eq_getElem hj]
    exact Or.inr rfl

/-- The rows join the same nodes in another order. Every old row is a new one,
turned or not, and the other way round, and to be joined does not depend on a
direction. -/
theorem Conversion.Reordered.joined_iff (h : Reordered false edges edges' weights weights' order)
    (u v : Nat) : Joined edges'.rows.toList u v ↔ Joined edges.rows.toList u v := by
  have hmem : ∀ {b : EdgeBundle} {i : Nat} {row : Nat × Nat}, b.rows[i]? = some row →
      row ∈ b.rows.toList := fun hrow => Array.mem_toList_iff.2 (Array.mem_of_getElem? hrow)
  refine Score.joined_iff_of_turned (fun row hrow => ?_) (fun row hrow => ?_) u v
  · -- a new row comes from an old one
    obtain ⟨i, hi, rfl⟩ := Array.getElem_of_mem (Array.mem_toList_iff.1 hrow)
    have hget : edges'.rows[i]? = some edges'.rows[i] := Array.getElem?_eq_getElem hi
    obtain ⟨row, hold, hnew⟩ := h.row_cases (lt_of_lt_of_eq hi h.size_eq)
    rw [hget] at hnew
    rcases hnew with hnew | hnew
    · rw [Option.some.inj hnew]
      exact Or.inl (hmem hold)
    · rw [Option.some.inj hnew, Prod.swap_swap]
      exact Or.inr (hmem hold)
  · -- an old row goes to a new one
    obtain ⟨j, hj, rfl⟩ := Array.getElem_of_mem (Array.mem_toList_iff.1 hrow)
    obtain ⟨i, hi, rfl⟩ := h.bijOn.surjOn hj
    obtain ⟨row, hold, hnew⟩ := h.row_cases hi
    obtain rfl := Option.some.inj ((Array.getElem?_eq_getElem hj).symm.trans hold)
    rcases hnew with hnew | hnew
    · exact Or.inl (hmem hnew)
    · exact Or.inr (hmem hnew)

/-- What stands at the places of an order has no more repetitions: two rows with
the same pair would have had it before, at two different places of the old
bundle. -/
theorem Conversion.Reordered.unrepeated (h : Reordered false edges edges' weights weights' order)
    (hunrepeated : edges.Unrepeated) : edges'.Unrepeated := by
  rintro i j hij ⟨a, b, ha, hb, hends⟩
  have hi : i < edges.size := lt_of_lt_of_eq (Array.getElem?_eq_some_iff.1 ha).1 h.size_eq
  have hj : j < edges.size := lt_of_lt_of_eq (Array.getElem?_eq_some_iff.1 hb).1 h.size_eq
  obtain ⟨row, hrow, hnewRow⟩ := h.row_cases hi
  obtain ⟨other, hother, hnewOther⟩ := h.row_cases hj
  -- turned round or not, a row is listed as before
  have hlisted : ∀ {new old : Nat × Nat}, (some new = some old ∨ some new = some old.swap) →
      facing false new = facing false old := by
    intro new old hnew
    refine facing_eq_iff.2 (hnew.imp Option.some.inj fun hturned => ⟨rfl, Option.some.inj hturned⟩)
  rw [ha] at hnewRow
  rw [hb] at hnewOther
  have hsame : facing false row = facing false other :=
    calc facing false row
      _ = facing false a := (hlisted hnewRow).symm
      _ = facing false b := facing_eq_iff.2 hends
      _ = facing false other := hlisted hnewOther
  rcases Nat.lt_trichotomy (order i) (order j) with hlt | heq | hlt
  · exact hunrepeated _ _ hlt ⟨row, other, hrow, hother, facing_eq_iff.1 hsame⟩
  · exact absurd (h.bijOn.injOn hi hj heq) (Nat.ne_of_lt hij)
  · exact hunrepeated _ _ hlt ⟨other, row, hother, hrow, facing_eq_iff.1 hsame.symm⟩

/-- Another order of the rows is another order of their triangles: the count of
a row depends on its two ends and on which nodes are joined, and on nothing
else. -/
theorem Conversion.Reordered.getElem?_triangles
    (h : Reordered false edges edges' weights weights' order) {i : Nat} (hi : i < edges.size) :
    (edges'.triangles vertices).entries[i]? = (edges.triangles vertices).entries[order i]? := by
  obtain ⟨row, hold, hnew⟩ := h.row_cases hi
  have hcount : ∀ edge, triangleCount vertices.size edges'.rows.toList edge =
      triangleCount vertices.size edges.rows.toList edge := fun edge =>
    Score.triangleCount_congr h.joined_iff edge
  rw [EdgeBundle.getElem?_triangles, EdgeBundle.getElem?_triangles, hold]
  rcases hnew with hnew | hnew
  · rw [hnew, Option.map_some, Option.map_some, hcount]
  · rw [hnew, Option.map_some, Option.map_some, hcount, Score.triangleCount_swap]

/-! ## The operation -/

/-- The triangles that inputs and parameters describe, in some surroundings. -/
def Accessor.trianglesIn (a : Accessor) (around : Surroundings) :
    Except (Failure OperationError) Attribute := do
  let options ← asked (a.options "options")
  let config ← (options.runConfig around.threads none).mapError .error
  let vertices ← asked (a.vertexSet "vs")
  let edges ← asked (a.edgeBundle "es")
  let weights ← asked (a.doubleAttribute? "weight")
  let directed ← options.directed.mapError fun e => .error (.options e)
  let g ← converted (toGraph vertices edges weights directed)
  (config.buildPool around.machine).mapError fun e => .error (.engine e)
  let scores ← (Score.triangles g).mapError (Failure.map .engine)
  (toAttribute g edges scores).mapError .error

/-- What the operation does before its output. -/
def Operation.edgeValues (registry : EdgeScoreRegistry) : Host.Action Attribute := do
  let op ← Host.text "op"
  Run.record "op" (.text op)
  let options ← Host.options "options"
  let score ← Run.ofExcept id (registry.build op options)
  let config ← Run.config options
  Run.record "seed" (.count config.seed.toNat)
  let vertices ← Host.vertexSet "vs"
  let edges ← Host.edgeBundle "es"
  let weights ← Host.doubleAttribute? "weight"
  let directed ← Run.ofExcept .options options.directed
  let g ← Run.mapError .conversion (Run.loadGraph vertices edges weights directed)
  let scores ← Run.mapError .engine (Run.lift (score.compute g config))
  Run.reconcile g edges scores

/-- The built-in registry knows the score by its name, and the options have no
say. -/
theorem EdgeScoreRegistry.build_triangle (options : Options) :
    builtin.build "TriangleEdgeScore" options = .ok .triangle := by
  rw [builtin, Registry.build_register, if_neg (by decide), Registry.build_register, if_pos rfl]

/-- On a graph with edge ids the score builds its pool and counts the triangles
there. If the machine refuses the pool, that is the outcome. -/
theorem EdgeScore.answers_triangle {around : Surroundings} {g : Graph Float}
    (h : g.hasEdgeIds = true) (config : RunConfig) :
    (triangle.compute g config).Answers () around
      ((config.buildPool around.machine).mapError .error >>= fun _ => Score.triangles g) := by
  obtain ⟨index, hindex⟩ := Option.isSome_iff_exists.1 h
  have hrequire : g.requireIndex = .ok index := by rw [Graph.requireIndex, hindex]
  refine Run.Answers.span ?_
  rw [hrequire]
  exact (Run.answers_pure index).andThen (Run.answers_onPool config _)

namespace Operation

/-- When triangles are asked for, the operation comes to those that are
described. The run follows the description question by question, so its errors
come in the same order, and the refusal of the pool comes after all inputs were
read and the graph was made. -/
theorem answers_edgeValues {host : Host} {around : Surroundings}
    (hop : host.accessor.text "op" = .ok "TriangleEdgeScore") :
    (edgeValues .builtin).Answers host around (host.accessor.trianglesIn around) := by
  have htext : (Host.text "op").Answers host around (.ok "TriangleEdgeScore") := by
    have hasked : (Host.text "op").Answers host around (asked (host.accessor.text "op")) :=
      Host.answers_ask _ _ _
    rw [hop] at hasked
    exact hasked
  refine htext.andThen ((Run.answers_record _ _).andThen ?_)
  refine (Host.answers_ask _ _ _).bind fun options _ => ?_
  -- the options have no say in the score, and the score none in the settings
  rw [EdgeScoreRegistry.build_triangle]
  refine (Run.answers_pure EdgeScore.triangle).andThen ?_
  refine Run.Answers.config fun config tag => (Run.answers_record _ _).andThen ?_
  refine (Host.answers_ask _ _ _).bind fun vertices _ => ?_
  refine (Host.answers_ask _ _ _).bind fun edges _ => ?_
  refine (Host.answers_ask _ _ _).bind fun weights _ => ?_
  refine (Run.answers_ofExcept _ _).bind fun directed _ => ?_
  refine (Run.answers_loadGraph vertices edges weights directed).worded.bind fun g hg => ?_
  obtain ⟨links, -, rfl⟩ := toGraph_eq_ok_iff.1 (converted_eq_ok_iff.1 hg)
  let tagged : RunConfig := { config with workerTag := tag }
  -- the tag of the workers has no say in whether their pool is built
  have hpool : ∀ x : Except (Failure EngineError) (Array Float),
      ((config.buildPool around.machine).mapError (fun e => .error (.engine e)) >>= fun _ =>
        x.mapError (Failure.map OperationError.engine)) =
      ((tagged.buildPool around.machine).mapError .error >>= fun _ =>
        x).mapError (Failure.map OperationError.engine) := by
    intro x
    show _ = ((config.buildPool around.machine).mapError Failure.error >>= fun _ => x).mapError _
    cases config.buildPool around.machine <;> rfl
  have htriangles : (EdgeScore.triangle.compute (graphOf vertices weights directed links)
      tagged).Answers () around ((tagged.buildPool around.machine).mapError .error >>= fun _ =>
        Score.triangles (graphOf vertices weights directed links)) :=
    EdgeScore.answers_triangle rfl tagged
  rw [← bind_assoc, hpool]
  exact htriangles.lift.mapError.bind fun scores _ => (Run.answers_ofExcept _ _).span

end Operation

/-- There is a bundle, and everything that it takes to score its rows: inputs,
parameters that can be read, and a machine that builds the pool that they ask for. The
direction has no say. -/
structure Accessor.Provides (a : Accessor) (around : Surroundings) (vertices : VertexSet)
    (edges : EdgeBundle) : Prop where
  vertexSet : a.vertexSet "vs" = .ok vertices
  edgeBundle : a.edgeBundle "es" = .ok edges
  settings : ∃ options directed config, a.options "options" = .ok options ∧
    options.directed = .ok directed ∧ options.runConfig around.threads none = .ok config ∧
    config.buildPool around.machine = .ok ()
  rows : ∃ weights links, a.doubleAttribute? "weight" = .ok weights ∧
    RowLinks vertices edges weights links

/-- What triangles inputs and parameters describe: those of the rows, if there
is what it takes to score them. The settings have to be readable, the rows have
to make a graph, and the machine has to build the pool. -/
theorem Accessor.trianglesIn_eq_ok_iff {a : Accessor} {around : Surroundings}
    {values : Attribute} (hedges : a.edgeBundle "es" = .ok edges)
    (hunrepeated : edges.Unrepeated) :
    a.trianglesIn around = .ok values ↔
      ∃ vertices, a.Provides around vertices edges ∧ values = edges.triangles vertices := by
  -- what the two sides ask for is the same; they differ in how it is put together
  simp only [trianglesIn, bind_eq_ok_iff, asked_eq_ok_iff, converted_eq_ok_iff, mapError_eq_ok_iff]
  constructor
  · rintro ⟨options, hoptions, config, hconfig, vertices, hvertices, edges', hedges', weights,
      hweights, directed, hdirected, g, hg, ⟨⟩, hpool, scores, hscores, hvalues⟩
    obtain rfl := Except.ok.inj (hedges.symm.trans hedges')
    obtain ⟨links, hlinks, -⟩ := toGraph_eq_ok_iff.1 hg
    obtain ⟨scores', hscores', htriangles⟩ := toAttribute_triangles hunrepeated hg
    obtain rfl := Except.ok.inj (hscores.symm.trans hscores')
    refine ⟨vertices, ⟨hvertices, hedges, ?_, ?_⟩, Except.ok.inj (hvalues.symm.trans htriangles)⟩
    · exact ⟨options, directed, config, hoptions, hdirected, hconfig, hpool⟩
    · exact ⟨weights, links, hweights, hlinks⟩
  · rintro ⟨vertices, h, rfl⟩
    obtain ⟨options, directed, config, hoptions, hdirected, hconfig, hpool⟩ := h.settings
    obtain ⟨weights, links, hweights, hlinks⟩ := h.rows
    have hg : toGraph vertices edges weights directed =
        .ok (graphOf vertices weights directed links) := toGraph_eq_ok_iff.2 ⟨links, hlinks, rfl⟩
    obtain ⟨scores, hscores, htriangles⟩ := toAttribute_triangles hunrepeated hg
    exact ⟨options, hoptions, config, hconfig, vertices, h.vertexSet, edges, hedges, weights,
      hweights, directed, hdirected, _, hg, (), hpool, scores, hscores, htriangles⟩

namespace Operation

/-- The operation writes the triangles that are described. `trianglesIn` names
what the inputs and the machine make of them, and the run ends as it does. -/
theorem edgeAttribute_triangles {stage : Stage Host}
    (hop : stage.own.accessor.text "op" = .ok "TriangleEdgeScore") :
    stage.own.Writes "attr" .doubleAttribute
      (stage.own.accessor.trianglesIn stage.scene.surroundings)
      ((edgeAttribute .builtin).on stage).1 ((edgeAttribute .builtin).on stage).2.own := by
  have hbody : edgeAttribute .builtin = Run.span "adapter.edge_attribute" []
      (edgeValues .builtin >>= fun values => Host.output "attr" (.doubleAttribute values)) := by
    simp only [edgeAttribute, edgeValues, bind_assoc]
  rw [hbody]
  exact Host.writes_span (answers_edgeValues hop) "adapter.edge_attribute" .output "attr"
    .doubleAttribute

end Operation

/-- Triangles are asked for, on rows of which no two have the same ends. -/
structure Accessor.AsksTriangles (a : Accessor) (edges : EdgeBundle) : Prop where
  text : a.text "op" = .ok "TriangleEdgeScore"
  edgeBundle : a.edgeBundle "es" = .ok edges
  unrepeated : edges.Unrepeated

namespace Operation

/-- The operation ends well when there is what it takes and the host does not refuse
the output, and only then; it has written the triangles. -/
theorem edgeAttribute_unrepeated {stage : Stage Host}
    (h : stage.own.accessor.AsksTriangles edges) :
    (((edgeAttribute .builtin).on stage).1 = .ok () ↔
      (∃ vertices, stage.own.accessor.Provides stage.scene.surroundings vertices edges) ∧
        stage.own.refusals["attr"]? = none) ∧
    ∀ vertices, stage.own.accessor.Provides stage.scene.surroundings vertices edges →
      ((edgeAttribute .builtin).on stage).1 = .ok () →
      ((edgeAttribute .builtin).on stage).2.own =
        stage.own.wrote "attr" (.doubleAttribute (edges.triangles vertices)) := by
  have hwrites := edgeAttribute_triangles h.text
  -- there are values exactly if the inputs provide for them, and then they are these
  have hdescribed : ∀ values, stage.own.accessor.trianglesIn stage.scene.surroundings = .ok values ↔
      ∃ vertices, stage.own.accessor.Provides stage.scene.surroundings vertices edges ∧
        values = edges.triangles vertices :=
    fun _ => Accessor.trianglesIn_eq_ok_iff h.edgeBundle h.unrepeated
  constructor
  · rw [hwrites.outcome_iff]
    refine and_congr_left fun _ => ⟨?_, ?_⟩
    · rintro ⟨values, hvalues⟩
      obtain ⟨vertices, hprovides, -⟩ := (hdescribed values).1 hvalues
      exact ⟨vertices, hprovides⟩
    · rintro ⟨vertices, hprovides⟩
      exact ⟨_, (hdescribed _).2 ⟨vertices, hprovides, rfl⟩⟩
  · intro vertices hprovides hended
    exact hwrites.after_eq ((hdescribed _).2 ⟨vertices, hprovides, rfl⟩) hended

end Operation

/-- The second accessor asks for the same as the first, in whatever direction, with
the rows and their weights in another order and rows turned round. -/
structure Accessor.Rearranges (a b : Accessor) (order : Nat → Nat) : Prop where
  text : b.text "op" = a.text "op"
  vertexSet : b.vertexSet "vs" = a.vertexSet "vs"
  settings : ∀ options directed, a.options "options" = .ok options →
    options.directed = .ok directed → ∃ options' directed', b.options "options" = .ok options' ∧
      options'.directed = .ok directed' ∧ options'.seed = options.seed
  rows : ∀ edges weights, a.edgeBundle "es" = .ok edges → a.doubleAttribute? "weight" = .ok weights →
    ∃ edges' weights', b.edgeBundle "es" = .ok edges' ∧ b.doubleAttribute? "weight" = .ok weights' ∧
      Reordered false edges edges' weights weights' order

/-- What is rearranged can be scored as well, in the same surroundings: whether
a pool is built depends on the parameters, and those are the same. -/
theorem Accessor.Provides.rearranged {a b : Accessor} {around : Surroundings}
    (h : a.Provides around vertices edges) (hb : a.Rearranges b order) :
    ∃ edges' weights weights', Reordered false edges edges' weights weights' order ∧
      b.Provides around vertices edges' := by
  -- the settings agree where they matter, and the column has the order of the rows
  obtain ⟨options, directed, config, hoptions, hdirected, hconfig, hpool⟩ := h.settings
  obtain ⟨options', directed', hoptions', hdirected', hseed⟩ :=
    hb.settings options directed hoptions hdirected
  obtain ⟨weights, links, hweights, hlinks⟩ := h.rows
  obtain ⟨edges', weights', hedges', hweights', horder⟩ :=
    hb.rows edges weights h.edgeBundle hweights
  obtain ⟨links', hlinks', -⟩ := hlinks.reorder horder
  have hsame : options'.runConfig around.threads none = options.runConfig around.threads none := by
    rw [Options.runConfig, hseed, Options.runConfig]
  refine ⟨edges', weights, weights', horder, hb.vertexSet.trans h.vertexSet, hedges', ?_, ?_⟩
  · exact ⟨options', directed', config, hoptions', hdirected', hsame.trans hconfig, hpool⟩
  · exact ⟨weights', links', hweights', hlinks'⟩

namespace Operation

/-- **Triangle scores count common neighbours.** In every graph that can be reached
and is indexed the score of an edge is the number of nodes that edges join to both
of its ends, and zero for a loop, on every machine that builds the pool; where the pool
is refused, that is the error. On rows without repetitions the operation gives every row
that number, in either direction; and rows in another order get theirs in that order. -/
theorem triangles_commonNeighbours :
    (∀ n weighted directed steps, let g := (Graph.empty n weighted directed).run steps
      g.hasEdgeIds = true → ∃ scores : Array Float, scores.size = g.edgeIdBound ∧
        (∀ e ∈ g.edges, ∃ id, e.id = some id ∧
          scores[id]? = some (.ofNat (triangleCount g.nodeCount g.ends e.ends))) ∧
        ∀ (config : RunConfig) (stage : Stage Unit),
          ((EdgeScore.triangle.compute g config).on stage).1 =
            ((config.buildPool stage.scene.machine).mapError .error >>= fun _ => .ok scores)) ∧
    (∀ (stage : Stage Host) (edges : EdgeBundle), stage.own.accessor.AsksTriangles edges →
      (((edgeAttribute .builtin).on stage).1 = .ok () ↔
        (∃ vertices, stage.own.accessor.Provides stage.scene.surroundings vertices edges) ∧
          stage.own.refusals["attr"]? = none) ∧
      ∀ vertices, stage.own.accessor.Provides stage.scene.surroundings vertices edges →
        ((edgeAttribute .builtin).on stage).1 = .ok () → ∃ values : Attribute,
          ((edgeAttribute .builtin).on stage).2.own =
            stage.own.wrote "attr" (.doubleAttribute values) ∧ values.size = edges.size ∧
          ∀ (i : Nat) (row : Nat × Nat), edges.rows[i]? = some row → values.entries[i]? =
            some (.ofNat (triangleCount vertices.size edges.rows.toList row), true)) ∧
    ∀ (stage stage' : Stage Host) (edges : EdgeBundle) (order : Nat → Nat),
      stage.own.accessor.AsksTriangles edges →
      stage.own.accessor.Rearranges stage'.own.accessor order →
      stage'.scene.surroundings = stage.scene.surroundings →
      stage'.own.refusals["attr"]? = stage.own.refusals["attr"]? →
      ((edgeAttribute .builtin).on stage).1 = .ok () →
      ((edgeAttribute .builtin).on stage').1 = .ok () ∧ ∃ values values' : Attribute,
        ((edgeAttribute .builtin).on stage).2.own =
          stage.own.wrote "attr" (.doubleAttribute values) ∧
        ((edgeAttribute .builtin).on stage').2.own =
          stage'.own.wrote "attr" (.doubleAttribute values') ∧
        values.size = edges.size ∧ values'.size = edges.size ∧
        ∀ i < edges.size, values'.entries[i]? = values.entries[order i]? := by
  refine ⟨?_, ?_, ?_⟩
  · -- the measure itself
    intro n weighted directed steps g hids
    obtain ⟨scores, hscores, hsize, hentries⟩ := Score.triangles_run hids
    refine ⟨scores, hsize, hentries, fun config stage => ?_⟩
    rw [← hscores]
    exact (EdgeScore.answers_triangle hids config stage ⟨rfl, rfl⟩).1
  · -- the operation on a bundle
    intro stage edges h
    obtain ⟨hended, hwritten⟩ := edgeAttribute_unrepeated h
    refine ⟨hended, fun vertices hprovides hok => ?_⟩
    refine ⟨_, hwritten vertices hprovides hok, EdgeBundle.size_triangles, fun i row hrow => ?_⟩
    rw [EdgeBundle.getElem?_triangles, hrow]
    rfl
  · -- the same rows once more, in another order and turned
    intro stage stage' edges order h hrearranges haround hrefusals hok
    obtain ⟨hended, hwritten⟩ := edgeAttribute_unrepeated h
    obtain ⟨⟨vertices, hprovides⟩, haccepted⟩ := hended.1 hok
    obtain ⟨edges', weights, weights', horder, hprovides'⟩ := hprovides.rearranged hrearranges
    have h' : stage'.own.accessor.AsksTriangles edges' :=
      ⟨hrearranges.text.trans h.text, hprovides'.edgeBundle, horder.unrepeated h.unrepeated⟩
    obtain ⟨hended', hwritten'⟩ := edgeAttribute_unrepeated h'
    rw [← haround] at hprovides'
    have hok' := hended'.2 ⟨⟨vertices, hprovides'⟩, hrefusals.trans haccepted⟩
    refine ⟨hok', _, _, hwritten vertices hprovides hok, hwritten' vertices hprovides' hok',
      EdgeBundle.size_triangles, EdgeBundle.size_triangles.trans horder.size_eq, fun i hi => ?_⟩
    exact horder.getElem?_triangles hi

/-- A triangle in the other direction: the rows come in another order, and one
of them is turned round. Each row has one common neighbour in either
presentation. -/
theorem triangles_commonNeighbours_turned :
    let inputs := fun edges : EdgeBundle => ((∅ : Std.TreeMap String Entity).insert "vs"
      (.vertexSet ⟨3⟩)).insert "es" (.edgeBundle edges)
    let params := (∅ : Std.TreeMap String String).insert "op" "TriangleEdgeScore"
    let a : Accessor := ⟨inputs ⟨#[(0, 1), (1, 2), (2, 0)]⟩, params, ∅⟩
    let b : Accessor := ⟨inputs ⟨#[(0, 2), (0, 1), (1, 2)]⟩,
      params.insert "options" "\x7b\"directed\":false\x7d", ∅⟩
    let g := (Graph.empty 3 false true).run [.add 0 1 1.0, .add 1 2 1.0, .index]
    g.hasEdgeIds = true ∧ (∃ scores : Array Float, scores.size = g.edgeIdBound ∧
        ((EdgeScore.triangle.compute g default).on default).1 = .ok scores) ∧
      ∃ values values' : Attribute,
        ((edgeAttribute .builtin).on ⟨default, ⟨a, ∅⟩⟩).2.own =
          Host.wrote ⟨a, ∅⟩ "attr" (.doubleAttribute values) ∧
        ((edgeAttribute .builtin).on ⟨default, ⟨b, ∅⟩⟩).2.own =
          Host.wrote ⟨b, ∅⟩ "attr" (.doubleAttribute values') ∧
        values.entries[0]? = some (1, true) ∧ values'.entries[0]? = values.entries[2]? := by
  intro inputs params a b g
  have hids : g.hasEdgeIds = true := by decide +kernel
  obtain ⟨scores, hscores, -, hcompute⟩ := triangles_commonNeighbours.1 3 false true _ hids
  have hasks : a.AsksTriangles ⟨#[(0, 1), (1, 2), (2, 0)]⟩ :=
    ⟨rfl, rfl, EdgeBundle.unrepeated_iff_pairwise.2 (by decide)⟩
  have hturn : Set.BijOn (fun i => (i + 2) % 3) (Set.Iio 3) (Set.Iio 3) := by
    refine ⟨fun i hi => ?_, fun i hi j hj hij => ?_, fun i hi => ⟨(i + 1) % 3, ?_, ?_⟩⟩ <;>
      simp only [Set.mem_Iio] at * <;> omega
  have hrearranges : a.Rearranges b fun i => (i + 2) % 3 := by
    refine ⟨rfl, rfl, fun options directed hoptions hdirected => ?_, fun edges weights hedges hweights
      => ?_⟩
    · obtain rfl := Except.ok.inj (hoptions.symm.trans (rfl : a.options "options" = .ok .empty))
      have hread : ((b.options "options").toOption.map fun o => (o.directed.toOption,
          o.seed.toOption)) = some (some false, some 1) := by decide +kernel
      have hseed : Options.empty.seed = .ok 1 := rfl
      obtain ⟨options, hb, hread⟩ := Option.map_eq_some_iff.1 hread
      obtain ⟨hdirected', hseed'⟩ := Prod.mk.inj hread
      exact ⟨options, false, toOption_eq_some_iff.1 hb, toOption_eq_some_iff.1 hdirected',
        (toOption_eq_some_iff.1 hseed').trans hseed.symm⟩
    · obtain rfl := Except.ok.inj (hedges.symm.trans rfl)
      obtain rfl := Except.ok.inj (hweights.symm.trans (rfl : a.doubleAttribute? "weight" = .ok none))
      refine ⟨_, none, rfl, rfl, hturn, rfl, fun i hi => ?_, Or.inl ⟨rfl, rfl⟩⟩
      obtain rfl | rfl | rfl : i = 0 ∨ i = 1 ∨ i = 2 := by
        have hi : i < 3 := hi
        omega
      · exact Or.inr ⟨rfl, rfl⟩
      · exact Or.inl rfl
      · exact Or.inl rfl
  have hok : ((edgeAttribute .builtin).on ⟨default, ⟨a, ∅⟩⟩).1 = .ok () := by
    obtain ⟨⟨⟩, hok⟩ := exists_ok_of_isOk
      (by decide +kernel : ((edgeAttribute .builtin).on ⟨default, ⟨a, ∅⟩⟩).1.isOk = true)
    exact hok
  obtain ⟨-, values, values', hvalues, hvalues', -, -, hentries⟩ :=
    triangles_commonNeighbours.2.2 ⟨default, ⟨a, ∅⟩⟩ ⟨default, ⟨b, ∅⟩⟩ _ _ hasks hrearranges rfl rfl
      hok
  refine ⟨hids, ⟨scores, hscores, hcompute default default⟩, values, values', hvalues, hvalues',
    ?_, hentries 0 (by decide)⟩
  -- what was written is the count on the first row
  obtain ⟨hended, hcounts⟩ := triangles_commonNeighbours.2.1 ⟨default, ⟨a, ∅⟩⟩ _ hasks
  obtain ⟨⟨vertices, hprovides⟩, -⟩ := hended.1 hok
  obtain ⟨counts, hwritten, -, hcount⟩ := hcounts vertices hprovides hok
  obtain rfl := Entity.doubleAttribute.inj (Host.wrote_inj (hvalues.symm.trans hwritten))
  obtain rfl := Except.ok.inj (hprovides.vertexSet.symm.trans (rfl : a.vertexSet "vs" = .ok ⟨3⟩))
  have hone : triangleCount 3 [(0, 1), (1, 2), (2, 0)] (0, 1) = 1 := by decide
  rw [hcount 0 (0, 1) rfl]
  exact congrArg (fun count => some (Float.ofNat count, true)) hone

end Operation

end GraphMeasures
