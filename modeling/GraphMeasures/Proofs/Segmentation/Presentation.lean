import GraphMeasures.Proofs.Conversion.Memberships
import GraphMeasures.Proofs.Conversion.Rows
import GraphMeasures.Proofs.Quality.Blocks
import GraphMeasures.Proofs.Segmentation.Scalar

/-!
# GraphMeasures — scalars do not depend on presentation

A segmentation can be presented in many ways: the edges and the memberships have an
order that nobody asked for, undirected edges have two ends of which one comes
first, memberships may be repeated, and segments have numbers. None of that shows in
the scalar, when the arithmetic is exact.

* `Accessor.Presents` — two accessors that present the same segmentation.
* `Segmentation.scalar_presented` — they have the same scalar.
-/

namespace GraphMeasures

open Conversion Link

/-- The second accessor presents the segmentation of the first: parameters and sets
are the same, the edges are reordered with their weights, and the memberships are
reordered, repeated and renamed. -/
structure Accessor.Presents (a b : Accessor) : Prop where
  text : b.text "op" = a.text "op"
  options : b.options "options" = a.options "options"
  vertices : b.vertexSet "vs" = a.vertexSet "vs"
  segments : b.vertexSet "segments" = a.vertexSet "segments"
  edges : ∀ options directed edges weights, a.options "options" = .ok options →
    options.directed = .ok directed → a.edgeBundle "es" = .ok edges →
    a.doubleAttribute? "weight" = .ok weights →
    ∃ edges' weights' order, b.edgeBundle "es" = .ok edges' ∧
      b.doubleAttribute? "weight" = .ok weights' ∧
      Reordered directed edges edges' weights weights' order
  memberships : ∀ segments belongsTo, a.vertexSet "segments" = .ok segments →
    a.edgeBundle "belongsTo" = .ok belongsTo →
    ∃ belongsTo' name, b.edgeBundle "belongsTo" = .ok belongsTo' ∧
      Renamed segments belongsTo.rows.toList belongsTo'.rows.toList name

namespace Quality

/-- Every measure sees the same in the same nodes together and the same edges,
whatever the subsets are called and in whatever order and direction the edges
come. -/
theorem byName?_congr {n : Nat} {weighted weighted' directed : Bool} {links links' : List (Link ℚ)}
    {p q : Partition} {ids ids' : Nat → Option Nat} {index index' : Option EdgeIndex}
    {name : String} {measure : Partition → Graph ℚ → Except (Failure EngineError) ℚ}
    (hmeasure : byName? name = some measure) (hp : p.Covers n) (hq : q.Covers n)
    (halike : p.Alike n q) (hwithin : Graph.Within n links) (hwithin' : Graph.Within n links')
    (hperm : (links.map (listed directed)).Perm (links'.map (listed directed))) :
    measure p (Graph.ofLinks n weighted directed links ids index) =
      measure q (Graph.ofLinks n weighted' directed links' ids' index') := by
  -- each of the four measures by its own lemma
  unfold byName? at hmeasure
  split at hmeasure
  · obtain rfl := Option.some.inj hmeasure
    exact congrArg (Except.mapError Failure.error) (coverage_congr hp hq halike hwithin hwithin' hperm)
  · obtain rfl := Option.some.inj hmeasure
    exact congrArg (Except.mapError Failure.error) (edgeCut_congr hp hq halike hwithin hwithin' hperm)
  · obtain rfl := Option.some.inj hmeasure
    exact congrArg (Except.mapError Failure.error) (hubDominance_congr hp hq halike hwithin hwithin' hperm)
  · obtain rfl := Option.some.inj hmeasure
    exact modularity_congr hp hq halike hwithin hwithin' hperm
  · exact absurd hmeasure (by simp)

end Quality

namespace Segmentation

/-- A description is what the inputs and parameters make, one by one. The left
side asks in order; the right one names the answers, for the graph and for the
partition. -/
theorem described_eq_ok_iff {a : Accessor} {s : Segmentation} :
    described a = .ok s ↔ LoadedFrom a s := by
  -- both sides ask the same questions, and use the answers in another order
  simp only [described, bind_eq_ok_iff, asked_eq_ok_iff, converted_eq_ok_iff, mapError_eq_ok_iff]
  constructor
  · rintro ⟨op, hop, options, hoptions, directed, hdirected, vertices, hvertices, edges, hedges,
      weights, hweights, segments, hsegments, belongsTo, hbelongsTo, g, hg, p, hp, hs⟩
    obtain rfl := Except.ok.inj hs
    refine ⟨hop, hoptions, g, p, rfl, ?_, ?_⟩
    · exact ⟨directed, vertices, edges, weights, hdirected, hvertices, hedges, hweights, hg⟩
    · exact ⟨vertices, segments, belongsTo, hvertices, hsegments, hbelongsTo, hp⟩
  · rintro ⟨hop, hoptions, g, p, hresources, hgraph, hpartition⟩
    obtain ⟨directed, vertices, edges, weights, hdirected, hvertices, hedges, hweights, hg⟩ := hgraph
    obtain ⟨_, segments, belongsTo, hvertices', hsegments, hbelongsTo, hp⟩ := hpartition
    obtain rfl := Except.ok.inj (hvertices.symm.trans hvertices')
    refine ⟨s.op, hop, s.options, hoptions, directed, hdirected, vertices, hvertices, edges, hedges,
      weights, hweights, segments, hsegments, belongsTo, hbelongsTo, g, hg, p, hp, ?_⟩
    rw [← hresources]
    rfl

/-- What a segmentation is worth is what the measure says of its graph and its
partition. -/
theorem worth_congr {W : Type} [Scalar W] {value : Float → W} {op : String} (options : Options)
    {g g' : Graph Float} {p q : Partition}
    (h : ∀ measure, Quality.byName? op = some measure →
      measure p (g.map value) = measure q (g'.map value)) :
    worth value ⟨op, options, some (g, p)⟩ = worth value ⟨op, options, some (g', q)⟩ := by
  unfold worth
  cases hmeasure : (Quality.byName? op : Option (Partition → Graph W → _)) with
  | none => rfl
  | some measure =>
    show (measure p (g.map value)).mapError _ = (measure q (g'.map value)).mapError _
    rw [h measure hmeasure]

/-- The scalar is the same in every presentation. The conversion accepts the
rows in their other order, and the memberships with their other names; the
measures do not see the difference. -/
theorem scalarIn_of_presents {a b : Accessor} (h : a.Presents b)
    (hsize : ∀ vertices segments, a.vertexSet "vs" = .ok vertices →
      a.vertexSet "segments" = .ok segments → segments.size + vertices.size ≤ Index.top)
    (value : Float → ℚ) {x : ℚ} (hx : scalarIn value a = .ok x) : scalarIn value b = .ok x := by
  obtain ⟨s, hs, hx⟩ := bind_eq_ok_iff.1 hx
  obtain ⟨hop, hoptions, g, p, hresources, hgraph, hpartition⟩ := described_eq_ok_iff.1 hs
  obtain ⟨directed, vertices, edges, weights, hdirected, hvertices, hedges, hweights, hg⟩ := hgraph
  obtain ⟨_, segments, belongsTo, hvertices', hsegments, hbelongsTo, hp⟩ := hpartition
  obtain rfl := Except.ok.inj (hvertices.symm.trans hvertices')
  obtain ⟨edges', weights', order, hedges', hweights', horder⟩ :=
    h.edges s.options directed edges weights hoptions hdirected hedges hweights
  obtain ⟨belongsTo', name, hbelongsTo', hname⟩ :=
    h.memberships segments belongsTo hsegments hbelongsTo
  -- what is presented otherwise makes a graph of the same edges and the same blocks
  obtain ⟨links, hlinks, rfl⟩ := toGraph_eq_ok_iff.1 hg
  obtain ⟨links', hlinks', hperm⟩ := hlinks.reorder horder
  obtain ⟨q, hq, hpCovers, hqCovers, halike⟩ :=
    toPartition_renamed (hsize vertices segments hvertices hsegments) hp hname
  have hdescribed : described b =
      .ok ⟨s.op, s.options, some (graphOf vertices weights' directed links', q)⟩ := by
    refine described_eq_ok_iff.2 ⟨h.text.trans hop, h.options.trans hoptions, _, _, rfl, ?_, ?_⟩
    · exact ⟨directed, vertices, edges', weights', hdirected, h.vertices.trans hvertices, hedges',
        hweights', toGraph_eq_ok_iff.2 ⟨links', hlinks', rfl⟩⟩
    · exact ⟨vertices, segments, belongsTo', h.vertices.trans hvertices,
        h.segments.trans hsegments, hbelongsTo', hq⟩
  have hvalues : ((links'.map (Link.map value)).map (listed directed)).Perm
      ((links.map (Link.map value)).map (listed directed)) := by
    have hmapped := hperm.map (Link.map value)
    rw [List.map_map, List.map_map] at hmapped ⊢
    exact hmapped
  obtain ⟨op, options, resources⟩ := s
  obtain rfl : resources = some (graphOf vertices weights directed links, p) := hresources
  rw [scalarIn, hdescribed, ← hx]
  refine (worth_congr options fun measure hmeasure => ?_).symm
  rw [graphOf, graphOf, Graph.map_ofLinks, Graph.map_ofLinks]
  exact Quality.byName?_congr hmeasure hpCovers hqCovers halike (hlinks.within.map value)
    (hlinks'.within.map value) hvalues.symm

/-- **Scalars do not depend on presentation.** What the operation writes with the
built-in measures is the scalar of its inputs and parameters, in the arithmetic of
doubles. In exact arithmetic, whatever exact values the weights have, that scalar is
the same for all accessors that present one segmentation: if it is there for one of
them, it is there for the others. -/
theorem scalar_presented :
    (∀ (stage : Stage Host) (x : Float),
      (((Operation.segmentationScalar .builtin).on stage).1 = .ok () ∧
        ((Operation.segmentationScalar .builtin).on stage).2.own =
          stage.own.wrote "sc" (.scalar x)) ↔
      scalarIn id stage.own.accessor = .ok x ∧ stage.own.refusals["sc"]? = none) ∧
    ∀ (value : Float → ℚ) (a b : Accessor), a.Presents b →
      (∀ vertices segments, a.vertexSet "vs" = .ok vertices →
        a.vertexSet "segments" = .ok segments → segments.size + vertices.size ≤ Index.top) →
      ∀ x, scalarIn value a = .ok x → scalarIn value b = .ok x := by
  refine ⟨fun stage x => ?_, fun value a b h hsize x hx => scalarIn_of_presents h hsize value hx⟩
  -- what is written is the one value that was worked out
  have hwrites := Operation.segmentationScalar_builtin stage
  rw [hwrites.outcome_iff]
  constructor
  · rintro ⟨⟨⟨y, hy⟩, haccepted⟩, hwritten⟩
    rw [hwrites.after_eq hy (hwrites.outcome_iff.2 ⟨⟨y, hy⟩, haccepted⟩)] at hwritten
    obtain rfl := Entity.scalar.inj (Host.wrote_inj hwritten)
    exact ⟨hy, haccepted⟩
  · rintro ⟨hx, haccepted⟩
    have hended := hwrites.outcome_iff.2 ⟨⟨x, hx⟩, haccepted⟩
    exact ⟨⟨⟨x, hx⟩, haccepted⟩, hwrites.after_eq hx hended⟩

/-- Two edges in the other order, of which one is turned round, and memberships with
other names, of which one is repeated. -/
theorem scalar_presented_turned :
    let inputs := fun (edges belongsTo : EdgeBundle) =>
      (((∅ : Std.TreeMap String Entity).insert "vs" (.vertexSet ⟨3⟩)).insert "es"
        (.edgeBundle edges)).insert "segments" (.vertexSet ⟨2⟩) |>.insert "belongsTo"
        (.edgeBundle belongsTo)
    let params := ((∅ : Std.TreeMap String String).insert "op" "Modularity").insert "options"
      "\x7b\"directed\":false\x7d"
    let a : Accessor := ⟨inputs ⟨#[(0, 1), (1, 2)]⟩ ⟨#[(0, 0), (1, 0)]⟩, params, ∅⟩
    let b : Accessor := ⟨inputs ⟨#[(2, 1), (0, 1)]⟩ ⟨#[(1, 1), (0, 1), (1, 1)]⟩, params, ∅⟩
    a.Presents b ∧ ∃ x, scalarIn (fun _ => (1 : ℚ)) a = .ok x ∧
      scalarIn (fun _ => (1 : ℚ)) b = .ok x := by
  intro inputs params a b
  -- the options say that the graph is undirected, so rows may be turned
  have hread : ((a.options "options").toOption.bind fun o => o.directed.toOption) = some false := by
    decide +kernel
  have hturn : Set.BijOn (fun i => 1 - i) (Set.Iio 2) (Set.Iio 2) := by
    refine ⟨fun i hi => ?_, fun i hi j hj hij => ?_, fun i hi => ⟨1 - i, ?_, ?_⟩⟩ <;>
      simp only [Set.mem_Iio] at * <;> omega
  have hpresents : a.Presents b := by
    refine ⟨rfl, rfl, rfl, rfl, fun options directed edges weights hoptions hdirected hedges hweights
      => ?_, fun segments belongsTo hsegments hbelongsTo => ?_⟩
    · obtain rfl : directed = false := by
        rw [toOption_eq_some_iff.2 hoptions, Option.bind_some, toOption_eq_some_iff,
          hdirected] at hread
        exact Except.ok.inj hread
      obtain rfl := Except.ok.inj (hedges.symm.trans rfl)
      obtain rfl := Except.ok.inj (hweights.symm.trans (rfl : a.doubleAttribute? "weight" = .ok none))
      refine ⟨⟨#[(2, 1), (0, 1)]⟩, none, fun i => 1 - i, rfl, rfl, hturn, rfl, fun i hi => ?_,
        Or.inl ⟨rfl, rfl⟩⟩
      -- the first row is the last of the old ones, turned; the second is the first of them
      obtain rfl | rfl : i = 0 ∨ i = 1 := by
        have hi : i < 2 := hi
        omega
      · exact Or.inr ⟨rfl, rfl⟩
      · exact Or.inl rfl
    · obtain rfl := Except.ok.inj (hsegments.symm.trans (rfl : a.vertexSet "segments" = .ok ⟨2⟩))
      obtain rfl := Except.ok.inj (hbelongsTo.symm.trans rfl)
      refine ⟨⟨#[(1, 1), (0, 1), (1, 1)]⟩, fun i => 1 - i, rfl, hturn, fun vertex segment => ?_⟩
      simp only [List.mem_cons, Prod.mk.injEq, List.not_mem_nil, or_false]
      constructor
      · rintro (⟨rfl, rfl⟩ | ⟨rfl, rfl⟩ | ⟨rfl, rfl⟩)
        · -- both bundles put the vertices 0 and 1 into one segment
          exact ⟨0, Or.inr ⟨rfl, rfl⟩, rfl⟩
        · exact ⟨0, Or.inl ⟨rfl, rfl⟩, rfl⟩
        · exact ⟨0, Or.inr ⟨rfl, rfl⟩, rfl⟩
      · rintro ⟨old, (⟨rfl, rfl⟩ | ⟨rfl, rfl⟩), rfl⟩
        · exact Or.inr (Or.inl ⟨rfl, rfl⟩)
        · exact Or.inl ⟨rfl, rfl⟩
  have hok : (scalarIn (fun _ => (1 : ℚ)) a).isOk = true := by decide +kernel
  obtain ⟨x, hx⟩ := exists_ok_of_isOk hok
  have hsize : ∀ vertices segments, a.vertexSet "vs" = .ok vertices →
      a.vertexSet "segments" = .ok segments → segments.size + vertices.size ≤ Index.top := by
    intro vertices segments hvertices hsegments
    obtain rfl := Except.ok.inj (hvertices.symm.trans (rfl : a.vertexSet "vs" = .ok ⟨3⟩))
    obtain rfl := Except.ok.inj (hsegments.symm.trans (rfl : a.vertexSet "segments" = .ok ⟨2⟩))
    decide
  exact ⟨hpresents, x, hx, scalar_presented.2 _ a b hpresents hsize x hx⟩

end Segmentation

end GraphMeasures
