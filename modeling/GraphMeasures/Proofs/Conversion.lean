import GraphMeasures.Conversion
import GraphMeasures.Proofs.Graph.History

/-!
# GraphMeasures — what conversions make

A bundle that is accepted gives a graph with one link for each of its rows, in
the order of the rows (`Conversion.toGraph_cases`). A bundle that is refused is
refused for what it says: conversions check more than graphs do, so a graph
never refuses what a conversion hands on (`ConversionError.IsInput`).
-/

namespace GraphMeasures

open Link

/-- The entities are at fault, and not what was made of them. -/
def ConversionError.IsInput : ConversionError → Prop
  | .engine _ => False
  | _ => True

namespace Conversion

variable {vertices : VertexSet} {edges : EdgeBundle} {weights : Option Attribute}
variable {directed : Bool} {links : List (Link Float)} {g : Graph Float}

/-- Vertices that exist pass, others do not. -/
theorem checkVertex_eq_ok_iff {edge vertex : Nat} {value : Unit} :
    checkVertex vertices edge vertex = .ok value ↔ vertex < vertices.size := by
  unfold checkVertex
  split
  · exact iff_of_true rfl ‹_›
  · exact iff_of_false (by simp) ‹_›

theorem checkVertex_eq_ok {edge vertex : Nat} (h : vertex < vertices.size) :
    checkVertex vertices edge vertex = .ok () :=
  if_pos h

/-- A vertex that does not exist is refused, with the row, the vertex and the
number of vertices there are. -/
theorem checkVertex_eq_error {edge vertex : Nat} (h : ¬ vertex < vertices.size) :
    checkVertex vertices edge vertex = .error (.endpointOutOfRange edge vertex vertices.size) :=
  if_neg h

/-- A weight that a row has is finite. Without weights it is one; an attribute
may lack a value for the row, or have one that is not finite, and both are
errors of the input. -/
theorem rowWeight_cases (weights : Option Attribute) (edge : Nat) :
    (∃ e, rowWeight weights edge = .error e ∧ e.IsInput) ∨
      ∃ weight, rowWeight weights edge = .ok weight ∧ weight.isFinite = true := by
  cases weights with
  | none => exact Or.inr ⟨Scalar.one, rfl, by decide +kernel⟩
  | some column =>
    -- a weight may be undefined, and it may be defined and not finite
    cases hget : column.get? edge with
    | none =>
      refine Or.inl ⟨.undefinedWeight edge, ?_, trivial⟩
      simp only [rowWeight, hget]
    | some weight =>
      by_cases hfinite : weight.isFinite = true
      · refine Or.inr ⟨weight, ?_, hfinite⟩
        simp only [rowWeight, hget, hfinite, if_true]
      · refine Or.inl ⟨.nonFiniteWeight edge weight, ?_, trivial⟩
        simp only [rowWeight, hget, hfinite, if_false, Bool.false_eq_true]

/-- A row is refused for what it says, or its link is added. The checks come
before the edge is added, so the graph never refuses what it is given here. -/
theorem addRow_cases (h : g.Holds vertices.size weights.isSome directed links) (edge : Nat)
    (row : Nat × Nat) :
    (∃ e, addRow vertices weights g edge row = .error e ∧ e.IsInput) ∨
      ∃ l next, l.ends = row ∧ addRow vertices weights g edge row = .ok next ∧
        next.Holds vertices.size weights.isSome directed (links ++ [l]) := by
  unfold addRow
  -- both ends are vertices, or the first that is none is named
  by_cases hs : row.1 < vertices.size
  · by_cases ht : row.2 < vertices.size
    · rw [checkVertex_eq_ok hs, checkVertex_eq_ok ht]
      rcases rowWeight_cases weights edge with ⟨e, he, hinput⟩ | ⟨weight, hweight, hfinite⟩
      · rw [he]
        exact Or.inl ⟨e, rfl, hinput⟩
      · -- what the row has passed is all that the graph asks for
        have hstored : (if weights.isSome then weight else Scalar.one).isFinite = true := by
          split
          · exact hfinite
          · decide +kernel
        have hadd : g.addEdge row.1 row.2 weight = .ok (g.insertEdge row.1 row.2
            (if g.weighted then weight else Scalar.one)) := Graph.addEdge_eq_ok_iff.2
          ⟨by rwa [h.nodeCount_eq], by rwa [h.nodeCount_eq], by rwa [h.weighted_eq], rfl⟩
        rw [hweight]
        refine Or.inr ⟨⟨row.1, row.2, if weights.isSome then weight else Scalar.one⟩, _, rfl, ?_,
          h.insertEdge hs ht (Graph.storable_of_isFinite hstored)⟩
        show (g.addEdge row.1 row.2 weight).mapError ConversionError.engine = _
        rw [hadd, h.weighted_eq]
        rfl
    · rw [checkVertex_eq_ok hs, checkVertex_eq_error ht]
      exact Or.inl ⟨_, rfl, trivial⟩
  · rw [checkVertex_eq_error hs]
    exact Or.inl ⟨_, rfl, trivial⟩

/-- Rows are refused for what they say, or their links are added one after the
other. The rows before any position make a graph of their own: that is what it
takes to find a row again among the half-edges of its ends. -/
theorem addRows_cases (h : g.Holds vertices.size weights.isSome directed links) (edge : Nat)
    (rows : List (Nat × Nat)) :
    (∃ e, addRows vertices weights g edge rows = .error e ∧ e.IsInput) ∨
      ∃ added : List (Link Float), added.map ends = rows ∧ ∀ i ≤ rows.length,
        ∃ before, addRows vertices weights g edge (rows.take i) = .ok before ∧
          before.Holds vertices.size weights.isSome directed (links ++ added.take i) := by
  -- along the rows; the graph so far holds the links so far
  induction rows generalizing g edge links with
  | nil =>
    refine Or.inr ⟨[], rfl, fun i _ => ⟨g, by rw [List.take_nil]; rfl, ?_⟩⟩
    rw [List.take_nil, List.append_nil]
    exact h
  | cons row rows ih =>
    rcases addRow_cases h edge row with ⟨e, he, hinput⟩ | ⟨l, next, hl, hnext, hholds⟩
    · refine Or.inl ⟨e, ?_, hinput⟩
      rw [addRows, he]
      rfl
    · rcases ih hholds (edge + 1) with ⟨e, he, hinput⟩ | ⟨added, hadded, hbefore⟩
      · refine Or.inl ⟨e, ?_, hinput⟩
        rw [addRows, hnext]
        exact he
      · refine Or.inr ⟨l :: added, by rw [List.map_cons, hl, hadded], fun i hi => ?_⟩
        -- before the first row there is the graph of the start
        cases i with
        | zero =>
          refine ⟨g, rfl, ?_⟩
          rw [List.take_zero, List.append_nil]
          exact h
        | succ i =>
          obtain ⟨before, hok, hbeforeHolds⟩ := hbefore i (Nat.le_of_succ_le_succ hi)
          refine ⟨before, ?_, ?_⟩
          · rw [List.take_succ_cons, addRows, hnext]
            exact hok
          · rw [List.take_succ_cons, List.append_cons]
            exact hbeforeHolds

/-- The links that the rows of a bundle become, and what there is of the graph
before each of them. -/
structure Describes (vertices : VertexSet) (edges : EdgeBundle) (weights : Option Attribute)
    (directed : Bool) (links : List (Link Float)) : Prop where
  ends_eq : links.map ends = edges.rows.toList
  before : ∀ i ≤ edges.size,
    ∃ g, addRows vertices weights (.empty vertices.size weights.isSome directed) 0
        (edges.rows.toList.take i) = .ok g ∧
      g.Holds vertices.size weights.isSome directed (links.take i)

/-- There is a link for each row. -/
theorem Describes.length_eq (h : Describes vertices edges weights directed links) :
    links.length = edges.size := by
  have hlength := congrArg List.length h.ends_eq
  rw [List.length_map] at hlength
  exact hlength

/-- All rows that are described can be added, one after the other, and then the
graph holds their links in the order of the rows. -/
theorem Describes.holds (h : Describes vertices edges weights directed links) :
    ∃ g, addRows vertices weights (.empty vertices.size weights.isSome directed) 0
        edges.rows.toList = .ok g ∧
      g.Holds vertices.size weights.isSome directed links := by
  obtain ⟨g, hg, hholds⟩ := h.before edges.size (Nat.le_refl _)
  have hall : edges.rows.toList.take edges.size = edges.rows.toList := List.take_length
  rw [hall] at hg
  rw [← h.length_eq, List.take_length] at hholds
  exact ⟨g, hg, hholds⟩

/-- The rows have passed their checks, so the links stay within the vertices. -/
theorem Describes.within (h : Describes vertices edges weights directed links) :
    Graph.Within vertices.size links := by
  obtain ⟨g, -, hholds⟩ := h.holds
  exact hholds.within

/-- The graph that links make when their edges have been numbered. -/
def graphOf (vertices : VertexSet) (weights : Option Attribute) (directed : Bool)
    (links : List (Link Float)) : Graph Float :=
  .ofLinks vertices.size weights.isSome directed links (some ∘ idOf directed links)
    (some (Graph.table vertices.size directed links))

/-- With the edges numbered, the graph of the entities still holds their
links. -/
theorem Describes.holds_graphOf (h : Describes vertices edges weights directed links) :
    (graphOf vertices weights directed links).Holds vertices.size weights.isSome directed links := by
  obtain ⟨g, -, hg⟩ := h.holds
  exact ⟨⟨_, _, rfl⟩, hg.within, hg.storable⟩

/-- Entities are refused for what they say, or make the graph of their rows.
There is no third way: no error of the engine comes through, since everything
that the graph would refuse has been refused before it is asked. -/
theorem toGraph_cases (vertices : VertexSet) (edges : EdgeBundle) (weights : Option Attribute)
    (directed : Bool) :
    (∃ e, toGraph vertices edges weights directed = .error e ∧ e.IsInput) ∨
      ∃ links, Describes vertices edges weights directed links ∧
        toGraph vertices edges weights directed = .ok (graphOf vertices weights directed links) := by
  -- behind the check of the column of weights there are only the rows
  have hrows : toGraph vertices edges weights directed =
      (addRows vertices weights (.empty vertices.size weights.isSome directed) 0
        edges.rows.toList >>= fun g => .ok g.indexEdges) ∨
      ∃ e, toGraph vertices edges weights directed = .error e ∧ e.IsInput := by
    cases weights with
    | none => exact Or.inl rfl
    | some column =>
      by_cases hsize : column.size = edges.size
      · left
        simp only [toGraph, hsize, ne_eq, not_true_eq_false, if_false]
        rfl
      · refine Or.inr ⟨.weightLengthMismatch column.size edges.size, ?_, trivial⟩
        simp only [toGraph, ne_eq, hsize, not_false_eq_true, if_true]
        rfl
  rcases hrows with hrows | hrefused
  · rcases addRows_cases (Graph.holds_empty vertices.size weights.isSome directed) 0
      edges.rows.toList with ⟨e, he, hinput⟩ | ⟨links, hends, hbefore⟩
    · refine Or.inl ⟨e, ?_, hinput⟩
      rw [hrows, he]
      rfl
    · have hdescribes : Describes vertices edges weights directed links := ⟨hends, hbefore⟩
      obtain ⟨g, hg, hholds⟩ := hdescribes.holds
      refine Or.inr ⟨links, hdescribes, ?_⟩
      rw [hrows, hg]
      exact congrArg Except.ok hholds.indexEdges_eq
  · exact Or.inl hrefused

end Conversion

end GraphMeasures
