import Mathlib.Data.Set.Function
import GraphMeasures.Proofs.Conversion
import GraphMeasures.Proofs.Outcome

/-!
# GraphMeasures — which bundles are accepted

A bundle makes a graph exactly if each of its rows is accepted on its own: both
ends are vertices and the weight of the row is there and finite. Neither the rows
in front nor the direction of the edges has a say (`toGraph_eq_ok_iff`). So a
bundle with its rows in another order is accepted as well, and makes a graph with
the same links (`RowLinks.reorder`).
-/

namespace GraphMeasures.Conversion

open Link

variable {vertices : VertexSet} {edges : EdgeBundle} {weights : Option Attribute}
variable {directed : Bool} {links : List (Link Float)} {g next : Graph Float}

/-! ## One row -/

/-- The link that a row with its position becomes when it is accepted. -/
structure Accepts (vertices : VertexSet) (weights : Option Attribute) (row : (Nat × Nat) × Nat)
    (l : Link Float) : Prop where
  ends_eq : l.ends = row.1
  source_lt : l.source < vertices.size
  target_lt : l.target < vertices.size
  weight_eq : rowWeight weights row.2 = .ok l.weight

/-- Without a column of weights all weights are one, so a graph without weights
stores what the row says. -/
theorem Accepts.stored_eq {row : (Nat × Nat) × Nat} {l : Link Float}
    (h : Accepts vertices weights row l) :
    (if weights.isSome then l.weight else Scalar.one) = l.weight := by
  cases weights with
  | none => exact Except.ok.inj h.weight_eq
  | some column => rfl

/-- A row that is accepted adds its link, whatever rows came before. Its weight
is finite, and so is what an unweighted graph stores in its place, so the graph
takes it. -/
theorem addRow_of_accepts (hg : g.Holds vertices.size weights.isSome directed links) {edge : Nat}
    {row : Nat × Nat} {l : Link Float} (h : Accepts vertices weights (row, edge) l) :
    ∃ next, addRow vertices weights g edge row = .ok next ∧
      next.Holds vertices.size weights.isSome directed (links ++ [l]) := by
  obtain rfl : l.ends = row := h.ends_eq
  have hweight : rowWeight weights edge = .ok l.weight := h.weight_eq
  have hstored := h.stored_eq
  have hfinite : l.weight.isFinite = true := by
    rcases rowWeight_cases weights edge with ⟨e, he, -⟩ | ⟨weight, hok, hfinite⟩
    · exact absurd (he.symm.trans hweight) (by simp)
    · rwa [← Except.ok.inj (hok.symm.trans hweight)]
  have hstorable : Graph.Storable weights.isSome l.weight := by
    rw [← hstored] at hfinite ⊢
    exact Graph.storable_of_isFinite hfinite
  refine ⟨_, ?_, hg.insertEdge h.source_lt h.target_lt hstorable⟩
  rw [addRow, checkVertex_eq_ok (by exact h.source_lt), checkVertex_eq_ok (by exact h.target_lt),
    hweight]
  show (g.addEdge l.source l.target l.weight).mapError ConversionError.engine = _
  rw [hg.addEdge_eq h.source_lt h.target_lt hstorable]
  rfl

/-- Only rows that are accepted are added. -/
theorem accepts_of_addRow {edge : Nat} {row : Nat × Nat}
    (h : addRow vertices weights g edge row = .ok next) :
    ∃ l, Accepts vertices weights (row, edge) l := by
  simp only [addRow, bind_eq_ok_iff, checkVertex_eq_ok_iff] at h
  obtain ⟨-, hs, -, ht, weight, hweight, -⟩ := h
  exact ⟨⟨row.1, row.2, weight⟩, rfl, hs, ht, hweight⟩

/-! ## All rows -/

/-- Rows that are accepted add their links, one for each and in their order,
behind those that the graph holds already. -/
theorem addRows_of_accepts (hg : g.Holds vertices.size weights.isSome directed links) {edge : Nat}
    {rows : List (Nat × Nat)} {added : List (Link Float)}
    (h : List.Forall₂ (Accepts vertices weights) (rows.zipIdx edge) added) :
    ∃ next, addRows vertices weights g edge rows = .ok next ∧
      next.Holds vertices.size weights.isSome directed (links ++ added) := by
  induction rows generalizing g edge links added with
  | nil =>
    obtain rfl := List.forall₂_nil_left_iff.1 h
    refine ⟨g, rfl, ?_⟩
    rw [List.append_nil]
    exact hg
  | cons row rows ih =>
    rw [List.zipIdx_cons] at h
    cases h with
    | cons hrow hrest =>
      obtain ⟨mid, hmid, hmidHolds⟩ := addRow_of_accepts hg hrow
      obtain ⟨last, hlast, hlastHolds⟩ := ih hmidHolds hrest
      refine ⟨last, ?_, ?_⟩
      · rw [addRows, hmid]
        exact hlast
      · rw [List.append_cons]
        exact hlastHolds

/-- Only rows that are all accepted are added: the walk passes a row after both
of its ends and its weight have been looked at. -/
theorem accepts_of_addRows {edge : Nat} {rows : List (Nat × Nat)}
    (h : addRows vertices weights g edge rows = .ok next) :
    ∃ added, List.Forall₂ (Accepts vertices weights) (rows.zipIdx edge) added := by
  induction rows generalizing g edge with
  | nil => exact ⟨[], .nil⟩
  | cons row rows ih =>
    rw [addRows, bind_eq_ok_iff] at h
    obtain ⟨mid, hrow, hrest⟩ := h
    obtain ⟨l, hl⟩ := accepts_of_addRow hrow
    obtain ⟨added, hadded⟩ := ih hrest
    rw [List.zipIdx_cons]
    exact ⟨l :: added, .cons hl hadded⟩

/-- The links of a bundle that is accepted. -/
structure RowLinks (vertices : VertexSet) (edges : EdgeBundle) (weights : Option Attribute)
    (links : List (Link Float)) : Prop where
  column : ∀ column, weights = some column → column.size = edges.size
  rows : List.Forall₂ (Accepts vertices weights) edges.rows.toList.zipIdx links

/-- Behind the check of the column of weights there are only the rows: they are
added to an empty graph, which is numbered at the end. -/
theorem toGraph_eq (h : ∀ column, weights = some column → column.size = edges.size) :
    toGraph vertices edges weights directed =
      (addRows vertices weights (.empty vertices.size weights.isSome directed) 0
        edges.rows.toList >>= fun g => .ok g.indexEdges) := by
  cases weights with
  | none => rfl
  | some column =>
    have hsize : column.size = edges.size := h column rfl
    simp only [toGraph, hsize, ne_eq, not_true_eq_false, if_false]
    rfl

/-- A bundle makes the graph of its links if it is accepted, and else none.
Whether it is accepted is said row by row, and the direction has no say in
it. -/
theorem toGraph_eq_ok_iff :
    toGraph vertices edges weights directed = .ok g ↔
      ∃ links, RowLinks vertices edges weights links ∧
        g = graphOf vertices weights directed links := by
  constructor
  · intro h
    have hcolumn : ∀ column, weights = some column → column.size = edges.size := by
      rintro column rfl
      by_contra hsize
      simp only [toGraph, ne_eq, hsize, not_false_eq_true, if_true] at h
      exact absurd h (by simp [bind, Except.bind, throw, throwThe, MonadExceptOf.throw])
    rw [toGraph_eq hcolumn, bind_eq_ok_iff] at h
    obtain ⟨before, hrows, hg⟩ := h
    obtain ⟨links, hlinks⟩ := accepts_of_addRows hrows
    obtain ⟨last, hlast, hholds⟩ := addRows_of_accepts
      (Graph.holds_empty vertices.size weights.isSome directed) hlinks
    obtain rfl := Except.ok.inj (hrows.symm.trans hlast)
    exact ⟨links, ⟨hcolumn, hlinks⟩, (Except.ok.inj hg).symm.trans hholds.indexEdges_eq⟩
  · rintro ⟨links, h, rfl⟩
    obtain ⟨last, hlast, hholds⟩ := addRows_of_accepts
      (Graph.holds_empty vertices.size weights.isSome directed) h.rows
    rw [toGraph_eq h.column, hlast]
    exact congrArg Except.ok hholds.indexEdges_eq

/-! ## Rows by their position -/

/-- There is a link for each row. -/
theorem RowLinks.length_eq (h : RowLinks vertices edges weights links) :
    links.length = edges.size := by
  have hlength := h.rows.length_eq
  rw [List.length_zipIdx] at hlength
  exact hlength.symm

/-- The link of a row is found at its position. -/
theorem RowLinks.accepts (h : RowLinks vertices edges weights links) {i : Nat}
    (hi : i < links.length) (hrow : i < edges.rows.size) :
    Accepts vertices weights (edges.rows[i], i) links[i] := by
  have hget := h.rows.get (i := i) (by rw [List.length_zipIdx]; exact hrow) hi
  simpa using hget

/-- The links of a bundle stay within the vertices. -/
theorem RowLinks.within (h : RowLinks vertices edges weights links) :
    Graph.Within vertices.size links := by
  intro l hl
  obtain ⟨i, hi, rfl⟩ := List.mem_iff_getElem.1 hl
  have haccepts := h.accepts hi (lt_of_lt_of_eq hi h.length_eq)
  exact ⟨haccepts.source_lt, haccepts.target_lt⟩

/-- A bundle is accepted if its rows are, one by one. -/
theorem rowLinks_map_range {f : Nat → Link Float}
    (hcolumn : ∀ column, weights = some column → column.size = edges.size)
    (h : ∀ (i : Nat) (hi : i < edges.rows.size), Accepts vertices weights (edges.rows[i], i) (f i)) :
    RowLinks vertices edges weights ((List.range edges.size).map f) := by
  refine ⟨hcolumn, List.forall₂_iff_get.2 ⟨by simp [EdgeBundle.size], fun i hi _ => ?_⟩⟩
  rw [List.length_zipIdx] at hi
  simpa using h i hi

/-! ## Another order -/

/-- Another order of the rows of a bundle, and of their weights. Where direction
does not matter a row may be turned round. -/
structure Reordered (directed : Bool) (edges edges' : EdgeBundle)
    (weights weights' : Option Attribute) (order : Nat → Nat) : Prop where
  bijOn : Set.BijOn order (Set.Iio edges.size) (Set.Iio edges.size)
  size_eq : edges'.size = edges.size
  row : ∀ i < edges.size, edges'.rows[i]? = edges.rows[order i]? ∨
    directed = false ∧ edges'.rows[i]? = edges.rows[order i]?.map Prod.swap
  column : (weights = none ∧ weights' = none) ∨ ∃ column column', weights = some column ∧
    weights' = some column' ∧ column'.size = column.size ∧
    ∀ i < edges.size, column'.entries[i]? = column.entries[order i]?

variable {edges' : EdgeBundle} {weights' : Option Attribute} {order : Nat → Nat}

/-- A row keeps its weight in its new place. Where there is no column of weights
in either bundle, all rows weigh one; with a column, the entry has moved along
with the row. -/
theorem Reordered.rowWeight_eq (h : Reordered directed edges edges' weights weights' order)
    {i : Nat} (hi : i < edges.size) {weight : Float}
    (hweight : rowWeight weights (order i) = .ok weight) : rowWeight weights' i = .ok weight := by
  rcases h.column with ⟨rfl, rfl⟩ | ⟨column, column', rfl, rfl, -, hentries⟩
  · exact hweight
  · have hget : column'.get? i = column.get? (order i) := by
      rw [Attribute.get?, Attribute.get?, hentries i hi]
    simp only [rowWeight, hget] at hweight ⊢
    cases hvalue : column.get? (order i) with
    | none =>
      rw [hvalue] at hweight
      exact absurd hweight (by simp)
    | some value =>
      rw [hvalue] at hweight
      by_cases hfinite : value.isFinite = true
      · simp only [if_pos hfinite] at hweight ⊢
        exact hweight
      · simp only [if_neg hfinite] at hweight
        exact absurd hweight (by simp)

/-- What stands in a list at the places of an order is the same list in another
order. An order is a bijection on the positions, so each of them comes once, and
equal elements are counted as often as before. -/
theorem perm_of_order {α : Type} {xs ys : List α}
    (h : Set.BijOn order (Set.Iio xs.length) (Set.Iio xs.length)) (hlength : ys.length = xs.length)
    (hget : ∀ i < xs.length, ys[i]? = xs[order i]?) : ys.Perm xs := by
  have horder : ((List.range xs.length).map order).Perm (List.range xs.length) := by
    refine (List.perm_ext_iff_of_nodup ?_ List.nodup_range).2 fun i => ?_
    · refine List.nodup_range.map_on fun i hi j hj hij => ?_
      exact h.injOn (List.mem_range.1 hi) (List.mem_range.1 hj) hij
    · rw [List.mem_map, List.mem_range]
      constructor
      · rintro ⟨j, hj, rfl⟩
        exact h.mapsTo (List.mem_range.1 hj)
      · intro hi
        obtain ⟨j, hj, rfl⟩ := h.surjOn hi
        exact ⟨j, List.mem_range.2 hj, rfl⟩
  have hxs : xs.map some = (List.range xs.length).map fun i => xs[i]? := by
    refine List.ext_getElem (by simp) fun i hi _ => ?_
    simp
  have hys : ys.map some = ((List.range xs.length).map order).map fun i => xs[i]? := by
    refine List.ext_getElem (by simp [hlength]) fun i hi _ => ?_
    rw [List.length_map] at hi
    simp [← hget i (lt_of_lt_of_eq hi hlength), hi]
  rw [← List.map_perm_map_iff (Option.some_injective α), hxs, hys]
  exact horder.map _

/-- Turned round, a link of an undirected graph is listed as before. -/
theorem listed_turned {W : Type} (l : Link W) :
    Link.listed false ⟨l.target, l.source, l.weight⟩ = l.listed false := by
  grind [Link.listed, facing, ends]

/-- A row in its new place is accepted as its edge was in the old one. If it was
turned, its link is turned as well, and both are listed as the same edge. -/
theorem Reordered.accepts (h : Reordered directed edges edges' weights weights' order)
    (hlinks : RowLinks vertices edges weights links) {i : Nat} (hi : i < edges'.rows.size) :
    ∃ l, Accepts vertices weights' (edges'.rows[i], i) l ∧
      (links.map (listed directed))[order i]? = some (l.listed directed) := by
  have hiOld : i < edges.size := lt_of_lt_of_eq hi h.size_eq
  have hj : order i < edges.rows.size := h.bijOn.mapsTo hiOld
  have hjLink : order i < links.length := lt_of_lt_of_eq hj hlinks.length_eq.symm
  obtain ⟨hends, hsource, htarget, hweight⟩ := hlinks.accepts hjLink hj
  have hlisted : (links.map (listed directed))[order i]? =
      some (links[order i].listed directed) := by
    rw [List.getElem?_map, List.getElem?_eq_getElem hjLink]
    rfl
  rcases h.row i hiOld with hrow | ⟨rfl, hrow⟩
  · rw [Array.getElem?_eq_getElem hi, Array.getElem?_eq_getElem hj] at hrow
    exact ⟨links[order i], ⟨hends.trans (Option.some.inj hrow).symm, hsource, htarget,
      h.rowWeight_eq hiOld hweight⟩, hlisted⟩
  · rw [Array.getElem?_eq_getElem hi, Array.getElem?_eq_getElem hj] at hrow
    refine ⟨⟨links[order i].target, links[order i].source, links[order i].weight⟩,
      ⟨?_, htarget, hsource, h.rowWeight_eq hiOld hweight⟩, ?_⟩
    · rw [Option.some.inj hrow, ← show links[order i].ends = edges.rows[order i] from hends]
      rfl
    · rw [hlisted, listed_turned]

/-- **Another order is accepted too**, and the edges are the same. Rows of an
undirected graph may be turned round as well, since their edges are listed as
before. -/
theorem RowLinks.reorder (h : RowLinks vertices edges weights links)
    (horder : Reordered directed edges edges' weights weights' order) :
    ∃ links', RowLinks vertices edges' weights' links' ∧
      (links'.map (listed directed)).Perm (links.map (listed directed)) := by
  have hcolumn : ∀ column', weights' = some column' → column'.size = edges'.size := by
    intro column' hcolumn'
    rcases horder.column with ⟨-, hnone⟩ | ⟨column, _, rfl, hsome, hsize, -⟩
    · exact absurd (hnone.symm.trans hcolumn') (by simp)
    · rw [Option.some.inj (hcolumn'.symm.trans hsome), hsize, h.column column rfl, horder.size_eq]
  -- a link for every row, in the new order
  have hlink : ∀ i, ∃ l, ∀ hi : i < edges'.rows.size,
      Accepts vertices weights' (edges'.rows[i], i) l ∧
        (links.map (listed directed))[order i]? = some (l.listed directed) := by
    intro i
    by_cases hi : i < edges'.rows.size
    · obtain ⟨l, hl⟩ := horder.accepts h hi
      exact ⟨l, fun _ => hl⟩
    · exact ⟨⟨0, 0, 0⟩, fun hi' => absurd hi' hi⟩
  choose f hf using hlink
  refine ⟨(List.range edges'.size).map f, rowLinks_map_range hcolumn fun i hi => (hf i hi).1, ?_⟩
  -- listed, they are the old ones at the places where they come from
  have hlength : (links.map (listed directed)).length = edges.size := by
    rw [List.length_map, h.length_eq]
  refine perm_of_order (by rw [hlength]; exact horder.bijOn) ?_ fun i hi => ?_
  · rw [hlength, List.length_map, List.length_map, List.length_range, horder.size_eq]
  · have hi : i < edges'.rows.size := lt_of_lt_of_eq (hlength ▸ hi) horder.size_eq.symm
    rw [(hf i hi).2]
    simp [EdgeBundle.size, hi]

end GraphMeasures.Conversion
