import GraphMeasures.Proofs.Conversion
import GraphMeasures.Proofs.Reconciliation.Matching

/-!
# GraphMeasures — scores find their way back

A graph that was made of a bundle numbers the edges of the rows in an order of
its own. Reconciliation knows the ends of the rows only and still gives every
row the score of its own edge: where no two rows have the same ends, the first
link with the ends of a row is the row's own (`edgeId_graphOf`); where two have,
it refuses the first row that repeats an earlier one (`toAttribute_cases`).

* `toAttribute_toGraph` — scores by id come back at the rows whose edges have the
  ids, all of them and each once.
-/

namespace GraphMeasures.Reconciliation

open Conversion Link
open GraphMeasures.Graph

variable {vertices : VertexSet} {edges : EdgeBundle} {weights : Option Attribute}
variable {directed : Bool} {links : List (Link Float)} {scores : Array Float}

/-! ## The rows of the bundle -/

/-- The rows of the bundle are the ends of the links. -/
theorem row_eq (h : Describes vertices edges weights directed links) (i : Nat) :
    edges.rows[i]? = links[i]?.map ends := by
  rw [← List.getElem?_map, h.ends_eq, Array.getElem?_toList]

/-- Rows have the same ends exactly if the edges of their links are listed
alike. -/
theorem sameEnds_iff (h : Describes vertices edges weights directed links) {i j : Nat} :
    SameEnds directed edges i j ↔ ∃ l m, links[i]? = some l ∧ links[j]? = some m ∧
      facing directed l.ends = facing directed m.ends := by
  simp only [SameEnds, row_eq h, Option.map_eq_some_iff]
  constructor
  · rintro ⟨_, _, ⟨l, hl, rfl⟩, ⟨m, hm, rfl⟩, hends⟩
    exact ⟨l, m, hl, hm, facing_eq_iff.2 hends⟩
  · rintro ⟨l, m, hl, hm, hends⟩
    exact ⟨_, _, ⟨l, hl, rfl⟩, ⟨m, hm, rfl⟩, facing_eq_iff.1 hends⟩

/-- No row before a position repeats an earlier one. -/
def Distinct (directed : Bool) (edges : EdgeBundle) (position : Nat) : Prop :=
  ∀ i j, i < j → j < position → ¬ SameEnds directed edges i j

/-! ## Looking up rows -/

/-- A row finds the link that was made of the first row with its ends. If an
earlier row has them too, it is this one's id that comes back, and not the row's
own. -/
theorem edgeId_graphOf (h : Describes vertices edges weights directed links) {k : Nat}
    {l : Link Float} (hl : links[k]? = some l) :
    ∃ first ≤ k, SameEnds directed edges first k ∧
      (∀ i < first, ¬ SameEnds directed edges i k) ∧
      (graphOf vertices weights directed links).edgeId l.source l.target =
        .ok (idOf directed links first) := by
  -- the link itself has its ends, so there is a first one that has them
  cases hfirst : firstWith directed links (facing directed l.ends) with
  | none => exact absurd rfl (firstWith_eq_none_iff.1 hfirst l (List.mem_of_getElem? hl))
  | some first =>
    obtain ⟨⟨m, hm, hends⟩, hbefore⟩ := firstWith_eq_some_iff.1 hfirst
    have hnone : ∀ i < first, ¬ SameEnds directed edges i k := by
      intro i hi hsame
      obtain ⟨m', l', hm', hl', hends'⟩ := (sameEnds_iff h).1 hsame
      obtain rfl := Option.some.inj (hl.symm.trans hl')
      exact hbefore i hi m' hm' hends'
    refine ⟨first, Nat.le_of_not_lt fun hk => hnone k hk ?_, ?_, hnone, ?_⟩
    · exact (sameEnds_iff h).2 ⟨l, l, hl, hl, rfl⟩
    · exact (sameEnds_iff h).2 ⟨m, l, hm, hl, hends⟩
    · exact (edgeId_ofLinks_eq_ok_iff h.within).2 ⟨first, hfirst, rfl⟩

/-! ## The attribute of the rows -/

/-- The first row that repeats an earlier one, with the row that it repeats. -/
structure FirstRepeat (directed : Bool) (edges : EdgeBundle) (first second : Nat) : Prop where
  lt : first < second
  sameEnds : SameEnds directed edges first second
  distinct : Distinct directed edges second

/-- A first repeat has one row before it with its ends: two of them would repeat each
other, and the later of these two would come first. -/
theorem FirstRepeat.repeats_iff {first second : Nat} (h : FirstRepeat directed edges first second)
    (i : Nat) : i < second ∧ SameEnds directed edges i second ↔ i = first := by
  constructor
  · rintro ⟨hi, hsame⟩
    rcases Nat.lt_trichotomy i first with hlt | heq | hlt
    · exact absurd (hsame.trans h.sameEnds.symm) (h.distinct i first hlt h.lt)
    · exact heq
    · exact absurd (h.sameEnds.trans hsame.symm) (h.distinct first i hlt hi)
  · rintro rfl
    exact ⟨h.lt, h.sameEnds⟩

/-- The attribute holds the scores of the rows' own edges, or the first row that
repeats an earlier one is refused. What is kept row by row is which ids have
been seen, and that they are those of the rows so far. -/
theorem toAttribute_cases (h : Describes vertices edges weights directed links)
    (hscores : links.length ≤ scores.size) :
    (∃ first second l, links[second]? = some l ∧ FirstRepeat directed edges first second ∧
      toAttribute (graphOf vertices weights directed links) edges scores =
        .error (.ambiguousEdge first second l.source l.target)) ∨
    (Distinct directed edges edges.size ∧ ∃ values : Array Float, values.size = edges.size ∧
      (∀ k < edges.size, values[k]? = scores[idOf directed links k]?) ∧
      toAttribute (graphOf vertices weights directed links) edges scores =
        .ok (.ofValues values)) := by
  have hresolves : (graphOf vertices weights directed links).Resolves := resolves_indexed h.within
  have hbound : (graphOf vertices weights directed links).edgeIdBound ≤ scores.size := hscores
  rcases toAttribute_outcome hresolves rfl edges hbound with ⟨second, e, hfault, herror⟩ |
    ⟨hinOrder, values, hsize, hvalues, hok⟩
  · left
    have hdistinct : Distinct directed edges second :=
      fun i j hij hj => (hfault.before j hj).new i hij
    -- there is a link for every row, and it finds an edge
    cases hfault.fault with
    | lookup hrow hcause =>
      rw [row_eq h, Option.map_eq_some_iff] at hrow
      obtain ⟨l, hl, rfl⟩ := hrow
      obtain ⟨first, -, -, -, hid⟩ := edgeId_graphOf h hl
      exact absurd (hid.symm.trans hcause) (by simp)
    | repeated hrow _ hfirst =>
      rw [row_eq h, Option.map_eq_some_iff] at hrow
      obtain ⟨l, hl, rfl⟩ := hrow
      obtain ⟨hlt, hsame⟩ := (hfirst _).2 rfl
      exact ⟨_, second, l, hl, ⟨hlt, hsame, hdistinct⟩, herror⟩
  · right
    refine ⟨fun i j hij hj => (hinOrder j hj).new i hij, values, hsize, fun k hk => ?_, hok⟩
    have hlt : k < links.length := by rwa [h.length_eq]
    have hl : links[k]? = some links[k] := List.getElem?_eq_getElem hlt
    have hrow : edges.rows[k]? = some links[k].ends := by rw [row_eq h, hl, Option.map_some]
    obtain ⟨first, hle, hsame, -, hid⟩ := edgeId_graphOf h hl
    -- no earlier row has these ends, so the row finds its own edge
    obtain rfl : first = k :=
      Nat.le_antisymm hle (Nat.le_of_not_lt fun hlt => (hinOrder k hk).new first hlt hsame)
    exact hvalues first hk _ ⟨_, hrow, hid⟩

/-! ## The edges of the rows -/

/-- An id is that of the edge that was made of a row: it stands on the half-edges
that the row has put behind those of the rows before it, and on the edge. -/
def MadeOf (vertices : VertexSet) (edges : EdgeBundle) (weights : Option Attribute)
    (directed : Bool) (g : Graph Float) (position id : Nat) : Prop :=
  ∃ row before, edges.rows[position]? = some row ∧
    addRows vertices weights (.empty vertices.size weights.isSome directed) 0
      (edges.rows.toList.take position) = .ok before ∧
    (∃ half, (g.neighbours row.1)[(before.neighbours row.1).length]? = some half ∧
      half.node = row.2 ∧ half.id = some id) ∧
    (∃ half, (g.inNeighbours row.2)[(before.inNeighbours row.2).length]? = some half ∧
      half.node = row.1 ∧ half.id = some id) ∧
    ∃ e, g.edges[id]? = some e ∧ (e.source, e.target) = facing directed row ∧ e.id = some id

/-- The edge made of a row has the id of its link, and the weight of the row. It
is found where links are listed, under its ends as they are or turned. -/
theorem madeOf_idOf (h : Describes vertices edges weights directed links) {k : Nat}
    (hk : k < edges.size) :
    MadeOf vertices edges weights directed (graphOf vertices weights directed links) k
      (idOf directed links k) := by
  have hlt : k < links.length := by rwa [h.length_eq]
  have hl : links[k]? = some links[k] := List.getElem?_eq_getElem hlt
  obtain ⟨before, hbefore, hholds⟩ := h.before k hk.le
  have hnumbered : Numbered (graphOf vertices weights directed links) links :=
    numbered_ofLinks h.within
  have hdirected : (graphOf vertices weights directed links).directed = directed := rfl
  obtain ⟨hedge, hsource, htarget⟩ := hnumbered.entry k _ hl
  rw [hdirected] at hedge hsource htarget
  -- before the row, the lists hold what stands in front of its half-edges
  have hlength : (before.neighbours links[k].source).length =
        seat directed true links links[k].source k ∧
      (before.inNeighbours links[k].target).length =
        seat directed false links links[k].target k := by
    have hwithin := hholds.within
    obtain ⟨ids, index, rfl⟩ := hholds.shape
    rw [neighbours_ofLinks hwithin, inNeighbours_ofLinks hwithin, length_halves, length_halves]
    exact ⟨rfl, rfl⟩
  rw [← hlength.1] at hsource
  rw [← hlength.2] at htarget
  have hrow : edges.rows[k]? = some links[k].ends := by
    rw [row_eq h, hl]
    rfl
  exact ⟨links[k].ends, before, hrow, hbefore, ⟨_, hsource, rfl, rfl⟩, ⟨_, htarget, rfl, rfl⟩,
    _, hedge, rfl, rfl⟩

/-- **Scores find their way back.** Every id below the bound is that of the edge
made of exactly one row. When no two rows have the same ends, every row gets the
score with the id of its edge; otherwise the first row that repeats an earlier
one is named, with the only row that it repeats. -/
theorem toAttribute_toGraph {g : Graph Float}
    (hg : toGraph vertices edges weights directed = .ok g) (scores : Array Float)
    (hscores : g.edgeIdBound ≤ scores.size) :
    ∃ ids : Nat → Nat,
      Set.BijOn ids (Set.Iio edges.size) (Set.Iio g.edgeIdBound) ∧
      (∀ k < edges.size, MadeOf vertices edges weights directed g k (ids k)) ∧
      ((∃ first second source target, toAttribute g edges scores =
          .error (.ambiguousEdge first second source target)) ↔
        ∃ i j, i < j ∧ SameEnds directed edges i j) ∧
      (∀ first second source target, toAttribute g edges scores =
          .error (.ambiguousEdge first second source target) →
        edges.rows[second]? = some (source, target) ∧
        (∀ i j, i < j → j < second → ¬ SameEnds directed edges i j) ∧
        ∀ i, i < second ∧ SameEnds directed edges i second ↔ i = first) ∧
      ((¬ ∃ i j, i < j ∧ SameEnds directed edges i j) →
        ∃ values, toAttribute g edges scores = .ok values ∧ values.size = edges.size ∧
          ∀ k < edges.size, ∃ score, scores[ids k]? = some score ∧
            values.entries[k]? = some (score, !score.isNaN)) := by
  rcases toGraph_cases vertices edges weights directed with ⟨e, he, -⟩ | ⟨links, h, hok⟩
  · rw [he] at hg
    exact absurd hg (by simp)
  obtain rfl := Except.ok.inj (hok.symm.trans hg)
  -- the ids are the places of the rows in the stable order of the edges
  have hbound : (graphOf vertices weights directed links).edgeIdBound = edges.size := h.length_eq
  have hscores : links.length ≤ scores.size := hscores
  refine ⟨idOf directed links, ?_, fun k hk => madeOf_idOf h hk, ?_⟩
  · rw [hbound, ← h.length_eq]
    exact StableOrder.bijOn_place (Link.node directed) links
  rcases toAttribute_cases h hscores with ⟨first, second, l, hl, hrepeat, herror⟩ |
    ⟨hdistinct, values, hsize, hvalues, hvaluesOk⟩
  · -- some row repeats an earlier one
    refine ⟨⟨fun _ => ⟨first, second, hrepeat.lt, hrepeat.sameEnds⟩,
      fun _ => ⟨first, second, l.source, l.target, herror⟩⟩, ?_, fun hnone => ?_⟩
    · intro first' second' source target herror'
      rw [herror] at herror'
      obtain ⟨rfl, rfl, rfl, rfl⟩ := OperationError.ambiguousEdge.inj
        (Except.error.inj herror')
      refine ⟨?_, hrepeat.distinct, hrepeat.repeats_iff⟩
      rw [row_eq h, hl]
      rfl
    · exact absurd ⟨first, second, hrepeat.lt, hrepeat.sameEnds⟩ hnone
  · -- no row does
    have hnone : ¬ ∃ i j, i < j ∧ SameEnds directed edges i j :=
      fun ⟨i, j, hij, hsame⟩ => hdistinct i j hij hsame.lt_size hsame
    refine ⟨⟨?_, fun hsome => absurd hsome hnone⟩, ?_, fun _ => ?_⟩
    · rintro ⟨first, second, source, target, herror⟩
      rw [hvaluesOk] at herror
      exact absurd herror (by simp)
    · intro first second source target herror
      rw [hvaluesOk] at herror
      exact absurd herror (by simp)
    · refine ⟨_, hvaluesOk, ?_, fun k hk => ?_⟩
      · rw [Attribute.size_ofValues, hsize]
      · have hlt : idOf directed links k < scores.size :=
          Nat.lt_of_lt_of_le (idOf_lt (by rwa [h.length_eq])) hscores
        have hscore := Array.getElem?_eq_getElem hlt
        refine ⟨_, hscore, ?_⟩
        rw [Attribute.getElem?_ofValues, hvalues k hk, hscore, Option.map_some]

/-- An edge and its reverse are two edges of a directed graph, with a score for
each. -/
theorem toAttribute_toGraph_reverse :
    ∃ g, toGraph ⟨2⟩ ⟨#[(1, 0), (0, 1)]⟩ none true = .ok g ∧
      g.edgeIdBound ≤ (#[0.5, 0.25] : Array Float).size ∧
      ∃ values, toAttribute g ⟨#[(1, 0), (0, 1)]⟩ #[0.5, 0.25] = .ok values ∧ values.size = 2 := by
  refine ⟨_, rfl, by decide, ?_⟩
  obtain ⟨ids, -, -, -, -, hvalues⟩ := @toAttribute_toGraph ⟨2⟩ ⟨#[(1, 0), (0, 1)]⟩ none true _ rfl
    #[0.5, 0.25] (by decide)
  obtain ⟨values, hok, hsize, -⟩ := hvalues (by
    rintro ⟨i, j, hij, a, b, ha, hb, hends⟩
    have hj : j < 2 := (Array.getElem?_eq_some_iff.1 hb).1
    obtain ⟨rfl, rfl⟩ : i = 0 ∧ j = 1 := by omega
    obtain rfl := Option.some.inj ha
    obtain rfl := Option.some.inj hb
    simp at hends)
  exact ⟨values, hok, hsize⟩

end GraphMeasures.Reconciliation
