import GraphMeasures.Partition.Lemmas
import GraphMeasures.Proofs.Conversion
import GraphMeasures.Proofs.Outcome

/-!
# GraphMeasures — partitions that segmentations make

A partition `Covers` a number of nodes when each of them has a subset below
`upperBound`. A segmentation makes such a partition (`ends_placeVertices`): the
segments have numbers below the number of segments, the vertices without one get
the numbers behind, and with all of them there is no overflow as long as segments
and vertices together are not more than the largest index. So does a partition that
is reached by moves from one of those to start with (`Capped.covers`).
-/

namespace GraphMeasures

namespace Index

theorem lt_next {n : Nat} (h : n < top) : n < next n := by
  unfold next
  omega

/-- Below the top, counting on does not start again. -/
theorem wrapNext_eq {n : Nat} (h : n < top) : wrapNext n = n + 1 := by
  unfold top count at h
  unfold wrapNext count
  omega

/-- What starts again counts on from there, so a counter is its unbounded
counterpart up to multiples of the number of indexes. -/
theorem wrapNext_mod (n : Nat) : wrapNext (n % count) = (n + 1) % count :=
  Nat.mod_add_mod n count 1

theorem lt_count_of_le_top {n : Nat} (h : n ≤ top) : n < count := by
  unfold top count at h
  unfold count
  omega

end Index

namespace Partition

/-- All subsets of a partition of so many nodes are below its bound. -/
structure Bounded (p : Partition) (nodeCount : Nat) : Prop where
  size_eq : p.size = nodeCount
  lt_upperBound : ∀ node subset, p.subsetOf node = some subset → subset < p.upperBound

/-- Every node has a subset below the bound. -/
structure Covers (p : Partition) (nodeCount : Nat) : Prop extends Bounded p nodeCount where
  isSome : ∀ node < nodeCount, (p.subsetOf node).isSome = true

/-- Two partitions put the same nodes together, under whatever names. -/
def Alike (nodeCount : Nat) (p q : Partition) : Prop :=
  ∀ v < nodeCount, ∀ w < nodeCount, p.subsetOf v = p.subsetOf w ↔ q.subsetOf v = q.subsetOf w

/-- A measure takes a partition that covers its graph. -/
theorem Covers.ensureTotal_eq {p : Partition} {nodeCount : Nat} (h : p.Covers nodeCount) :
    p.ensureTotal nodeCount = .ok () :=
  ensureTotal_eq_ok_iff.2 ⟨h.size_eq, h.isSome⟩

/-- At first there are no subsets that would have to be below the bound. -/
theorem bounded_unassigned (nodeCount : Nat) : (unassigned nodeCount).Bounded nodeCount where
  size_eq := size_unassigned nodeCount
  lt_upperBound := by
    intro node subset h
    rw [subsetOf_unassigned] at h
    exact absurd h (by simp)

/-- A subset that is not at the top stays below the bound, and so do those that
were there before, because the bound never gets smaller. -/
theorem Bounded.assign {p : Partition} {nodeCount node subset : Nat} (h : p.Bounded nodeCount)
    (hnode : node < nodeCount) (hsubset : subset < Index.top) :
    ∃ q, p.assign node subset = .ok q ∧ q.Bounded nodeCount ∧
      ∀ other, q.subsetOf other = if other = node then some subset else p.subsetOf other := by
  obtain ⟨q, hq⟩ : ∃ q, p.assign node subset = .ok q :=
    ⟨_, assign_eq_ok_iff.2 ⟨by rwa [h.size_eq], rfl⟩⟩
  have hsubsets := subsetOf_of_assign hq
  refine ⟨q, hq, ⟨?_, ?_⟩, hsubsets⟩
  · rw [size_of_assign hq, h.size_eq]
  · intro other s hs
    rw [hsubsets] at hs
    rw [upperBound_of_assign hq]
    -- the bound grows above the new subset and does not fall below the others
    by_cases hother : other = node
    · rw [if_pos hother] at hs
      obtain rfl := Option.some.inj hs
      exact Nat.lt_of_lt_of_le (Index.lt_next hsubset) (Nat.le_max_right _ _)
    · rw [if_neg hother] at hs
      exact Nat.lt_of_lt_of_le (h.lt_upperBound other s hs) (Nat.le_max_left _ _)

/-! ## Partitions that can be reached -/

/-- The partition after a move. A node that does not exist is not moved. -/
def move (p : Partition) (move : Nat × Nat) : Partition :=
  match p.assign move.1 move.2 with
  | .ok q => q
  | .error _ => p

/-- The partition after some moves. -/
def moveAll (p : Partition) (moves : List (Nat × Nat)) : Partition :=
  moves.foldl move p

/-- The bound is above every subset, except for the largest index, which nothing
is above. -/
def Capped (p : Partition) : Prop :=
  ∀ node subset, p.subsetOf node = some subset → subset < Index.top → subset < p.upperBound

theorem capped_unassigned (nodeCount : Nat) : (unassigned nodeCount).Capped := by
  intro node subset h
  rw [subsetOf_unassigned] at h
  exact absurd h (by simp)

/-- Single nodes have numbers below how many there are, which is the bound, so
the bound is as large as it has to be. -/
theorem capped_singletons (nodeCount : Nat) : (singletons nodeCount).Capped := by
  intro node subset h _
  rw [subsetOf_singletons] at h
  by_cases hnode : node < nodeCount
  · rw [if_pos hnode] at h
    obtain rfl := Option.some.inj h
    exact hnode
  · rw [if_neg hnode] at h
    exact absurd h (by simp)

/-- One move: the bound grows with the subset that is moved to. A move that is
refused changes nothing. -/
theorem Capped.move {p : Partition} (h : p.Capped) (move : Nat × Nat) : (p.move move).Capped := by
  unfold Partition.move
  cases hmove : p.assign move.1 move.2 with
  | error e => exact h
  | ok q =>
    intro node subset hsubset htop
    rw [subsetOf_of_assign hmove] at hsubset
    rw [upperBound_of_assign hmove]
    by_cases hnode : node = move.1
    · rw [if_pos hnode] at hsubset
      obtain rfl := Option.some.inj hsubset
      exact Nat.lt_of_lt_of_le (Index.lt_next htop) (Nat.le_max_right _ _)
    · rw [if_neg hnode] at hsubset
      exact Nat.lt_of_lt_of_le (h node subset hsubset htop) (Nat.le_max_left _ _)

/-- All moves, by induction on their list. -/
theorem Capped.moveAll {p : Partition} (h : p.Capped) (moves : List (Nat × Nat)) :
    (p.moveAll moves).Capped := by
  induction moves generalizing p with
  | nil => exact h
  | cons first rest ih => exact ih (h.move first)

/-- A partition that moves have made of one of those to start with. -/
def Reachable (nodeCount : Nat) (p : Partition) : Prop :=
  ∃ start moves, (start = unassigned nodeCount ∨ start = singletons nodeCount) ∧
    p = moveAll start moves

/-- Every partition that can be reached has its bound above its subsets, as far
as there is anything above them. -/
theorem Reachable.capped {p : Partition} {nodeCount : Nat} (h : Reachable nodeCount p) :
    p.Capped := by
  obtain ⟨start, moves, rfl | rfl, rfl⟩ := h
  · exact (capped_unassigned nodeCount).moveAll moves
  · exact (capped_singletons nodeCount).moveAll moves

/-- A partition that measures take covers its nodes, unless a subset has the
largest index: then nothing is above it, and no list that is as long as the
bound has a place for it. -/
theorem Capped.covers {p : Partition} {nodeCount : Nat} (h : p.Capped)
    (htotal : p.ensureTotal nodeCount = .ok ())
    (htop : ∀ node subset, p.subsetOf node = some subset → subset < Index.top) :
    p.Covers nodeCount where
  size_eq := (ensureTotal_eq_ok_iff.1 htotal).1
  lt_upperBound := fun node subset hsubset => h node subset hsubset (htop node subset hsubset)
  isSome := (ensureTotal_eq_ok_iff.1 htotal).2

end Partition

namespace Conversion

variable {vertices segments : VertexSet} {p : Partition}

/-- A row is refused if its vertex does not exist, and that is a fault of the
input. -/
theorem ends_checkVertex (edge vertex : Nat) :
    Ends (fun _ => vertex < vertices.size) ConversionError.IsInput
      (checkVertex vertices edge vertex) := by
  unfold checkVertex
  by_cases h : vertex < vertices.size
  · rw [if_pos h]
    exact h
  · rw [if_neg h]
    trivial

/-- A membership is refused for what it says: for a vertex or a segment that
does not exist, or for another segment than that which the vertex has already.
Otherwise the vertex is moved, which cannot fail for a vertex that exists. -/
theorem ends_addMembership (hsegments : segments.size ≤ Index.top)
    (h : p.Bounded vertices.size) (edge : Nat) (row : Nat × Nat) :
    Ends (fun q => q.Bounded vertices.size) ConversionError.IsInput
      (addMembership vertices segments p edge row) := by
  obtain ⟨vertex, segment⟩ := row
  refine (ends_checkVertex edge vertex).bind fun _ hvertex => ?_
  by_cases hsegment : segment < segments.size
  · simp only [if_pos hsegment]
    -- a vertex that is in the segment already stays there
    cases hsubset : p.subsetOf vertex with
    | some first =>
      by_cases hsame : first = segment
      · simp only [if_pos hsame]
        exact h
      · simp only [if_neg hsame]
        trivial
    | none =>
      obtain ⟨q, hq, hbounded, -⟩ := h.assign hvertex (Nat.lt_of_lt_of_le hsegment hsegments)
      simp only [hq]
      exact hbounded
  · simp only [if_neg hsegment]
    trivial

/-- Row by row the memberships keep the bound above the subsets. -/
theorem ends_addMemberships (hsegments : segments.size ≤ Index.top)
    (h : p.Bounded vertices.size) (edge : Nat) (rows : List (Nat × Nat)) :
    Ends (fun q => q.Bounded vertices.size) ConversionError.IsInput
      (addMemberships vertices segments p edge rows) := by
  induction rows generalizing p edge with
  | nil => exact h
  | cons row rows ih =>
    exact (ends_addMembership hsegments h edge row).bind fun q hq => ih hq (edge + 1)

/-- Vertices without a segment have their own subsets up to some vertex. -/
structure Isolated (vertices segments : VertexSet) (vertex : Nat) (state : Partition × Nat) :
    Prop where
  bounded : state.1.Bounded vertices.size
  next_le : state.2 ≤ segments.size + vertex
  isSome : ∀ v < vertex, (state.1.subsetOf v).isSome = true

/-- The next vertex gets a subset of its own if it has none. As many numbers
behind the segments are used as there were such vertices, so as long as segments
and vertices together are within the indexes, the counter does not start
again. -/
theorem ends_isolate {vertex : Nat} {state : Partition × Nat}
    (hsize : segments.size + vertices.size ≤ Index.top) (hvertex : vertex < vertices.size)
    (h : Isolated vertices segments vertex state) :
    Ends (Isolated vertices segments (vertex + 1)) ConversionError.IsInput
      (isolate state vertex) := by
  obtain ⟨p, next⟩ := state
  have hnext : next ≤ segments.size + vertex := h.next_le
  unfold isolate
  cases hsubset : p.subsetOf vertex with
  | some subset =>
    -- nothing is done, and nothing has to be
    simp only [hsubset]
    refine ⟨h.bounded, by show next ≤ _; omega, fun v hv => ?_⟩
    rcases Nat.lt_or_eq_of_le (Nat.le_of_lt_succ hv) with hlt | rfl
    · exact h.isSome v hlt
    · show (p.subsetOf v).isSome = true
      rw [hsubset]
      rfl
  | none =>
    -- there is room for the numbers of this vertex and of those behind it
    have htop : next < Index.top := by omega
    obtain ⟨q, hq, hbounded, hsubsets⟩ := h.bounded.assign hvertex htop
    simp only [hsubset, hq]
    refine ⟨hbounded, ?_, fun v hv => ?_⟩
    · show Index.wrapNext next ≤ _
      rw [Index.wrapNext_eq htop]
      omega
    · show (q.subsetOf v).isSome = true
      rw [hsubsets]
      split
      · rfl
      · exact h.isSome v (by omega)

/-- Vertex by vertex: so many numbers behind the segments are the most that are
used. -/
theorem ends_foldlM_isolate (hsize : segments.size + vertices.size ≤ Index.top)
    (hp : p.Bounded vertices.size) {vertex : Nat} (hvertex : vertex ≤ vertices.size) :
    Ends (Isolated vertices segments vertex) ConversionError.IsInput
      ((List.range vertex).foldlM isolate (p, segments.size)) := by
  induction vertex with
  | zero => exact ⟨hp, Nat.le_refl _, fun v hv => absurd hv (Nat.not_lt_zero v)⟩
  | succ vertex ih =>
    rw [List.range_succ, List.foldlM_append]
    refine (ih (Nat.le_of_succ_le hvertex)).bind fun state hstate => ?_
    rw [List.foldlM_cons]
    refine (ends_isolate hsize hvertex hstate).bind fun after hafter => ?_
    exact hafter

/-- **A segmentation covers its vertices**, or is refused for what it says.
Every vertex is in its segment or alone, and no subset has the largest index, so
all measures can work with it. -/
theorem ends_placeVertices (belongsTo : EdgeBundle)
    (hsize : segments.size + vertices.size ≤ Index.top) :
    Ends (fun state => state.1.Covers vertices.size) ConversionError.IsInput
      (placeVertices vertices segments belongsTo) := by
  have hmembers := ends_addMemberships (by omega : segments.size ≤ Index.top)
    (Partition.bounded_unassigned vertices.size) 0 belongsTo.rows.toList
  refine hmembers.bind fun p hp => ?_
  have hall := ends_foldlM_isolate hsize hp (Nat.le_refl vertices.size)
  exact hall.mono (fun state hstate => ⟨hstate.bounded, hstate.isSome⟩) fun _ he => he

end Conversion

end GraphMeasures
