import GraphMeasures.Proofs.Conversion.Segmentations

/-!
# GraphMeasures — when the numbers of single vertices run out

The vertices without a segment are numbered from the number of segments on, and these
numbers start again at zero behind the largest index. Segments are a number that a
caller gives, so there may be too many of them for what comes behind.

* `Overflows` — a number is needed behind the largest index. The last vertex asks for
  one too, though no vertex is left to get it.
* `Apart` — the vertices without a segment are alone, in subsets that no segment has.
* `toPartition_singletons` — a consistent segmentation makes a partition whether or not
  its numbers run out, and the bounds up to which they do not and up to which the single
  vertices are apart. These differ by one.
-/

namespace GraphMeasures.Conversion

variable {vertices segments : VertexSet} {belongsTo : EdgeBundle} {p : Partition} {vertex : Nat}

/-- The next number is the largest index when it is given to a vertex, so that there is
none to go on with. -/
def Overflows (vertices segments : VertexSet) (belongsTo : EdgeBundle) : Prop :=
  ∃ q vertex p,
    addMemberships vertices segments (.unassigned vertices.size) 0 belongsTo.rows.toList = .ok q ∧
      vertex < vertices.size ∧
      (List.range vertex).foldlM isolate (q, segments.size) = .ok (p, Index.top) ∧
      p.subsetOf vertex = none

/-- The vertices without a segment have subsets of their own, and none that has the number
of a segment. -/
structure Apart (vertices segments : VertexSet) (belongsTo : EdgeBundle) (p : Partition) :
    Prop where
  behind : ∀ v ∈ unsegmented vertices belongsTo, ∀ subset, p.subsetOf v = some subset →
    segments.size ≤ subset
  alone : ∀ v ∈ unsegmented vertices belongsTo, ∀ w < vertices.size,
    p.subsetOf w = p.subsetOf v → w = v

/-- What becomes of the vertices of a segmentation, with numbers that start again. -/
structure Singletons (vertices segments : VertexSet) (belongsTo : EdgeBundle) (p : Partition) :
    Prop where
  segmented : ∀ row ∈ belongsTo.rows, p.subsetOf row.1 = some row.2
  numbered : ∀ (k : Nat) vertex, (unsegmented vertices belongsTo)[k]? = some vertex →
    p.subsetOf vertex = some ((segments.size + k) % Index.count)
  /-- The numbers do not run out if there is one more than is given away. -/
  overflows_iff : Overflows vertices segments belongsTo ↔
    Index.top < segments.size + (unsegmented vertices belongsTo).length
  /-- What is given away is enough. -/
  apart_iff : Apart vertices segments belongsTo p ↔
    segments.size + (unsegmented vertices belongsTo).length ≤ Index.count

/-! ## Vertices without a segment -/

/-- A vertex is without a segment if no row is about it. -/
theorem mem_unsegmented : vertex ∈ unsegmented vertices belongsTo ↔
    vertex < vertices.size ∧ belongsTo.rows.toList.lookup vertex = none := by
  rw [unsegmented_eq, List.mem_filter, List.mem_range, Option.isNone_iff_eq_none]

/-- There are as many of them as numbers are given. -/
theorem length_unsegmented (vertices : VertexSet) (belongsTo : EdgeBundle) :
    (unsegmented vertices belongsTo).length = lone belongsTo.rows.toList vertices.size := by
  rw [unsegmented_eq, lone, List.countP_eq_length_filter]

theorem length_unsegmented_le (vertices : VertexSet) (belongsTo : EdgeBundle) :
    (unsegmented vertices belongsTo).length ≤ vertices.size := by
  rw [length_unsegmented]
  exact lone_le _ _

/-- The number of a vertex without a segment is its position among those. -/
theorem lone_of_unsegmented {k : Nat} (h : (unsegmented vertices belongsTo)[k]? = some vertex) :
    lone belongsTo.rows.toList vertex = k := by
  have hnone := (mem_unsegmented.1 (List.mem_of_getElem? h)).2
  -- the number behind no segments
  have hplacement := (placement_unsegmented ⟨0⟩ h).2
  rw [placement, hnone, Option.getD_none] at hplacement
  exact Nat.add_left_cancel hplacement

/-! ## Numbers that start again -/

section Counting

variable {q : Partition}

/-- The numbers run out if they go past the largest index. The counter goes one
further after each of these vertices, also after the last one, so it is asked
for one number more than are given. -/
theorem overflows_iff (hsegments : segments.size ≤ Index.top)
    (hq : addMemberships vertices segments (.unassigned vertices.size) 0 belongsTo.rows.toList =
      .ok q)
    (hplaced : Placed vertices belongsTo.rows.toList q) :
    Overflows vertices segments belongsTo ↔
      Index.top < segments.size + (unsegmented vertices belongsTo).length := by
  constructor
  · rintro ⟨q', vertex, p, hq', hvertex, hp, hnone⟩
    obtain rfl := Except.ok.inj (hq.symm.trans hq')
    obtain ⟨after, hafter, hcounted⟩ := foldlM_isolate_counted hsegments hplaced hvertex.le
    obtain rfl := Except.ok.inj (hafter.symm.trans hp)
    -- the vertex gets the largest index and is counted itself
    have hnext : Index.top = (segments.size + lone belongsTo.rows.toList vertex) % Index.count :=
      hcounted.next_eq
    have hlone : belongsTo.rows.toList.lookup vertex = none := by
      have hsubset := hcounted.subsetOf_eq vertex
      rwa [hnone, if_neg (Nat.lt_irrefl _), Option.or_none, eq_comm] at hsubset
    have hlt := lone_lt_lone hlone hvertex
    have hle := Nat.mod_le (segments.size + lone belongsTo.rows.toList vertex) Index.count
    rw [length_unsegmented]
    omega
  · intro hlt
    -- the vertex whose number is the largest index
    obtain ⟨vertex, hvertex⟩ : ∃ vertex,
        (unsegmented vertices belongsTo)[Index.top - segments.size]? = some vertex :=
      ⟨_, List.getElem?_eq_getElem (by omega)⟩
    obtain ⟨hsize, hnone⟩ := mem_unsegmented.1 (List.mem_of_getElem? hvertex)
    obtain ⟨⟨p, next⟩, hafter, hcounted⟩ := foldlM_isolate_counted hsegments hplaced hsize.le
    have hnext : next = (segments.size + lone belongsTo.rows.toList vertex) % Index.count :=
      hcounted.next_eq
    rw [lone_of_unsegmented hvertex, Nat.add_sub_cancel' hsegments,
      Nat.mod_eq_of_lt (Index.lt_count_of_le_top (Nat.le_refl _))] at hnext
    subst hnext
    refine ⟨q, vertex, p, hq, hsize, hafter, ?_⟩
    rw [show p.subsetOf vertex = _ from hcounted.subsetOf_eq vertex, hnone,
      if_neg (Nat.lt_irrefl _)]
    rfl

variable (hsubsets : ∀ v < vertices.size, p.subsetOf v =
  some ((belongsTo.rows.toList.lookup v).getD
    ((segments.size + lone belongsTo.rows.toList v) % Index.count)))

include hsubsets

/-- A vertex without a segment has the number behind the segments that is its
own, or what is left of it when the counter has started again. -/
theorem subsetOf_unsegmented {k : Nat}
    (h : (unsegmented vertices belongsTo)[k]? = some vertex) :
    p.subsetOf vertex = some ((segments.size + k) % Index.count) := by
  obtain ⟨hlt, hnone⟩ := mem_unsegmented.1 (List.mem_of_getElem? h)
  rw [hsubsets vertex hlt, hnone, lone_of_unsegmented h]
  rfl

/-- With indexes for all single vertices, their numbers are what they are
without an end, and those are all different: each counts the single vertices
before its own. -/
theorem apart_of_le (hrows : Unambiguous vertices segments belongsTo.rows.toList)
    (hle : segments.size + (unsegmented vertices belongsTo).length ≤ Index.count) :
    Apart vertices segments belongsTo p := by
  -- the numbers stay below the range, so that none of them has to be reduced
  have hplacement : ∀ v < vertices.size,
      p.subsetOf v = some (placement segments belongsTo.rows.toList v) := by
    intro v hv
    rw [hsubsets v hv, placement]
    cases hlookup : belongsTo.rows.toList.lookup v with
    | some segment => rfl
    | none =>
      have hlt := lone_lt_lone hlookup hv
      rw [length_unsegmented] at hle
      rw [Nat.mod_eq_of_lt (by omega)]
  constructor
  case behind =>
    intro v hv subset hsubset
    obtain ⟨hlt, hnone⟩ := mem_unsegmented.1 hv
    rw [hplacement v hlt, placement, hnone] at hsubset
    obtain rfl := Option.some.inj hsubset
    exact Nat.le_add_right _ _
  case alone =>
    -- equal places mean the same vertex or the same segment, and `v` has no segment
    intro v hv w hw hsame
    obtain ⟨hlt, hnone⟩ := mem_unsegmented.1 hv
    rw [hplacement v hlt, hplacement w hw, Option.some_inj, hrows.placement_eq_iff] at hsame
    rcases hsame with hsame | ⟨segment, -, hsegment⟩
    · exact hsame
    · rw [hnone] at hsegment
      cases hsegment

/-- Without enough indexes one vertex gets the number behind the largest, which
is zero; and that is a segment, or if there are no segments, the number of the
first vertex. So it is not apart from the rest. -/
theorem le_of_apart (hvertices : vertices.size ≤ Index.top) (hsegments : segments.size ≤ Index.top)
    (h : Apart vertices segments belongsTo p) :
    segments.size + (unsegmented vertices belongsTo).length ≤ Index.count := by
  by_contra hlt
  -- there are enough vertices without a segment for one of them to get zero
  have hcount := Index.lt_count_of_le_top hsegments
  obtain ⟨vertex, hvertex⟩ : ∃ vertex,
      (unsegmented vertices belongsTo)[Index.count - segments.size]? = some vertex :=
    ⟨_, List.getElem?_eq_getElem (by omega)⟩
  have hzero := subsetOf_unsegmented hsubsets hvertex
  rw [Nat.add_sub_cancel' hcount.le, Nat.mod_self] at hzero
  have hbehind := h.behind vertex (List.mem_of_getElem? hvertex) 0 hzero
  -- without segments there are indexes for all vertices
  have hlength := length_unsegmented_le vertices belongsTo
  have hvertexCount := Index.lt_count_of_le_top hvertices
  omega

end Counting

/-- **Single vertices are apart as long as there are indexes for them.** Every consistent
segmentation makes a partition. Its numbers overflow exactly if the segments and the
vertices without one are more than the largest index; and exactly if they are more than
there are indexes, vertices without a segment are not apart. -/
theorem toPartition_singletons (hvertices : vertices.size ≤ Index.top)
    (hsegments : segments.size ≤ Index.top)
    (h : Consistent vertices segments belongsTo.rows.toList) :
    ∃ p, toPartition vertices segments belongsTo = .ok p ∧
      Singletons vertices segments belongsTo p := by
  -- the rows place the segmented vertices, and then the vertices are walked along
  have hrows := consistent_iff_unambiguous.1 h
  obtain ⟨q, hq, hplaced⟩ := addMemberships_eq_ok hsegments placed_unassigned 0 hrows
  rw [List.nil_append] at hplaced
  obtain ⟨⟨p, next⟩, hp, hcounted⟩ :=
    foldlM_isolate_counted hsegments hplaced (Nat.le_refl vertices.size)
  have hsubsets : ∀ v < vertices.size, p.subsetOf v =
      some ((belongsTo.rows.toList.lookup v).getD
        ((segments.size + lone belongsTo.rows.toList v) % Index.count)) := by
    intro v hv
    rw [show p.subsetOf v = _ from hcounted.subsetOf_eq v, if_pos hv]
    cases belongsTo.rows.toList.lookup v <;> rfl
  refine ⟨p, ?_, ?_, fun _ _ => subsetOf_unsegmented hsubsets,
    overflows_iff hsegments hq hplaced,
    le_of_apart hsubsets hvertices hsegments, apart_of_le hsubsets hrows⟩
  · -- the number behind the last vertex is dropped
    rw [toPartition, placeVertices, hq]
    show ((List.range vertices.size).foldlM isolate (q, segments.size) >>= _) = _
    rw [hp]
    rfl
  · intro row hrow
    obtain ⟨hvertex, -, hlookup⟩ := hrows row (Array.mem_toList_iff.2 hrow)
    rw [hsubsets row.1 hvertex, hlookup]
    rfl

/-- Three vertices without a segment get the last three indexes. They are apart, and yet the
last of them asks for one more. -/
theorem toPartition_singletons_last :
    let segments : VertexSet := ⟨Index.top - 2⟩
    let belongsTo : EdgeBundle := ⟨#[(1, 0)]⟩
    4 ≤ Index.top ∧ segments.size ≤ Index.top ∧
      Consistent ⟨4⟩ segments belongsTo.rows.toList ∧ Overflows ⟨4⟩ segments belongsTo ∧
      ∃ p, toPartition ⟨4⟩ segments belongsTo = .ok p ∧ Apart ⟨4⟩ segments belongsTo p := by
  intro segments belongsTo
  have hvertices : 4 ≤ Index.top := by decide
  have hsegments : segments.size ≤ Index.top := by decide
  -- the rows that are there are all consistent: there is one
  have hrows : Consistent ⟨4⟩ segments belongsTo.rows.toList :=
    consistent_iff_unambiguous.2 (by show ∀ row ∈ [(1, 0)], _; decide)
  have hlength : (unsegmented ⟨4⟩ belongsTo).length = 3 := by decide
  obtain ⟨p, hp, hsingletons⟩ := toPartition_singletons hvertices hsegments hrows
  refine ⟨hvertices, hsegments, hrows, hsingletons.overflows_iff.2 ?_, p, hp,
    hsingletons.apart_iff.2 ?_⟩
  · rw [hlength]
    decide
  · rw [hlength]
    decide

/-- Two vertices without a segment behind as many segments as the largest index: the second
one joins the first segment, and with it the vertex that belongs there. -/
theorem toPartition_singletons_joined :
    let segments : VertexSet := ⟨Index.top⟩
    let belongsTo : EdgeBundle := ⟨#[(2, 0)]⟩
    Consistent ⟨3⟩ segments belongsTo.rows.toList ∧ Overflows ⟨3⟩ segments belongsTo ∧
      ∃ p, toPartition ⟨3⟩ segments belongsTo = .ok p ∧ p.subsetOf 1 = p.subsetOf 2 ∧
        ¬ Apart ⟨3⟩ segments belongsTo p := by
  intro segments belongsTo
  let p : Partition := ⟨#[some Index.top, some 0, some 0], Index.top⟩
  have hmembers : addMemberships ⟨3⟩ segments (.unassigned 3) 0 belongsTo.rows.toList =
      .ok ⟨#[none, none, some 0], 1⟩ := rfl
  -- the number of vertex 1 is one past the last, which is zero, and so is its segment
  have hplaced : placeVertices ⟨3⟩ segments belongsTo = .ok (p, 1) := by
    rw [placeVertices, hmembers]
    show (List.range 3).foldlM isolate (⟨#[none, none, some 0], 1⟩, Index.top) = _
    rfl
  have hp : toPartition ⟨3⟩ segments belongsTo = .ok p := by
    rw [toPartition, hplaced]
    rfl
  have hmem : 1 ∈ unsegmented ⟨3⟩ belongsTo := by decide
  refine ⟨consistent_iff_unambiguous.2 (by show ∀ row ∈ [(2, 0)], _; decide),
    ⟨_, 0, _, hmembers, by decide, rfl, rfl⟩, p, hp, rfl, fun h => ?_⟩
  exact absurd (h.alone 1 hmem 2 (by decide) rfl) (by decide)

end GraphMeasures.Conversion
