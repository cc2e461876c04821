import GraphMeasures.Proofs.Conversion.Memberships
import GraphMeasures.Proofs.StableOrder

/-!
# GraphMeasures — segmentations and their first fault

A membership is at fault for one reason (`MembershipFault`), or it joins the earlier
ones (`fault_or_joins`). What makes the memberships acceptable is a property of the set
of rows (`Consistent`), and so is the partition that they make: no vertex is moved once
it has a subset, so the bound is no more than the subsets ask for (`Partition.Tight`).
Only the error knows of the order of the rows.

* `Places` — what comes of a segmentation: its partition, or the first fault.
* `toPartition_places` — every segmentation is converted so, as long as there are
  numbers for its segments and vertices.
-/

namespace GraphMeasures

/-! ## Tight bounds -/

namespace Partition

/-- The bound is what the subsets of the nodes ask for. -/
def Tight (p : Partition) : Prop :=
  p.upperBound = 0 ∨
    ∃ node subset, p.subsetOf node = some subset ∧ p.upperBound = Index.next subset

variable {p q : Partition} {n node subset : Nat}

/-- Without subsets the bound is as low as it can be. -/
theorem tight_unassigned (n : Nat) : (unassigned n).Tight :=
  Or.inl rfl

/-- A partition is left as it is, or a node without a subset gets one. -/
def Grows (p q : Partition) : Prop :=
  q = p ∨ ∃ node subset, p.subsetOf node = none ∧ p.assign node subset = .ok q

/-- A node that had no subset leaves no old one behind, so the bound is still
needed: it was raised for the new subset, or it covers one that has kept all its
nodes. -/
theorem Tight.grows (h : p.Tight) (hgrows : p.Grows q) : q.Tight := by
  obtain rfl | ⟨node, subset, hnode, hq⟩ := hgrows
  · exact h
  have hsubsets := subsetOf_of_assign hq
  have hbound := upperBound_of_assign hq
  -- the new subset asks for the bound, or the one that asked for it before is still there
  rcases Nat.le_total p.upperBound (Index.next subset) with hle | hle
  · refine Or.inr ⟨node, subset, ?_, ?_⟩
    · rw [hsubsets, if_pos rfl]
    · rw [hbound, Nat.max_eq_right hle]
  · rw [Nat.max_eq_left hle] at hbound
    rcases h with hzero | ⟨other, old, hother, hold⟩
    · exact Or.inl (hbound.trans hzero)
    · refine Or.inr ⟨other, old, ?_, hbound.trans hold⟩
      have hne : other ≠ node := by
        rintro rfl
        rw [hnode] at hother
        cases hother
      rw [hsubsets, if_neg hne, hother]

/-- Among partitions with the same subsets a tight one has the least bound: its
bound is one past a subset that is in use, which every other bound has to
cover. -/
theorem Tight.upperBound_le (h : p.Tight) (hq : q.Bounded n)
    (hsame : ∀ node, p.subsetOf node = q.subsetOf node) : p.upperBound ≤ q.upperBound := by
  rcases h with hzero | ⟨node, subset, hsubset, hbound⟩
  · rw [hzero]
    exact Nat.zero_le _
  · rw [hsame] at hsubset
    have hlt := hq.lt_upperBound node subset hsubset
    rw [hbound, Index.next]
    omega

/-- With tight bounds the subsets say everything, since either bound is the
least one. -/
theorem eq_of_tight (hp : p.Tight) (hq : q.Tight) (hpBounded : p.Bounded n)
    (hqBounded : q.Bounded n) (hsame : ∀ node, p.subsetOf node = q.subsetOf node) : p = q := by
  have hbound : p.upperBound = q.upperBound :=
    Nat.le_antisymm (hp.upperBound_le hqBounded hsame)
      (hq.upperBound_le hpBounded fun node => (hsame node).symm)
  have hsubsets : p.subsets = q.subsets := by
    have hsize : p.subsets.size = q.subsets.size := hpBounded.size_eq.trans hqBounded.size_eq.symm
    refine Array.ext hsize fun i hi hi' => ?_
    have hnode := hsame i
    rw [subsetOf, subsetOf, Array.getElem?_eq_getElem hi, Array.getElem?_eq_getElem hi'] at hnode
    exact hnode
  cases p
  cases q
  exact congrArg₂ Partition.mk hsubsets hbound

end Partition

namespace Conversion

variable {vertices segments : VertexSet} {rows rows' : List (Nat × Nat)} {row : Nat × Nat}
variable {position vertex segment : Nat} {p : Partition} {e : ConversionError}

/-- A row that is taken in gives its vertex a subset, or changes nothing. No
vertex that has a subset loses it, and none goes to another one. -/
theorem grows_of_addMembership {edge : Nat} {q : Partition}
    (h : addMembership vertices segments p edge row = .ok q) : p.Grows q := by
  obtain ⟨vertex, segment⟩ := row
  simp only [addMembership, bind_eq_ok_iff] at h
  obtain ⟨-, -, h⟩ := h
  by_cases hsegment : segment < segments.size
  · rw [if_pos hsegment] at h
    cases hfirst : p.subsetOf vertex with
    | some first =>
      -- the vertex stays where it is
      by_cases hsame : first = segment
      · simp only [hfirst, if_pos hsame] at h
        exact Or.inl (Except.ok.inj h).symm
      · simp only [hfirst, if_neg hsame] at h
        cases h
    | none =>
      simp only [hfirst] at h
      exact Or.inr ⟨vertex, segment, hfirst, mapError_eq_ok_iff.1 h⟩
  · rw [if_neg hsegment] at h
    cases h

/-- A vertex gets a subset of its own only if it has none, so this also takes no
vertex out of its subset. -/
theorem grows_of_isolate {state after : Partition × Nat}
    (h : isolate state vertex = .ok after) : state.1.Grows after.1 := by
  obtain ⟨p, next⟩ := state
  unfold isolate at h
  cases hfirst : p.subsetOf vertex with
  | some first =>
    simp only [hfirst, Except.ok.injEq] at h
    rw [← h]
    exact Or.inl rfl
  | none =>
    simp only [hfirst, bind_eq_ok_iff, mapError_eq_ok_iff] at h
    obtain ⟨q, hq, hafter⟩ := h
    rw [← Except.ok.inj hafter]
    exact Or.inr ⟨vertex, next, hfirst, hq⟩

/-- Row by row the bound stays tight, because it is raised only to cover a
subset that has just got a vertex. -/
theorem tight_of_addMemberships {edge : Nat} {q : Partition} (hp : p.Tight)
    (h : addMemberships vertices segments p edge rows = .ok q) : q.Tight := by
  induction rows generalizing p edge with
  | nil =>
    rw [← Except.ok.inj h]
    exact hp
  | cons row rows ih =>
    rw [addMemberships, bind_eq_ok_iff] at h
    obtain ⟨mid, hrow, hrest⟩ := h
    exact ih (hp.grows (grows_of_addMembership hrow)) hrest

/-- No vertex is moved once it has a subset, so the partition of a segmentation
is known by its subsets alone. This is what moves in general do not give. -/
theorem tight_of_toPartition {belongsTo : EdgeBundle}
    (h : toPartition vertices segments belongsTo = .ok p) : p.Tight := by
  simp only [toPartition, placeVertices, bind_eq_ok_iff] at h
  obtain ⟨after, ⟨q, hq, hafter⟩, hp⟩ := h
  have hqTight := tight_of_addMemberships (Partition.tight_unassigned _) hq
  -- the second pass only visits vertices to fill their slots
  have hall : Ends (fun state : Partition × Nat => state.1.Tight) (fun _ => True)
      ((List.range vertices.size).foldlM isolate (q, segments.size)) := by
    refine Ends.foldlM hqTight fun state hstate vertex _ => ?_
    cases hnext : isolate state vertex with
    | error e => trivial
    | ok next => exact hstate.grows (grows_of_isolate hnext)
  rw [hafter] at hall
  rw [← Except.ok.inj hp]
  exact hall

/-! ## One membership -/

/-- What is wrong with a membership: its vertex, else its segment, else that the first
row of its vertex says otherwise. -/
inductive MembershipFault (vertices segments : VertexSet) (rows : List (Nat × Nat))
    (position : Nat) (row : Nat × Nat) : ConversionError → Prop
  | vertex (hvertex : vertices.size ≤ row.1) :
      MembershipFault vertices segments rows position row
        (.endpointOutOfRange position row.1 vertices.size)
  | segment (hvertex : row.1 < vertices.size) (hsegment : segments.size ≤ row.2) :
      MembershipFault vertices segments rows position row
        (.segmentOutOfRange position row.2 segments.size)
  | overlap {first : Nat} (hvertex : row.1 < vertices.size) (hsegment : row.2 < segments.size)
      (hfirst : rows.lookup row.1 = some first) (hother : first ≠ row.2) :
      MembershipFault vertices segments rows position row
        (.overlappingSegments row.1 first row.2)

/-- Only one thing can be wrong with a membership. The checks are made in turn,
and each kind of fault says that the checks before it were passed. -/
theorem MembershipFault.unique {e' : ConversionError}
    (h : MembershipFault vertices segments rows position row e)
    (h' : MembershipFault vertices segments rows position row e') : e = e' := by
  -- a fault of another kind contradicts a bound that has been passed
  cases h with
  | vertex hvertex =>
    cases h' with
    | vertex _ => rfl
    | segment hlt _ | overlap hlt _ _ _ => exact absurd hlt (Nat.not_lt.2 hvertex)
  | segment hvertex hsegment =>
    cases h' with
    | vertex hge => exact absurd hvertex (Nat.not_lt.2 hge)
    | segment _ _ => rfl
    | overlap _ hlt _ _ => exact absurd hlt (Nat.not_lt.2 hsegment)
  | overlap hvertex hsegment hfirst hother =>
    cases h' with
    | vertex hge => exact absurd hvertex (Nat.not_lt.2 hge)
    | segment _ hge => exact absurd hsegment (Nat.not_lt.2 hge)
    | overlap _ _ hfirst' _ => rw [Option.some.inj (hfirst.symm.trans hfirst')]

/-- A membership in range is at fault only if the first row of its vertex says
otherwise. -/
theorem MembershipFault.lookup_ne (h : MembershipFault vertices segments rows position row e)
    (hvertex : row.1 < vertices.size) (hsegment : row.2 < segments.size) :
    rows.lookup row.1 ≠ some row.2 := by
  cases h with
  | vertex hge => exact absurd hvertex (Nat.not_lt.2 hge)
  | segment _ hge => exact absurd hsegment (Nat.not_lt.2 hge)
  | overlap _ _ hfirst hother =>
    rw [hfirst]
    exact fun hsame => hother (Option.some.inj hsame)

/-- The first row of a vertex is an earlier one, or the vertex is new. -/
theorem lookup_eq_of_row (hrow : rows[position]? = some row) :
    rows.lookup row.1 = ((rows.take position).lookup row.1).or (some row.2) := by
  have hdrop : rows.drop position = row :: rows.drop (position + 1) := by
    obtain ⟨hlt, rfl⟩ := List.getElem?_eq_some_iff.1 hrow
    exact List.drop_eq_getElem_cons hlt
  conv_lhs => rw [← List.take_append_drop position rows, hdrop]
  rw [List.lookup_append, List.lookup_cons_self]

/-- A membership is at fault, or it joins the earlier ones: these are the two
ways in which the vertex, the segment and the earlier rows of the vertex can
stand to each other. -/
theorem fault_or_joins (hrow : rows[position]? = some row) :
    (∃ e, MembershipFault vertices segments rows position row e) ∨
      Joins vertices segments (rows.take position) row := by
  -- the three things that are looked at, in this order
  rcases Nat.lt_or_ge row.1 vertices.size with hvertex | hvertex
  · rcases Nat.lt_or_ge row.2 segments.size with hsegment | hsegment
    · by_cases hagrees : ∀ first, (rows.take position).lookup row.1 = some first → first = row.2
      · exact Or.inr ⟨hvertex, hsegment, hagrees⟩
      · push Not at hagrees
        obtain ⟨first, hfirst, hother⟩ := hagrees
        have hlookup : rows.lookup row.1 = some first := by
          rw [lookup_eq_of_row hrow, hfirst]
          rfl
        exact Or.inl ⟨_, .overlap hvertex hsegment hlookup hother⟩
    · exact Or.inl ⟨_, .segment hvertex hsegment⟩
  · exact Or.inl ⟨_, .vertex hvertex⟩

/-- What joins is not at fault, as every fault contradicts one of the three
parts of joining. -/
theorem Joins.not_fault (h : Joins vertices segments (rows.take position) row)
    (hrow : rows[position]? = some row) :
    ¬ MembershipFault vertices segments rows position row e := by
  intro hfault
  refine hfault.lookup_ne h.vertex_lt h.segment_lt ?_
  -- an earlier row of the vertex says the same, and else this is the first
  rw [lookup_eq_of_row hrow]
  cases hfirst : (rows.take position).lookup row.1 with
  | none => rfl
  | some first => exact congrArg some (h.agrees first hfirst)

/-- A membership at fault is refused for that. Unlike with the rows of a graph,
the rows before have a say in it: the first of them that is about the vertex is
named. -/
theorem MembershipFault.addMembership_eq
    (h : MembershipFault vertices segments rows position row e)
    (hrow : rows[position]? = some row) (hp : Placed vertices (rows.take position) p) :
    addMembership vertices segments p position row = .error e := by
  cases h with
  | vertex hvertex =>
    simp only [addMembership, checkVertex_eq_error (Nat.not_lt.2 hvertex)]
    rfl
  | segment hvertex hsegment =>
    simp only [addMembership, checkVertex_eq_ok hvertex, if_neg (Nat.not_lt.2 hsegment)]
    rfl
  | @overlap first hvertex hsegment hfirst hother =>
    -- the first row of the vertex is not this one, so it has been taken in
    have hsubset : p.subsetOf row.1 = some first := by
      rw [lookup_eq_of_row hrow] at hfirst
      rw [hp.subsetOf_eq]
      cases hearlier : (rows.take position).lookup row.1 with
      | none =>
        rw [hearlier] at hfirst
        exact absurd (Option.some.inj hfirst).symm hother
      | some earlier => rwa [hearlier] at hfirst
    simp only [addMembership, checkVertex_eq_ok hvertex, if_pos hsegment, hsubset, if_neg hother]
    rfl

/-- One membership: it is refused for its fault, or it joins the earlier
ones. -/
theorem addMembership_outcome (hsegments : segments.size ≤ Index.top)
    (hrow : rows[position]? = some row) (hp : Placed vertices (rows.take position) p) :
    (∃ e, MembershipFault vertices segments rows position row e ∧
        addMembership vertices segments p position row = .error e) ∨
      (∀ e, ¬ MembershipFault vertices segments rows position row e) ∧
        ∃ q, addMembership vertices segments p position row = .ok q ∧
          Placed vertices (rows.take (position + 1)) q := by
  rcases fault_or_joins hrow with ⟨e, hfault⟩ | hjoins
  · exact Or.inl ⟨e, hfault, hfault.addMembership_eq hrow hp⟩
  · rw [List.take_add_one, hrow]
    exact Or.inr ⟨fun _ => hjoins.not_fault hrow, addMembership_of_joins hsegments hp position hjoins⟩

/-! ## All memberships -/

/-- Taking rows in is a walk along the list that is told the positions, so the
lemmas about such walks apply to it. -/
theorem addMemberships_eq_foldlM (p : Partition) (edge : Nat) (rows : List (Nat × Nat)) :
    addMemberships vertices segments p edge rows =
      (rows.zipIdx edge).foldlM
        (fun p row => addMembership vertices segments p row.2 row.1) p := by
  induction rows generalizing p edge with
  | nil => rfl
  | cons row rows ih =>
    rw [addMemberships, List.zipIdx_cons, List.foldlM_cons]
    exact congrArg _ (funext fun q => ih q (edge + 1))

/-- All memberships: the first one at fault is refused, with all before it taken
in, or all have joined and the partition has placed them. -/
theorem addMemberships_outcome (hsegments : segments.size ≤ Index.top)
    (rows : List (Nat × Nat)) :
    let outcome := addMemberships vertices segments (.unassigned vertices.size) 0 rows
    (∃ i e, Earliest rows (MembershipFault vertices segments rows) i e ∧ outcome = .error e) ∨
      (∀ i row, rows[i]? = some row → ∀ e, ¬ MembershipFault vertices segments rows i row e) ∧
        ∃ p, outcome = .ok p ∧ Placed vertices rows p := by
  intro outcome
  have houtcome : outcome = rows.zipIdx.foldlM _ _ := addMemberships_eq_foldlM _ 0 _
  have hall : Placed vertices (rows.take rows.length) = Placed vertices rows := by
    rw [List.take_length]
  rw [houtcome, ← hall]
  exact foldlM_earliest (fun i p => Placed vertices (rows.take i) p)
    (MembershipFault vertices segments rows) placed_unassigned
    fun i row p hrow hp => addMembership_outcome hsegments hrow hp

/-- Rows within their sets that put no vertex into two segments. -/
structure Consistent (vertices segments : VertexSet) (rows : List (Nat × Nat)) : Prop where
  inRange : ∀ row ∈ rows, row.1 < vertices.size ∧ row.2 < segments.size
  single : ∀ vertex first second, (vertex, first) ∈ rows → (vertex, second) ∈ rows →
    first = second

/-- It does not matter which row of a vertex is the first. To agree with the
first one is to agree with each other, since the first one is a row as well. -/
theorem consistent_iff_unambiguous :
    Consistent vertices segments rows ↔ Unambiguous vertices segments rows := by
  constructor
  · rintro ⟨hrange, hsingle⟩ ⟨vertex, segment⟩ hrow
    refine ⟨(hrange _ hrow).1, (hrange _ hrow).2, ?_⟩
    obtain ⟨first, hfirst⟩ := exists_lookup hrow
    rw [hfirst, hsingle vertex first segment (mem_of_lookup hfirst) hrow]
  · intro h
    refine ⟨fun row hrow => ⟨(h row hrow).1, (h row hrow).2.1⟩, ?_⟩
    intro vertex first second hfirst hsecond
    exact Option.some.inj ((h _ hfirst).2.2.symm.trans (h _ hsecond).2.2)

/-- Consistency is a property of the set of rows. -/
theorem Consistent.congr (h : Consistent vertices segments rows)
    (hrows : ∀ row, row ∈ rows' ↔ row ∈ rows) : Consistent vertices segments rows' where
  inRange := fun row hrow => h.inRange row ((hrows row).1 hrow)
  single := fun vertex first second hfirst hsecond =>
    h.single vertex first second ((hrows _).1 hfirst) ((hrows _).1 hsecond)

/-- Among consistent rows none is at fault. -/
theorem Consistent.not_earliest (h : Consistent vertices segments rows) :
    ¬ Earliest rows (MembershipFault vertices segments rows) position e := by
  intro hfault
  obtain ⟨row, hrow, hwrong⟩ := hfault.found
  obtain ⟨hvertex, hsegment, hsame⟩ :=
    consistent_iff_unambiguous.1 h row (List.mem_of_getElem? hrow)
  exact hwrong.lookup_ne hvertex hsegment hsame

/-! ## Partitions -/

variable {belongsTo belongsTo' : EdgeBundle}

/-- A segmentation is refused for its first fault, or it is consistent. The
vertices without a row come afterwards, and none of them is refused when the
numbers suffice. -/
theorem toPartition_outcome (hsize : segments.size + vertices.size ≤ Index.top)
    (belongsTo : EdgeBundle) :
    (∃ i e, Earliest belongsTo.rows.toList
        (MembershipFault vertices segments belongsTo.rows.toList) i e ∧
        toPartition vertices segments belongsTo = .error e) ∨
      Consistent vertices segments belongsTo.rows.toList := by
  -- the walk along the rows ends at the earliest fault, or it accepts all of them
  have hsegments : segments.size ≤ Index.top := by omega
  rcases addMemberships_outcome hsegments belongsTo.rows.toList with
    ⟨i, e, hfault, herror⟩ | ⟨-, p, hp, -⟩
  · refine Or.inl ⟨i, e, hfault, ?_⟩
    rw [toPartition, placeVertices, herror]
    rfl
  · have hrows : Unambiguous vertices segments belongsTo.rows.toList :=
      unambiguous_of_addMemberships hsegments placed_unassigned hp
    exact Or.inr (consistent_iff_unambiguous.2 hrows)

/-- The vertices without a segment, in order. -/
def unsegmented (vertices : VertexSet) (belongsTo : EdgeBundle) : List Nat :=
  (List.range vertices.size).filter fun vertex => ∀ row ∈ belongsTo.rows, row.1 ≠ vertex

/-- What comes of a segmentation: its partition, or its first fault. -/
structure Places (vertices segments : VertexSet) (belongsTo : EdgeBundle) : Prop where
  ok_iff : (∃ p, toPartition vertices segments belongsTo = .ok p) ↔
    Consistent vertices segments belongsTo.rows.toList
  error_iff : ∀ e, toPartition vertices segments belongsTo = .error e ↔
    ∃ i, Earliest belongsTo.rows.toList
      (MembershipFault vertices segments belongsTo.rows.toList) i e
  not_engine : ∀ cause, toPartition vertices segments belongsTo ≠ .error (.engine cause)
  total : ∀ p, toPartition vertices segments belongsTo = .ok p →
    p.ensureTotal vertices.size = .ok ()
  segmented : ∀ p, toPartition vertices segments belongsTo = .ok p →
    ∀ row ∈ belongsTo.rows, p.subsetOf row.1 = some row.2
  /-- The vertices without a segment get the numbers behind the segments. -/
  alone : ∀ p, toPartition vertices segments belongsTo = .ok p →
    ∀ (k : Nat) vertex, (unsegmented vertices belongsTo)[k]? = some vertex →
      p.subsetOf vertex = some (segments.size + k)
  /-- The partition is one of the set of rows. -/
  unordered : ∀ p, toPartition vertices segments belongsTo = .ok p →
    ∀ belongsTo' : EdgeBundle, (∀ row, row ∈ belongsTo'.rows ↔ row ∈ belongsTo.rows) →
      toPartition vertices segments belongsTo' = .ok p

/-- There is no first row of a vertex if no row is about it. This is what makes
a vertex a single one, in whatever order the rows stand. -/
theorem lookup_isNone_iff {belongsTo : EdgeBundle} :
    (belongsTo.rows.toList.lookup vertex).isNone = true ↔
      ∀ row ∈ belongsTo.rows, row.1 ≠ vertex := by
  rw [Option.isNone_iff_eq_none, List.lookup_eq_none_iff]
  constructor
  · intro h row hrow hsame
    have hne := h row (Array.mem_toList_iff.2 hrow)
    simp [hsame] at hne
  · intro h row hrow
    have hne := h row (Array.mem_toList_iff.1 hrow)
    simpa [bne_iff_ne] using hne.symm

/-- The vertices without a segment are those without a first row. -/
theorem unsegmented_eq (vertices : VertexSet) (belongsTo : EdgeBundle) :
    unsegmented vertices belongsTo =
      (List.range vertices.size).filter fun v => (belongsTo.rows.toList.lookup v).isNone := by
  refine congrArg (List.filter · _) (funext fun v => ?_)
  rw [Bool.eq_iff_iff, decide_eq_true_iff]
  exact lookup_isNone_iff.symm

/-- The number of a vertex without a segment is behind the segments, by how many
such vertices come before it. -/
theorem placement_unsegmented (segments : VertexSet) {k : Nat}
    (h : (unsegmented vertices belongsTo)[k]? = some vertex) :
    vertex < vertices.size ∧
      placement segments belongsTo.rows.toList vertex = segments.size + k := by
  rw [unsegmented_eq, StableOrder.getElem?_filter_iff] at h
  obtain ⟨i, hi, hlone, hk⟩ := h
  obtain ⟨hlt, rfl⟩ := List.getElem?_eq_some_iff.1 hi
  rw [List.length_range] at hlt
  rw [List.getElem_range] at hlone ⊢
  refine ⟨hlt, ?_⟩
  rw [placement, Option.isNone_iff_eq_none.1 hlone, hk, List.take_range, Nat.min_eq_left hlt.le]
  rfl

/-- The same rows put every vertex into the same subset. A vertex with rows goes
where all of them say, and the number of a single vertex counts the single ones
before it. -/
theorem Consistent.placement_congr (h : Consistent vertices segments rows)
    (hrows : ∀ row, row ∈ rows' ↔ row ∈ rows) (vertex : Nat) :
    placement segments rows' vertex = placement segments rows vertex := by
  have hunambiguous := consistent_iff_unambiguous.1 h
  -- a renaming that leaves every segment its number
  have hsame : Renamed segments rows rows' id := by
    refine ⟨Set.bijOn_id _, fun vertex segment => ?_⟩
    rw [hrows]
    simp
  rw [placement, placement, hsame.lookup_eq hunambiguous, hsame.lone_eq hunambiguous,
    Option.map_id_fun, id]

/-- The same rows make the same partition, bound included: the subsets are the
same, and either bound is tight. -/
theorem Consistent.toPartition_congr (h : Consistent vertices segments belongsTo.rows.toList)
    (hsize : segments.size + vertices.size ≤ Index.top)
    (hrows : ∀ row, row ∈ belongsTo'.rows ↔ row ∈ belongsTo.rows) :
    toPartition vertices segments belongsTo' = toPartition vertices segments belongsTo := by
  have hrows' : ∀ row, row ∈ belongsTo'.rows.toList ↔ row ∈ belongsTo.rows.toList := by
    simpa using hrows
  obtain ⟨p, hp, hcovers, hsubsets⟩ :=
    subsetOf_toPartition hsize (consistent_iff_unambiguous.1 h)
  obtain ⟨p', hp', hcovers', hsubsets'⟩ :=
    subsetOf_toPartition hsize (consistent_iff_unambiguous.1 (h.congr hrows'))
  have hsubsetOf : ∀ node, p'.subsetOf node = p.subsetOf node := by
    intro node
    rcases Nat.lt_or_ge node vertices.size with hlt | hge
    · rw [hsubsets' node hlt, hsubsets node hlt, h.placement_congr hrows']
    · rw [Partition.subsetOf_eq_none (hcovers'.size_eq.trans_le hge),
        Partition.subsetOf_eq_none (hcovers.size_eq.trans_le hge)]
  -- the same subsets, and neither bound is more than they ask for
  rw [hp', hp, Partition.eq_of_tight (tight_of_toPartition hp') (tight_of_toPartition hp)
    hcovers'.toBounded hcovers.toBounded hsubsetOf]

/-- A segmentation with a fault places its vertices as it should: not at all.
The error is that of the earliest fault, and it is no error of the engine. -/
theorem places_of_earliest
    (hfault : Earliest belongsTo.rows.toList
      (MembershipFault vertices segments belongsTo.rows.toList) position e)
    (herror : toPartition vertices segments belongsTo = .error e) :
    Places vertices segments belongsTo := by
  -- there is no partition, so what is said of one holds of none
  have hnone : ∀ p, toPartition vertices segments belongsTo ≠ .ok p := by simp [herror]
  constructor
  case ok_iff =>
    exact iff_of_false (fun ⟨p, hp⟩ => hnone p hp) fun h => h.not_earliest hfault
  case error_iff =>
    intro e'
    rw [herror, Except.error.injEq]
    exact ⟨fun he => ⟨position, he ▸ hfault⟩,
      fun ⟨_, hfault'⟩ => hfault.unique (fun _ _ _ _ h h' => h.unique h') hfault'⟩
  case not_engine =>
    rw [herror]
    rintro cause ⟨⟩
    obtain ⟨row, -, hrow⟩ := hfault.found
    cases hrow
  case total | segmented | alone | unordered => exact fun p hp => absurd hp (hnone p)

/-- A consistent segmentation places its vertices as it should. There is one
partition only; it covers all vertices, and their subsets are those that
`placement` names. -/
theorem places_of_consistent (hsize : segments.size + vertices.size ≤ Index.top)
    (hconsistent : Consistent vertices segments belongsTo.rows.toList) :
    Places vertices segments belongsTo := by
  have hunambiguous := consistent_iff_unambiguous.1 hconsistent
  obtain ⟨p, hp, hcovers, hsubsets⟩ := subsetOf_toPartition hsize hunambiguous
  -- there is one partition, and all the rest is about it
  have hsame : ∀ q, toPartition vertices segments belongsTo = .ok q → q = p :=
    fun q hq => Except.ok.inj (hq.symm.trans hp)
  constructor
  case ok_iff => exact iff_of_true ⟨p, hp⟩ hconsistent
  case error_iff =>
    intro e
    rw [hp]
    exact iff_of_false (by simp) fun ⟨_, hfault⟩ => hconsistent.not_earliest hfault
  case not_engine =>
    intro cause
    rw [hp]
    simp
  case total =>
    intro q hq
    rw [hsame q hq]
    exact hcovers.ensureTotal_eq
  case segmented =>
    intro q hq row hrow
    obtain ⟨hvertex, -, hlookup⟩ := hunambiguous row (Array.mem_toList_iff.2 hrow)
    rw [hsame q hq, hsubsets row.1 hvertex, placement, hlookup]
    rfl
  case alone =>
    intro q hq k vertex hvertex
    obtain ⟨hlt, hplacement⟩ := placement_unsegmented segments hvertex
    rw [hsame q hq, hsubsets vertex hlt, hplacement]
  case unordered =>
    intro q hq belongsTo' hrows
    rw [hconsistent.toPartition_congr hsize hrows, hq]

/-- **A segmentation is accepted exactly if it is consistent**, and else refused
for its first fault. Vertices with rows are where these say, the others are
alone behind all segments, in their own order; and neither depends on the order
of the rows. The numbers have to suffice for all segments and vertices
together. -/
theorem toPartition_places (vertices segments : VertexSet) (belongsTo : EdgeBundle)
    (hsize : segments.size + vertices.size ≤ Index.top) :
    Places vertices segments belongsTo := by
  rcases toPartition_outcome hsize belongsTo with ⟨i, e, hfault, herror⟩ | hconsistent
  · exact places_of_earliest hfault herror
  · exact places_of_consistent hsize hconsistent

/-- Two of four vertices share the last of two segments, one of them by two
rows. Turned round, the rows make the same partition. -/
theorem toPartition_places_repeated :
    let rows : EdgeBundle := ⟨#[(3, 1), (0, 1), (3, 1)]⟩
    let turned : EdgeBundle := ⟨#[(0, 1), (3, 1)]⟩
    let p : Partition := ⟨#[some 1, some 2, some 3, some 1], 4⟩
    2 + 4 ≤ Index.top ∧ toPartition ⟨4⟩ ⟨2⟩ rows = .ok p ∧ toPartition ⟨4⟩ ⟨2⟩ turned = .ok p := by
  intro rows turned p
  have hsize : 2 + 4 ≤ Index.top := by decide
  have hp : toPartition ⟨4⟩ ⟨2⟩ rows = .ok p := rfl
  refine ⟨hsize, hp, (toPartition_places ⟨4⟩ ⟨2⟩ rows hsize).unordered p hp turned fun row => ?_⟩
  simp only [turned, rows, List.mem_toArray, List.mem_cons, List.not_mem_nil, or_false]
  tauto

end Conversion

end GraphMeasures
