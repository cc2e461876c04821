import GraphMeasures.Proofs.Partition

/-!
# GraphMeasures — which memberships are accepted

Memberships make a partition exactly if every row is within its sets and no two
rows put one vertex into different segments. What they make is known node by node:
a vertex with a row is in the subset of its segment, and the others have the numbers
behind, in order (`subsetOf_toPartition`).

Neither the order of the rows nor repeated rows matter for that, and with other
names for the segments the same vertices are together (`toPartition_renamed`).
-/

namespace GraphMeasures.Conversion

variable {vertices segments : VertexSet} {rows done : List (Nat × Nat)} {p q : Partition}

/-! ## One membership -/

/-- A row that may come behind others. -/
structure Joins (vertices segments : VertexSet) (done : List (Nat × Nat)) (row : Nat × Nat) :
    Prop where
  vertex_lt : row.1 < vertices.size
  segment_lt : row.2 < segments.size
  agrees : ∀ segment, done.lookup row.1 = some segment → segment = row.2

/-- A partition in which the vertices with a row are where their first one says. -/
structure Placed (vertices : VertexSet) (done : List (Nat × Nat)) (p : Partition) : Prop where
  bounded : p.Bounded vertices.size
  subsetOf_eq : ∀ vertex, p.subsetOf vertex = done.lookup vertex

/-- A row at the end decides only about a vertex without an earlier one, since a
vertex is looked up from the front. -/
theorem lookup_concat (done : List (Nat × Nat)) (row : Nat × Nat) (vertex : Nat) :
    (done ++ [row]).lookup vertex =
      (done.lookup vertex).or (if vertex = row.1 then some row.2 else none) := by
  rw [List.lookup_append]
  congr 1
  obtain ⟨first, segment⟩ := row
  by_cases h : vertex = first
  · simp [h]
  · simp [h]

/-- Before any row no vertex has a subset. -/
theorem placed_unassigned : Placed vertices [] (.unassigned vertices.size) :=
  ⟨Partition.bounded_unassigned _, Partition.subsetOf_unassigned _⟩

/-- A row that joins is taken in: its vertex is new, or it is in that segment
already and stays there. Either way the partition has placed what the rows up to
here say. -/
theorem addMembership_of_joins (hsegments : segments.size ≤ Index.top)
    (hp : Placed vertices done p) (edge : Nat) {row : Nat × Nat}
    (h : Joins vertices segments done row) :
    ∃ q, addMembership vertices segments p edge row = .ok q ∧
      Placed vertices (done ++ [row]) q := by
  obtain ⟨vertex, segment⟩ := row
  have hvertex : vertex < vertices.size := h.vertex_lt
  have hsegment : segment < segments.size := h.segment_lt
  rw [addMembership]
  simp only [checkVertex_eq_ok hvertex, if_pos hsegment]
  cases hfirst : p.subsetOf vertex with
  | some first =>
    -- the vertex is there already, and the row says the same
    have hdone : done.lookup vertex = some first := (hp.subsetOf_eq vertex).symm.trans hfirst
    obtain rfl : first = segment := h.agrees first hdone
    refine ⟨p, by simp [bind, Except.bind, pure, Except.pure], hp.bounded, fun other => ?_⟩
    rw [lookup_concat, hp.subsetOf_eq]
    by_cases hother : other = vertex
    · rw [hother, hdone]
      rfl
    · rw [if_neg hother, Option.or_none]
  | none =>
    have hdone : done.lookup vertex = none := (hp.subsetOf_eq vertex).symm.trans hfirst
    obtain ⟨q, hq, hbounded, hsubsets⟩ :=
      hp.bounded.assign hvertex (Nat.lt_of_lt_of_le hsegment hsegments)
    refine ⟨q, by simp only [hq]; rfl, hbounded, fun other => ?_⟩
    rw [lookup_concat, hsubsets]
    by_cases hother : other = vertex
    · rw [if_pos hother, hother, hdone, if_pos rfl]
      rfl
    · rw [if_neg hother, if_neg hother, Option.or_none, hp.subsetOf_eq]

/-- Only rows that join are taken in: both numbers are in range, and if the
vertex has a segment already it is the one of the row. -/
theorem joins_of_addMembership (hp : Placed vertices done p) {edge : Nat} {row : Nat × Nat}
    (h : addMembership vertices segments p edge row = .ok q) :
    Joins vertices segments done row := by
  obtain ⟨vertex, segment⟩ := row
  simp only [addMembership, bind_eq_ok_iff, checkVertex_eq_ok_iff] at h
  obtain ⟨-, hvertex, h⟩ := h
  by_cases hsegment : segment < segments.size
  · rw [if_pos hsegment] at h
    refine ⟨hvertex, hsegment, fun first hfirst => ?_⟩
    rw [← hp.subsetOf_eq] at hfirst
    by_contra hne
    simp only [hfirst, if_neg hne] at h
    cases h
  · rw [if_neg hsegment] at h
    cases h

/-! ## All memberships -/

theorem mem_of_lookup {vertex segment : Nat} (h : rows.lookup vertex = some segment) :
    (vertex, segment) ∈ rows := by
  obtain ⟨before, after, rfl, -⟩ := List.lookup_eq_some_iff.1 h
  exact List.mem_append_right _ List.mem_cons_self

/-- A vertex with a row has a first one. -/
theorem exists_lookup {vertex segment : Nat} (h : (vertex, segment) ∈ rows) :
    ∃ first, rows.lookup vertex = some first := by
  cases hfirst : rows.lookup vertex with
  | none => exact absurd (List.lookup_eq_none_iff.1 hfirst _ h) (by simp)
  | some first => exact ⟨first, rfl⟩

/-- Rows that are within their sets and put no vertex into two segments. -/
def Unambiguous (vertices segments : VertexSet) (rows : List (Nat × Nat)) : Prop :=
  ∀ row ∈ rows, row.1 < vertices.size ∧ row.2 < segments.size ∧ rows.lookup row.1 = some row.2

/-- In unambiguous rows the first row of a vertex says what all of them say. -/
theorem Unambiguous.lookup_eq_some_iff (h : Unambiguous vertices segments rows)
    {vertex segment : Nat} : rows.lookup vertex = some segment ↔ (vertex, segment) ∈ rows :=
  ⟨mem_of_lookup, fun hmem => (h _ hmem).2.2⟩

theorem Unambiguous.segment_lt (h : Unambiguous vertices segments rows) {vertex segment : Nat}
    (hlookup : rows.lookup vertex = some segment) : segment < segments.size :=
  (h _ (mem_of_lookup hlookup)).2.1

/-- Rows join one after the other if each agrees with the first of its vertex,
be that one of the rows placed before or one of those that are still to come. -/
theorem addMemberships_eq_ok (hsegments : segments.size ≤ Index.top)
    (hp : Placed vertices done p) (edge : Nat)
    (h : ∀ row ∈ rows, row.1 < vertices.size ∧ row.2 < segments.size ∧
      (done ++ rows).lookup row.1 = some row.2) :
    ∃ q, addMemberships vertices segments p edge rows = .ok q ∧
      Placed vertices (done ++ rows) q := by
  -- along the rows; what they have placed so far is the invariant
  induction rows generalizing p edge done with
  | nil =>
    refine ⟨p, rfl, ?_⟩
    rw [List.append_nil]
    exact hp
  | cons row rows ih =>
    obtain ⟨hvertex, hsegment, hlookup⟩ := h row List.mem_cons_self
    have hjoins : Joins vertices segments done row := by
      refine ⟨hvertex, hsegment, fun first hfirst => ?_⟩
      rw [List.lookup_append, hfirst] at hlookup
      exact Option.some.inj hlookup
    obtain ⟨mid, hmid, hplaced⟩ := addMembership_of_joins hsegments hp edge hjoins
    obtain ⟨last, hlast, hlastPlaced⟩ := ih hplaced (edge + 1) fun other hother => by
      rw [← List.append_cons]
      exact h other (List.mem_cons_of_mem _ hother)
    refine ⟨last, ?_, ?_⟩
    · rw [addMemberships, hmid]
      exact hlast
    · rw [List.append_cons]
      exact hlastPlaced

/-- Rows that are taken in agree with the first row of their vertex. Each of
them was compared with what had been placed before, which is what the earlier
rows say. -/
theorem unambiguous_of_addMemberships (hsegments : segments.size ≤ Index.top)
    (hp : Placed vertices done p) {edge : Nat}
    (h : addMemberships vertices segments p edge rows = .ok q) :
    ∀ row ∈ rows, row.1 < vertices.size ∧ row.2 < segments.size ∧
      (done ++ rows).lookup row.1 = some row.2 := by
  -- a row that was accepted had nothing against it, so each step gives one fact back
  induction rows generalizing p edge done with
  | nil => exact fun _ hrow => absurd hrow List.not_mem_nil
  | cons row rows ih =>
    rw [addMemberships, bind_eq_ok_iff] at h
    obtain ⟨mid, hrow, hrest⟩ := h
    have hjoins := joins_of_addMembership hp hrow
    obtain ⟨_, hmid, hplaced⟩ := addMembership_of_joins hsegments hp edge hjoins
    obtain rfl := Except.ok.inj (hrow.symm.trans hmid)
    intro other hother
    rcases List.mem_cons.1 hother with rfl | hother
    · refine ⟨hjoins.vertex_lt, hjoins.segment_lt, ?_⟩
      rw [List.append_cons, List.lookup_append, lookup_concat, if_pos rfl]
      cases hfirst : done.lookup other.1 with
      | none => rfl
      | some first =>
        rw [hjoins.agrees first hfirst]
        rfl
    · rw [List.append_cons]
      exact ih hplaced hrest other hother

/-! ## Vertices without a segment -/

/-- The number of vertices without a row among the first ones. -/
def lone (rows : List (Nat × Nat)) (vertex : Nat) : Nat :=
  (List.range vertex).countP fun v => (rows.lookup v).isNone

/-- The subset of a vertex: its segment, or the next number behind the segments. -/
def placement (segments : VertexSet) (rows : List (Nat × Nat)) (vertex : Nat) : Nat :=
  (rows.lookup vertex).getD (segments.size + lone rows vertex)

/-- One vertex more is one more without a row, or not. -/
theorem lone_succ (rows : List (Nat × Nat)) (vertex : Nat) :
    lone rows (vertex + 1) = lone rows vertex + (rows.lookup vertex).isNone.toNat := by
  rw [lone, List.range_succ, List.countP_append, List.countP_singleton, ← lone]
  cases rows.lookup vertex <;> rfl

theorem lone_le (rows : List (Nat × Nat)) (vertex : Nat) : lone rows vertex ≤ vertex := by
  have hcount := List.countP_le_length (l := List.range vertex)
    (p := fun v => (rows.lookup v).isNone)
  rwa [List.length_range] at hcount

/-- Vertices without a row get larger and larger numbers. -/
theorem lone_lt_lone {v w : Nat} (hrow : rows.lookup v = none) (hlt : v < w) :
    lone rows v < lone rows w := by
  have hnext : lone rows (v + 1) = lone rows v + 1 := by
    rw [lone_succ, hrow]
    rfl
  have hmono : lone rows (v + 1) ≤ lone rows w := (List.range_sublist.2 hlt).countP_le
  omega

/-- So each of them has a number of its own. -/
theorem lone_inj {v w : Nat} (hv : rows.lookup v = none) (hw : rows.lookup w = none) :
    lone rows v = lone rows w ↔ v = w := by
  refine ⟨fun hsame => ?_, fun hsame => congrArg (lone rows) hsame⟩
  rcases Nat.lt_trichotomy v w with hlt | heq | hlt
  · exact absurd hsame (Nat.ne_of_lt (lone_lt_lone hv hlt))
  · exact heq
  · exact absurd hsame.symm (Nat.ne_of_lt (lone_lt_lone hw hlt))

/-- Two vertices are in one subset only if they are the same or in one segment.
Segments have numbers below how many there are, and single vertices those
behind. -/
theorem Unambiguous.placement_eq_iff (h : Unambiguous vertices segments rows) {v w : Nat} :
    placement segments rows v = placement segments rows w ↔
      v = w ∨ ∃ segment, rows.lookup v = some segment ∧ rows.lookup w = some segment := by
  by_cases hsame : v = w
  · rw [hsame]
    exact iff_of_true rfl (Or.inl rfl)
  rw [placement, placement, or_iff_right hsame]
  -- the numbers of vertices without a row are behind the segments
  cases hv : rows.lookup v with
  | none =>
    cases hw : rows.lookup w with
    | none => simp [lone_inj hv hw, hsame]
    | some t =>
      have ht := h.segment_lt hw
      simp only [Option.getD_none, Option.getD_some, reduceCtorEq, false_and, exists_false, iff_false]
      omega
  | some s =>
    cases hw : rows.lookup w with
    | none =>
      have hs := h.segment_lt hv
      simp only [Option.getD_none, Option.getD_some, reduceCtorEq, and_false, exists_false, iff_false]
      omega
    | some t => simp [eq_comm]

/-- The first vertices are all placed, and of the others those with a row. The numbers of
single vertices start again at zero behind the largest index. -/
structure Counted (vertices segments : VertexSet) (rows : List (Nat × Nat)) (vertex : Nat)
    (state : Partition × Nat) : Prop where
  size_eq : state.1.size = vertices.size
  next_eq : state.2 = (segments.size + lone rows vertex) % Index.count
  subsetOf_eq : ∀ v, state.1.subsetOf v = (rows.lookup v).or
    (if v < vertex then some ((segments.size + lone rows v) % Index.count) else none)

/-- One vertex more: with a row it is where it was, and without one it gets the
number that the counter has come to, which then counts on by one, as far as
indexes go. -/
theorem isolate_counted {vertex : Nat} (hvertex : vertex < vertices.size)
    {state : Partition × Nat} (h : Counted vertices segments rows vertex state) :
    ∃ after, isolate state vertex = .ok after ∧
      Counted vertices segments rows (vertex + 1) after := by
  obtain ⟨p, next⟩ := state
  obtain rfl : next = (segments.size + lone rows vertex) % Index.count := h.next_eq
  have hsubset : p.subsetOf vertex = rows.lookup vertex := by
    rw [show p.subsetOf vertex = _ from h.subsetOf_eq vertex, if_neg (Nat.lt_irrefl _),
      Option.or_none]
  unfold isolate
  cases hrow : rows.lookup vertex with
  | some segment =>
    -- nothing is done, and nothing has to be
    simp only [hsubset, hrow]
    refine ⟨_, rfl, h.size_eq, ?_, fun v => ?_⟩
    · rw [lone_succ, hrow]
      rfl
    · rw [show p.subsetOf v = _ from h.subsetOf_eq v]
      rcases Nat.lt_trichotomy v vertex with hlt | rfl | hlt
      · rw [if_pos hlt, if_pos (by omega)]
      · rw [hrow]
        rfl
      · rw [if_neg (by omega), if_neg (by omega)]
  | none =>
    have hsize : p.size = vertices.size := h.size_eq
    obtain ⟨q, hq⟩ : ∃ q, p.assign vertex ((segments.size + lone rows vertex) % Index.count) =
        .ok q := ⟨_, Partition.assign_eq_ok_iff.2 ⟨by rwa [hsize], rfl⟩⟩
    simp only [hsubset, hrow, hq]
    refine ⟨_, rfl, (Partition.size_of_assign hq).trans hsize, ?_, fun v => ?_⟩
    · show Index.wrapNext _ = _
      rw [Index.wrapNext_mod, lone_succ, hrow]
      rfl
    · rw [show q.subsetOf v = _ from Partition.subsetOf_of_assign hq v,
        show p.subsetOf v = _ from h.subsetOf_eq v]
      rcases Nat.lt_trichotomy v vertex with hlt | rfl | hlt
      · rw [if_neg (by omega), if_pos hlt, if_pos (by omega)]
      · rw [if_pos rfl, hrow, if_pos (Nat.lt_succ_self v)]
        rfl
      · rw [if_neg (by omega), if_neg (by omega), if_neg (by omega)]

/-- All vertices, one after the other. Nothing is said yet about whether the
counter has started again on the way, so the numbers are reduced by how many
indexes there are. -/
theorem foldlM_isolate_counted (hsegments : segments.size ≤ Index.top)
    (hp : Placed vertices rows p) {vertex : Nat} (hvertex : vertex ≤ vertices.size) :
    ∃ after, (List.range vertex).foldlM isolate (p, segments.size) = .ok after ∧
      Counted vertices segments rows vertex after := by
  -- vertex by vertex; the next free number counts those that were left alone so far
  induction vertex with
  | zero =>
    refine ⟨_, rfl, hp.bounded.size_eq, ?_, fun v => ?_⟩
    · exact (Nat.mod_eq_of_lt (Index.lt_count_of_le_top hsegments)).symm
    · rw [if_neg (Nat.not_lt_zero v), Option.or_none]
      exact hp.subsetOf_eq v
  | succ vertex ih =>
    obtain ⟨mid, hmid, hcounted⟩ := ih (Nat.le_of_succ_le hvertex)
    obtain ⟨after, hafter, hlast⟩ := isolate_counted hvertex hcounted
    refine ⟨after, ?_, hlast⟩
    rw [List.range_succ, List.foldlM_append, hmid]
    show (isolate mid vertex >>= pure) = _
    rw [hafter]
    rfl

/-- The first vertices are all placed, and the numbers have not run out. -/
structure Settled (vertices segments : VertexSet) (rows : List (Nat × Nat)) (vertex : Nat)
    (state : Partition × Nat) : Prop where
  bounded : state.1.Bounded vertices.size
  next_eq : state.2 = segments.size + lone rows vertex
  subsetOf_eq : ∀ v, state.1.subsetOf v =
    (rows.lookup v).or (if v < vertex then some (placement segments rows v) else none)

/-- There are numbers enough, since there are for all vertices. So the counter
has not started again, and what it says is how many vertices were without a
row. -/
theorem foldlM_isolate_settled (hsize : segments.size + vertices.size ≤ Index.top)
    (hp : Placed vertices rows p) {vertex : Nat} (hvertex : vertex ≤ vertices.size) :
    ∃ after, (List.range vertex).foldlM isolate (p, segments.size) = .ok after ∧
      Settled vertices segments rows vertex after := by
  have hsegments : segments.size ≤ Index.top := by omega
  obtain ⟨after, hafter, hcounted⟩ := foldlM_isolate_counted hsegments hp hvertex
  have hisolated := ends_foldlM_isolate hsize hp.bounded hvertex
  rw [hafter] at hisolated
  -- nothing is reduced when all the numbers fit
  have hmod : ∀ v ≤ vertices.size,
      (segments.size + lone rows v) % Index.count = segments.size + lone rows v := by
    intro v hv
    have hlone := lone_le rows v
    exact Nat.mod_eq_of_lt (Index.lt_count_of_le_top (by omega))
  refine ⟨after, hafter, hisolated.bounded, ?_, fun v => ?_⟩
  · rw [hcounted.next_eq, hmod vertex hvertex]
  · rw [hcounted.subsetOf_eq, placement]
    cases rows.lookup v with
    | some segment => rfl
    | none =>
      refine congrArg (Option.or none) (ite_congr rfl (fun hv => ?_) fun _ => rfl)
      rw [hmod v (by omega)]
      rfl

/-! ## Partitions -/

variable {belongsTo belongsTo' : EdgeBundle}

/-- **What memberships make.** Unambiguous memberships make a partition, in
which every vertex is in its segment or alone. It covers all vertices, so the
measures take it for a graph with as many nodes. -/
theorem subsetOf_toPartition (hsize : segments.size + vertices.size ≤ Index.top)
    (h : Unambiguous vertices segments belongsTo.rows.toList) :
    ∃ p, toPartition vertices segments belongsTo = .ok p ∧ p.Covers vertices.size ∧
      ∀ v < vertices.size, p.subsetOf v = some (placement segments belongsTo.rows.toList v) := by
  obtain ⟨q, hq, hplaced⟩ := addMemberships_eq_ok (by omega) placed_unassigned 0 h
  rw [List.nil_append] at hplaced
  obtain ⟨⟨p, next⟩, hp, hsettled⟩ := foldlM_isolate_settled hsize hplaced (Nat.le_refl _)
  have hsubsets : ∀ v < vertices.size,
      p.subsetOf v = some (placement segments belongsTo.rows.toList v) := by
    intro v hv
    rw [show p.subsetOf v = _ from hsettled.subsetOf_eq v, if_pos hv, placement]
    cases List.lookup v belongsTo.rows.toList <;> rfl
  refine ⟨p, ?_, ⟨hsettled.bounded, fun v hv => ?_⟩, hsubsets⟩
  · -- the rows first and the single vertices after them
    rw [toPartition, placeVertices, hq]
    show ((List.range vertices.size).foldlM isolate (q, segments.size) >>= _) = _
    rw [hp]
    rfl
  · rw [hsubsets v hv]
    rfl

/-- Only unambiguous memberships make a partition. -/
theorem unambiguous_of_toPartition (hsegments : segments.size ≤ Index.top)
    (h : toPartition vertices segments belongsTo = .ok p) :
    Unambiguous vertices segments belongsTo.rows.toList := by
  simp only [toPartition, placeVertices, bind_eq_ok_iff] at h
  obtain ⟨_, ⟨q, hq, -⟩, -⟩ := h
  exact unambiguous_of_addMemberships hsegments placed_unassigned hq

/-! ## Other names -/

/-- Memberships in another order, some of them repeated, with other names for the
segments. -/
structure Renamed (segments : VertexSet) (rows rows' : List (Nat × Nat)) (name : Nat → Nat) :
    Prop where
  bijOn : Set.BijOn name (Set.Iio segments.size) (Set.Iio segments.size)
  mem_iff : ∀ vertex segment, (vertex, segment) ∈ rows' ↔
    ∃ old, (vertex, old) ∈ rows ∧ segment = name old

variable {rows' : List (Nat × Nat)} {name : Nat → Nat}

/-- Memberships with other names are as unambiguous as they were, since no two
segments get the same name. -/
theorem Renamed.unambiguous (h : Renamed segments rows rows' name)
    (hrows : Unambiguous vertices segments rows) : Unambiguous vertices segments rows' := by
  rintro ⟨vertex, segment⟩ hrow
  obtain ⟨old, hold, rfl⟩ := (h.mem_iff vertex segment).1 hrow
  obtain ⟨hvertex, hsegment, hlookup⟩ := hrows _ hold
  refine ⟨hvertex, h.bijOn.mapsTo hsegment, ?_⟩
  -- the first row of the vertex is a row of it too, and all old ones are the same
  obtain ⟨first, hfirst⟩ := exists_lookup hrow
  obtain ⟨old', hold', rfl⟩ := (h.mem_iff vertex first).1 (mem_of_lookup hfirst)
  have hsame : some old = some old' := hlookup.symm.trans (hrows _ hold').2.2
  rw [hfirst, Option.some.inj hsame]

/-- The first row of a vertex has the new name of the segment that the first one
had. -/
theorem Renamed.lookup_eq (h : Renamed segments rows rows' name)
    (hrows : Unambiguous vertices segments rows) (vertex : Nat) :
    rows'.lookup vertex = (rows.lookup vertex).map name := by
  refine Option.ext fun segment => ?_
  rw [(h.unambiguous hrows).lookup_eq_some_iff, h.mem_iff, Option.map_eq_some_iff]
  constructor
  · rintro ⟨old, hold, rfl⟩
    exact ⟨old, hrows.lookup_eq_some_iff.2 hold, rfl⟩
  · rintro ⟨old, hold, rfl⟩
    exact ⟨old, hrows.lookup_eq_some_iff.1 hold, rfl⟩

/-- The same vertices are alone. -/
theorem Renamed.lone_eq (h : Renamed segments rows rows' name)
    (hrows : Unambiguous vertices segments rows) (vertex : Nat) :
    lone rows' vertex = lone rows vertex := by
  refine congrArg (List.countP · _) (funext fun v => ?_)
  rw [h.lookup_eq hrows, Option.isNone_map]

/-- When segments are renamed the same vertices are together as before.
Different segments get different names, and the numbers behind the segments are
as far apart as before. -/
theorem Renamed.placement_eq_iff (h : Renamed segments rows rows' name)
    (hrows : Unambiguous vertices segments rows) (v w : Nat) :
    placement segments rows' v = placement segments rows' w ↔
      placement segments rows v = placement segments rows w := by
  rw [(h.unambiguous hrows).placement_eq_iff, hrows.placement_eq_iff, h.lookup_eq hrows,
    h.lookup_eq hrows]
  refine or_congr_right ⟨?_, ?_⟩
  · rintro ⟨segment, hv, hw⟩
    obtain ⟨s, hs, rfl⟩ := Option.map_eq_some_iff.1 hv
    obtain ⟨t, ht, hname⟩ := Option.map_eq_some_iff.1 hw
    obtain rfl := h.bijOn.injOn (hrows.segment_lt ht) (hrows.segment_lt hs) hname
    exact ⟨t, hs, ht⟩
  · rintro ⟨segment, hv, hw⟩
    exact ⟨name segment, by rw [hv]; rfl, by rw [hw]; rfl⟩

/-- **Names, order and repetition do not matter**: the same vertices are put
together. -/
theorem toPartition_renamed (hsize : segments.size + vertices.size ≤ Index.top)
    (hp : toPartition vertices segments belongsTo = .ok p)
    (h : Renamed segments belongsTo.rows.toList belongsTo'.rows.toList name) :
    ∃ q, toPartition vertices segments belongsTo' = .ok q ∧ p.Covers vertices.size ∧
      q.Covers vertices.size ∧ p.Alike vertices.size q := by
  have hrows := unambiguous_of_toPartition (by omega) hp
  obtain ⟨_, hp', hcovers, hsubsets⟩ := subsetOf_toPartition hsize hrows
  obtain rfl := Except.ok.inj (hp.symm.trans hp')
  obtain ⟨q, hq, hqCovers, hqSubsets⟩ := subsetOf_toPartition hsize (h.unambiguous hrows)
  refine ⟨q, hq, hcovers, hqCovers, fun v hv w hw => ?_⟩
  rw [hsubsets v hv, hsubsets w hw, hqSubsets v hv, hqSubsets w hw, Option.some_inj,
    Option.some_inj]
  exact (h.placement_eq_iff hrows v w).symm

end GraphMeasures.Conversion
