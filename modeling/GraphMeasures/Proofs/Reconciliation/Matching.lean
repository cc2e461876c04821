import GraphMeasures.Proofs.Graph.Lookup
import GraphMeasures.Reconciliation

/-!
# GraphMeasures — rows and the edges they find

Reconciliation walks along the rows of a bundle that need not be the one a graph was
made of: rows may find no edge, and several may find the same. Before each row the
owners are exactly the earlier rows, each of the id it has found (`Matched`). So an
owner in the way is an earlier row with the same ends, and the only one of its kind
(`matchRow_cases`); the walk ends at the last row or at the first one that is at fault
(`matchRows_cases`).

* `Reconciles` — what the scores of a graph's edges come to on the rows of a bundle.
* `toAttribute_run` — every graph that can be reached reconciles so, with all bundles
  and all scores.
-/

namespace GraphMeasures.Reconciliation

open GraphMeasures.Graph

variable {directed : Bool} {g : Graph Float} {edges : EdgeBundle} {scores : Array Float}
variable {matching : Matching} {position first id : Nat} {row : Nat × Nat} {e : OperationError}

/-! ## Rows with the same ends -/

/-- Two rows have the same ends; the order of the ends does not matter when the
graph is undirected. -/
def SameEnds (directed : Bool) (edges : EdgeBundle) (i j : Nat) : Prop :=
  ∃ a b, edges.rows[i]? = some a ∧ edges.rows[j]? = some b ∧
    (a = b ∨ directed = false ∧ a = b.swap)

/-- Having the same ends does not depend on which of the two rows is named
first: two pairs are equal or swapped whichever way they are read. -/
theorem SameEnds.symm {i j : Nat} : SameEnds directed edges i j → SameEnds directed edges j i := by
  rintro ⟨a, b, ha, hb, hsame⟩
  exact ⟨b, a, hb, ha, SamePair.symm hsame⟩

/-- The row in the middle is the same in both, so the two agreements of the ends
can be put together; two swaps cancel. -/
theorem SameEnds.trans {i j k : Nat} :
    SameEnds directed edges i j → SameEnds directed edges j k → SameEnds directed edges i k := by
  rintro ⟨a, b, ha, hb, hab⟩ ⟨b', c, hb', hc, hbc⟩
  obtain rfl := Option.some.inj (hb.symm.trans hb')
  exact ⟨a, c, ha, hc, SamePair.trans hab hbc⟩

/-- Only rows of the bundle have ends, so a row that has the same ends as
another is one of the bundle. -/
theorem SameEnds.lt_size {i j : Nat} : SameEnds directed edges i j → j < edges.size := by
  rintro ⟨-, b, -, hb, -⟩
  exact (Array.getElem?_eq_some_iff.1 hb).1

/-! ## What a row finds -/

/-- The row at a position finds the edge with an id. -/
def Finds (g : Graph Float) (edges : EdgeBundle) (position id : Nat) : Prop :=
  ∃ row, edges.rows[position]? = some row ∧ g.edgeId row.1 row.2 = .ok id

/-- A row finds at most one edge, since a position holds one row and the lookup
of its ends gives one answer. -/
theorem Finds.inj {id' : Nat} : Finds g edges position id → Finds g edges position id' → id = id' := by
  rintro ⟨row, hrow, hid⟩ ⟨row', hrow', hid'⟩
  obtain rfl := Option.some.inj (hrow.symm.trans hrow')
  exact Except.ok.inj (hid.symm.trans hid')

/-- Rows with the same ends find the same edge. The lookup sees the ends of a
row only, and in an undirected graph it does not see their order. -/
theorem Finds.of_sameEnds (hg : g.Resolves) {i j : Nat} (hfinds : Finds g edges j id) :
    SameEnds g.directed edges i j → Finds g edges i id := by
  rintro ⟨a, b, ha, hb, hsame⟩
  obtain ⟨row, hrow, hid⟩ := hfinds
  obtain rfl := Option.some.inj (hb.symm.trans hrow)
  exact ⟨a, ha, (hg.congr hsame).2 hid⟩

/-- Rows that find the same edge have the same ends, because an id belongs to
one edge and the ends of both rows are the ends of that edge. -/
theorem Finds.sameEnds (hg : g.Resolves) {i j : Nat} :
    Finds g edges i id → Finds g edges j id → SameEnds g.directed edges i j := by
  rintro ⟨a, ha, hid⟩ ⟨b, hb, hid'⟩
  exact ⟨a, b, ha, hb, (hg.samePair _ _ _ _ _ _ hid hid').1 rfl⟩

/-- A row finds an edge, and no earlier row has the same ends. -/
structure InOrder (g : Graph Float) (edges : EdgeBundle) (position : Nat) : Prop where
  found : ∃ id, Finds g edges position id
  new : ∀ i < position, ¬ SameEnds g.directed edges i position

/-- What is wrong with a row: the lookup of its ends fails, or there is one earlier row
with the same ends. -/
inductive Fault (g : Graph Float) (edges : EdgeBundle) (position : Nat) : OperationError → Prop
  | lookup {row : Nat × Nat} {cause : EngineError} (hrow : edges.rows[position]? = some row)
      (hcause : g.edgeId row.1 row.2 = .error cause) : Fault g edges position (.engine cause)
  | repeated {row : Nat × Nat} {id first : Nat} (hrow : edges.rows[position]? = some row)
      (hid : g.edgeId row.1 row.2 = .ok id)
      (hfirst : ∀ i, i < position ∧ SameEnds g.directed edges i position ↔ i = first) :
      Fault g edges position (.ambiguousEdge first position row.1 row.2)

/-- A row at fault is not in order: where the lookup fails no id is found, and
where the ends are repeated there is an earlier row that has them too. -/
theorem Fault.not_inOrder (h : Fault g edges position e) : ¬ InOrder g edges position := by
  rintro ⟨⟨id, hfinds⟩, hnew⟩
  cases h with
  | lookup hrow hcause =>
    obtain ⟨row, hrow', hid⟩ := hfinds
    obtain rfl := Option.some.inj (hrow.symm.trans hrow')
    rw [hcause] at hid
    cases hid
  | repeated hrow hid hfirst =>
    obtain ⟨hlt, hsame⟩ := (hfirst _).2 rfl
    exact hnew _ hlt hsame

/-- Whatever is wrong with a row, the row is one of the bundle. -/
theorem Fault.lt_size (h : Fault g edges position e) : position < edges.size := by
  cases h with
  | lookup hrow _ => exact (Array.getElem?_eq_some_iff.1 hrow).1
  | repeated hrow _ _ => exact (Array.getElem?_eq_some_iff.1 hrow).1

/-- Only one thing can be wrong with a row. The lookup fails or succeeds, not
both; and of the earlier rows with the same ends there is one only, so a
repeated row names it. -/
theorem Fault.unique {e' : OperationError} (h : Fault g edges position e)
    (h' : Fault g edges position e') : e = e' := by
  cases h with
  | lookup hrow hcause =>
    cases h' with
    | lookup hrow' hcause' =>
      obtain rfl := Option.some.inj (hrow.symm.trans hrow')
      rw [Except.error.inj (hcause.symm.trans hcause')]
    | repeated hrow' hid' _ =>
      obtain rfl := Option.some.inj (hrow.symm.trans hrow')
      rw [hcause] at hid'
      cases hid'
  | repeated hrow hid hfirst =>
    cases h' with
    | lookup hrow' hcause' =>
      obtain rfl := Option.some.inj (hrow.symm.trans hrow')
      rw [hid] at hcause'
      cases hcause'
    | repeated hrow' _ hfirst' =>
      obtain rfl := Option.some.inj (hrow.symm.trans hrow')
      rw [(hfirst' _).1 ((hfirst _).2 rfl)]

/-- The first row that is at fault. -/
structure FirstFault (g : Graph Float) (edges : EdgeBundle) (position : Nat)
    (e : OperationError) : Prop where
  before : ∀ i < position, InOrder g edges i
  fault : Fault g edges position e

/-- A bundle has at most one first fault. Of two rows at fault the earlier one
stands before the other, where all rows are in order. -/
theorem FirstFault.unique {position' : Nat} {e' : OperationError}
    (h : FirstFault g edges position e) (h' : FirstFault g edges position' e') : e = e' := by
  rcases Nat.lt_trichotomy position position' with hlt | rfl | hlt
  · exact absurd (h'.before position hlt) h.fault.not_inOrder
  · exact h.fault.unique h'.fault
  · exact absurd (h.before position' hlt) h'.fault.not_inOrder

/-! ## Matching -/

/-- The rows before a position are in order and have got the scores of the edges they
have found; these edges are theirs, and no others are taken. -/
structure Matched (g : Graph Float) (edges : EdgeBundle) (scores : Array Float) (position : Nat)
    (matching : Matching) : Prop where
  inOrder : ∀ i < position, InOrder g edges i
  size_owners : matching.owners.size = g.edgeIdBound
  owner : ∀ id first, matching.owners[id]? = some (some first) ↔
    first < position ∧ Finds g edges first id
  size_values : matching.values.size = position
  value : ∀ i < position, ∀ id, Finds g edges i id → matching.values[i]? = scores[id]?

/-- Before the first row nobody owns an edge and there are no values, so nothing
has to be shown of earlier rows. -/
theorem matched_zero (g : Graph Float) (edges : EdgeBundle) (scores : Array Float) :
    Matched g edges scores 0 ⟨Array.replicate g.edgeIdBound none, #[]⟩ where
  inOrder := fun i hi => absurd hi (Nat.not_lt_zero i)
  size_owners := Array.size_replicate
  owner := by
    intro id first
    simp [Array.getElem?_replicate]
  size_values := rfl
  value := fun i hi => absurd hi (Nat.not_lt_zero i)

/-- One more row has found an edge that is free, and takes it with its score.
The row is in order because an earlier row with the same ends would own the
edge. All other edges keep their owners and all earlier rows their values. -/
theorem Matched.succ (hg : g.Resolves) {score : Float}
    (h : Matched g edges scores position matching) (hfinds : Finds g edges position id)
    (howner : matching.owners[id]? = some none) (hscore : scores[id]? = some score) :
    Matched g edges scores (position + 1)
      ⟨matching.owners.setIfInBounds id (some position), matching.values.push score⟩ where
  inOrder := by
    intro i hi
    rcases Nat.lt_or_eq_of_le (Nat.le_of_lt_succ hi) with hlt | rfl
    · exact h.inOrder i hlt
    · refine ⟨⟨id, hfinds⟩, fun j hj hsame => ?_⟩
      -- an earlier row with the same ends would own the edge
      have htaken := (h.owner id j).2 ⟨hj, hfinds.of_sameEnds hg hsame⟩
      rw [howner] at htaken
      cases htaken
  size_owners := by rw [Array.size_setIfInBounds, h.size_owners]
  owner := by
    intro id' first
    have hlt : id < matching.owners.size := (Array.getElem?_eq_some_iff.1 howner).1
    rw [Array.getElem?_setIfInBounds]
    by_cases hsame : id = id'
    · subst hsame
      rw [if_pos rfl, if_pos hlt]
      constructor
      · rintro ⟨⟩
        exact ⟨Nat.lt_succ_self position, hfinds⟩
      · rintro ⟨hfirst, hfound⟩
        rcases Nat.lt_or_eq_of_le (Nat.le_of_lt_succ hfirst) with hbefore | rfl
        · rw [(h.owner id first).2 ⟨hbefore, hfound⟩] at howner
          cases howner
        · rfl
    · rw [if_neg hsame, h.owner]
      constructor
      · rintro ⟨hfirst, hfound⟩
        exact ⟨Nat.lt_succ_of_lt hfirst, hfound⟩
      · rintro ⟨hfirst, hfound⟩
        rcases Nat.lt_or_eq_of_le (Nat.le_of_lt_succ hfirst) with hbefore | rfl
        · exact ⟨hbefore, hfound⟩
        · exact absurd (hfinds.inj hfound) hsame
  size_values := by rw [Array.size_push, h.size_values]
  value := by
    intro i hi id' hfound
    rw [Array.getElem?_push, h.size_values]
    by_cases hlast : i = position
    · subst hlast
      obtain rfl := hfinds.inj hfound
      rw [if_pos rfl, hscore]
    · rw [if_neg hlast]
      exact h.value i (by omega) id' hfound

/-- A row whose ends the lookup refuses is refused with the same cause. -/
theorem matchRow_missing {cause : EngineError} (hcause : g.edgeId row.1 row.2 = .error cause) :
    matchRow g scores matching position row = .error (.engine cause) := by
  rw [matchRow, hcause]
  rfl

/-- A row whose edge is owned already is refused, and the error names the row
that owns it, the row itself and the ends of the latter. -/
theorem matchRow_taken (hid : g.edgeId row.1 row.2 = .ok id)
    (howner : matching.owners[id]? = some (some first)) :
    matchRow g scores matching position row =
      .error (.ambiguousEdge first position row.1 row.2) := by
  rw [matchRow, hid]
  simp only [Except.mapError, bind, Except.bind, howner]
  rfl

/-- A row whose edge is free becomes its owner, and the score with the id of the
edge is added to the values. -/
theorem matchRow_free {score : Float} (hid : g.edgeId row.1 row.2 = .ok id)
    (howner : matching.owners[id]? = some none) (hscore : scores[id]? = some score) :
    matchRow g scores matching position row =
      .ok ⟨matching.owners.setIfInBounds id (some position), matching.values.push score⟩ := by
  rw [matchRow, hid]
  simp only [Except.mapError, bind, Except.bind, howner, hscore]
  rfl

/-- What is found has an owner's place and a score. Both arrays are as long as
the bound of the ids at least, so neither is read or written out of range. -/
theorem Matched.lt_size (hg : g.Resolves) (hscores : g.edgeIdBound ≤ scores.size)
    (h : Matched g edges scores position matching) (hid : g.edgeId row.1 row.2 = .ok id) :
    id < matching.owners.size ∧ id < scores.size := by
  have hlt := hg.lt_bound row.1 row.2 id hid
  exact ⟨h.size_owners ▸ hlt, Nat.lt_of_lt_of_le hlt hscores⟩

/-- A row gets the score of the edge it finds, or it is at fault. These are all
the ways that one step of the walk can end; the owner that stands in the way is
an earlier row with the same ends, and the only one, since any other would own
the edge as well. -/
theorem matchRow_cases (hg : g.Resolves) (hscores : g.edgeIdBound ≤ scores.size)
    (hrow : edges.rows[position]? = some row) (h : Matched g edges scores position matching) :
    (∃ e, Fault g edges position e ∧ matchRow g scores matching position row = .error e) ∨
    ∃ next, matchRow g scores matching position row = .ok next ∧
      Matched g edges scores (position + 1) next := by
  cases hid : g.edgeId row.1 row.2 with
  | error cause => exact Or.inl ⟨_, .lookup hrow hid, matchRow_missing hid⟩
  | ok id =>
    obtain ⟨howners, hlt⟩ := h.lt_size hg hscores hid
    have hfinds : Finds g edges position id := ⟨row, hrow, hid⟩
    have hscore := Array.getElem?_eq_getElem hlt
    cases howner : matching.owners[id] with
    | none =>
      have hfree : matching.owners[id]? = some none := by
        rw [Array.getElem?_eq_getElem howners, howner]
      exact Or.inr ⟨_, matchRow_free hid hfree hscore, h.succ hg hfinds hfree hscore⟩
    | some first =>
      have htaken : matching.owners[id]? = some (some first) := by
        rw [Array.getElem?_eq_getElem howners, howner]
      obtain ⟨hfirst, hfound⟩ := (h.owner id first).1 htaken
      refine Or.inl ⟨_, .repeated hrow hid fun i => ⟨?_, ?_⟩, matchRow_taken hid htaken⟩
      · -- every earlier row with these ends owns the edge, so there is one only
        rintro ⟨hi, hsame⟩
        have hi := (h.owner id i).2 ⟨hi, hfinds.of_sameEnds hg hsame⟩
        exact Option.some.inj (Option.some.inj (hi.symm.trans htaken))
      · rintro rfl
        exact ⟨hfirst, hfound.sameEnds hg hfinds⟩

/-- The walk along some rows ends at the first of them that is at fault, or all
of them have been matched. Whatever has been matched before the first of the
rows is the invariant that one step preserves and the walk keeps. -/
theorem matchRows_cases (hg : g.Resolves) (hscores : g.edgeIdBound ≤ scores.size)
    {rows : List (Nat × Nat)}
    (hrows : ∀ j row, rows[j]? = some row → edges.rows[position + j]? = some row)
    (h : Matched g edges scores position matching) :
    (∃ i e, FirstFault g edges i e ∧ matchRows g scores matching position rows = .error e) ∨
    ∃ done, matchRows g scores matching position rows = .ok done ∧
      Matched g edges scores (position + rows.length) done := by
  -- along the rows; what has been matched before is the invariant
  induction rows generalizing position matching with
  | nil => exact Or.inr ⟨matching, rfl, h⟩
  | cons row rows ih =>
    have hrow : edges.rows[position]? = some row := hrows 0 row rfl
    rcases matchRow_cases hg hscores hrow h with ⟨e, hfault, herror⟩ |
      ⟨next, hnext, hmatched⟩
    · refine Or.inl ⟨position, e, ⟨h.inOrder, hfault⟩, ?_⟩
      rw [matchRows, herror]
      rfl
    · have hrest : ∀ j row, rows[j]? = some row → edges.rows[position + 1 + j]? = some row := by
        intro j other hother
        rw [Nat.add_right_comm]
        exact hrows (j + 1) other hother
      rw [matchRows, hnext, List.length_cons, Nat.add_comm rows.length 1, ← Nat.add_assoc]
      exact ih hrest hmatched

/-! ## The attribute -/

/-- With an index and enough scores the two guards let the call pass, and the
attribute is that of the values that the walk from the first row gathers. -/
theorem toAttribute_eq (hids : g.hasEdgeIds = true) (hscores : g.edgeIdBound ≤ scores.size) :
    toAttribute g edges scores =
      matchRows g scores ⟨Array.replicate g.edgeIdBound none, #[]⟩ 0 edges.rows.toList >>=
        fun matching => .ok (.ofValues matching.values) := by
  obtain ⟨index, hindex⟩ := Option.isSome_iff_exists.1 hids
  have hbound : g.edgeIdBound = index.bound := by rw [edgeIdBound, hindex, Option.elim_some]
  rw [hbound] at hscores ⊢
  rw [toAttribute, requireIndex, hindex]
  simp only [Except.mapError, bind, Except.bind, Nat.not_lt.2 hscores, if_false]
  rfl

/-- The first row at fault is named, or there is none and all rows have got the
scores of the edges they find. The two ends exclude each other, since a row at
fault is not in order, and one of them always comes about. -/
theorem toAttribute_outcome (hg : g.Resolves) (hids : g.hasEdgeIds = true)
    (edges : EdgeBundle) (hscores : g.edgeIdBound ≤ scores.size) :
    (∃ i e, FirstFault g edges i e ∧ toAttribute g edges scores = .error e) ∨
    ((∀ i < edges.size, InOrder g edges i) ∧ ∃ values : Array Float, values.size = edges.size ∧
      (∀ i < edges.size, ∀ id, Finds g edges i id → values[i]? = scores[id]?) ∧
      toAttribute g edges scores = .ok (.ofValues values)) := by
  have hrows : ∀ j row, edges.rows.toList[j]? = some row → edges.rows[0 + j]? = some row := by
    intro j row hrow
    rwa [Nat.zero_add, ← Array.getElem?_toList]
  rw [toAttribute_eq hids hscores]
  rcases matchRows_cases hg hscores hrows (matched_zero g edges scores) with
    ⟨i, e, hfault, herror⟩ | ⟨done, hdone, hmatched⟩
  · refine Or.inl ⟨i, e, hfault, ?_⟩
    rw [herror]
    rfl
  · rw [Nat.zero_add, Array.length_toList] at hmatched
    refine Or.inr ⟨hmatched.inOrder, done.values, hmatched.size_values, hmatched.value, ?_⟩
    rw [hdone]
    rfl

/-- Without edge ids nothing can be reconciled, however many scores there are
and whatever the rows of the bundle are. -/
theorem toAttribute_of_not_hasEdgeIds (hids : g.hasEdgeIds = false) :
    toAttribute g edges scores = .error (.engine .edgesNotIndexed) := by
  have hindex : g.index = none := Option.isNone_iff_eq_none.1 (by
    rw [hasEdgeIds] at hids
    rw [← Option.not_isSome, hids, Bool.not_false])
  rw [toAttribute, requireIndex, hindex]
  rfl

/-- With fewer scores than ids the call ends before it looks at a row, and the
error has both numbers. -/
theorem toAttribute_of_lt (hids : g.hasEdgeIds = true) (hscores : scores.size < g.edgeIdBound) :
    toAttribute g edges scores = .error (.scoreLength scores.size g.edgeIdBound) := by
  obtain ⟨index, hindex⟩ := Option.isSome_iff_exists.1 hids
  have hbound : g.edgeIdBound = index.bound := by rw [edgeIdBound, hindex, Option.elim_some]
  rw [hbound] at hscores ⊢
  rw [toAttribute, requireIndex, hindex]
  simp only [Except.mapError, bind, Except.bind, hscores, if_true]
  rfl

/-- All rows are in order when every one joins an edge and no two have the same
ends. The left side speaks of lookups, the right one of the edges and the rows
alone. -/
theorem forall_inOrder_iff (hg : g.Resolves) :
    (∀ i < edges.size, InOrder g edges i) ↔
      (∀ row ∈ edges.rows, ∃ e ∈ g.edges, SamePair g.directed (e.source, e.target) row) ∧
        ∀ i j, i < j → ¬ SameEnds g.directed edges i j := by
  constructor
  · intro h
    refine ⟨fun row hrow => ?_, fun i j hij hsame => (h j hsame.lt_size).new i hij hsame⟩
    obtain ⟨i, hi⟩ := Array.mem_iff_getElem?.1 hrow
    obtain ⟨id, row', hrow', hid⟩ := (h i (Array.getElem?_eq_some_iff.1 hi).1).found
    obtain rfl := Option.some.inj (hi.symm.trans hrow')
    -- the id that is found belongs to an edge with these ends
    obtain ⟨e, he, hends, -⟩ := ((hg.least _ _ id).1 hid).1
    exact ⟨e, he, hends⟩
  · rintro ⟨hjoins, hdistinct⟩ i hi
    have hrow : edges.rows[i]? = some edges.rows[i] := Array.getElem?_eq_getElem hi
    obtain ⟨e, he, hends⟩ := hjoins _ (Array.mem_of_getElem? hrow)
    obtain ⟨id, hid⟩ := hg.found _ _ e he hends
    exact ⟨⟨id, _, hrow, hid⟩, fun j hj => hdistinct j i hj⟩

theorem not_firstFault (h : ∀ i < edges.size, InOrder g edges i) :
    ¬ FirstFault g edges position e :=
  fun hfault => hfault.fault.not_inOrder (h position hfault.fault.lt_size)

/-- Scores with ids that no edge has make no difference: every row reads the
score with the id it has found, which is below the bound, and the faults of rows
do not depend on scores at all. -/
theorem toAttribute_congr (hg : g.Resolves) (hids : g.hasEdgeIds = true) {other : Array Float}
    (hscores : g.edgeIdBound ≤ scores.size) (hother : g.edgeIdBound ≤ other.size)
    (hsame : ∀ id < g.edgeIdBound, other[id]? = scores[id]?) :
    toAttribute g edges other = toAttribute g edges scores := by
  rcases toAttribute_outcome hg hids edges hscores with ⟨i, e, hfault, herror⟩ |
    ⟨hinOrder, values, hsize, hvalues, hok⟩ <;>
  rcases toAttribute_outcome hg hids edges hother with ⟨i', e', hfault', herror'⟩ |
    ⟨hinOrder', values', hsize', hvalues', hok'⟩
  · rw [herror, herror', hfault.unique hfault']
  · exact absurd hfault (not_firstFault hinOrder')
  · exact absurd hfault' (not_firstFault hinOrder)
  · -- every row has found an id, and both know the score with this id
    have heq : values' = values := by
      refine Array.ext_getElem? fun i => ?_
      by_cases hi : i < edges.size
      · obtain ⟨id, row, hrow, hid⟩ := (hinOrder i hi).found
        rw [hvalues i hi id ⟨row, hrow, hid⟩, hvalues' i hi id ⟨row, hrow, hid⟩]
        exact hsame id (hg.lt_bound _ _ id hid)
      · rw [Array.getElem?_eq_none (hsize.trans_le (Nat.not_lt.1 hi)),
          Array.getElem?_eq_none (hsize'.trans_le (Nat.not_lt.1 hi))]
    rw [hok, hok', heq]

/-- What has been matched when a row is reached. The walk has passed all earlier
rows without an error, so they are in order and own the edges that they have
found. -/
theorem matched_of_take (hg : g.Resolves) (hscores : g.edgeIdBound ≤ scores.size)
    (hrow : edges.rows[position]? = some row)
    (hmatching : matchRows g scores ⟨Array.replicate g.edgeIdBound none, #[]⟩ 0
      (edges.rows.toList.take position) = .ok matching) :
    Matched g edges scores position matching := by
  have hrows : ∀ j row, (edges.rows.toList.take position)[j]? = some row →
      edges.rows[0 + j]? = some row := by
    intro j row hj
    rw [List.getElem?_take] at hj
    split at hj
    · rwa [Nat.zero_add, ← Array.getElem?_toList]
    · cases hj
  have hlength : (edges.rows.toList.take position).length = position :=
    List.length_take_of_le (Array.getElem?_eq_some_iff.1 hrow).1.le
  rcases matchRows_cases hg hscores hrows (matched_zero g edges scores) with
    ⟨i, e, -, herror⟩ | ⟨done, hdone, hmatched⟩
  · rw [hmatching] at herror
    cases herror
  · rw [Nat.zero_add, hlength] at hmatched
    obtain rfl := Except.ok.inj (hmatching.symm.trans hdone)
    exact hmatched

/-- No row is refused for the number of scores. There is an error with that text
before the walk only; the walk would repeat it where an id had no score, and
there is none. -/
theorem matchRow_ne_scoreLength (hg : g.Resolves) (hscores : g.edgeIdBound ≤ scores.size)
    (hrow : edges.rows[position]? = some row) (h : Matched g edges scores position matching)
    (available bound : Nat) :
    matchRow g scores matching position row ≠ .error (.scoreLength available bound) := by
  intro hrefused
  rcases matchRow_cases hg hscores hrow h with ⟨e, hfault, herror⟩ | ⟨next, hnext, -⟩
  · obtain rfl := Except.error.inj (herror.symm.trans hrefused)
    cases hfault
  · rw [hnext] at hrefused
    cases hrefused

/-! ## What reconciliation comes to -/

/-- At every row that is reached, an id that is found has an owner's place and a score,
and no row is refused for the number of scores. -/
def InRange (g : Graph Float) (edges : EdgeBundle) (scores : Array Float) : Prop :=
  ∀ (i : Nat) (row : Nat × Nat) (matching : Matching), edges.rows[i]? = some row →
    matchRows g scores ⟨Array.replicate g.edgeIdBound none, #[]⟩ 0 (edges.rows.toList.take i) =
      .ok matching →
    (∀ id, g.edgeId row.1 row.2 = .ok id → id < matching.owners.size ∧ id < scores.size) ∧
      ∀ available bound, matchRow g scores matching i row ≠ .error (.scoreLength available bound)

/-- What the scores of a graph's edges come to on the rows of a bundle. -/
structure Reconciles (g : Graph Float) (edges : EdgeBundle) (scores : Array Float) : Prop where
  ok_iff : (∃ a, toAttribute g edges scores = .ok a) ↔
    g.hasEdgeIds = true ∧ g.edgeIdBound ≤ scores.size ∧
      (∀ row ∈ edges.rows, ∃ e ∈ g.edges, SamePair g.directed (e.source, e.target) row) ∧
      ∀ i j, i < j → ¬ SameEnds g.directed edges i j
  size : ∀ a, toAttribute g edges scores = .ok a → a.size = edges.size
  /-- Every row has the score of the edge that its ends find, undefined where it is NaN. -/
  entry : ∀ a, toAttribute g edges scores = .ok a → ∀ (i : Nat) row, edges.rows[i]? = some row →
    ∃ id score, g.edgeId row.1 row.2 = .ok id ∧ scores[id]? = some score ∧
      a.entries[i]? = some (score, !score.isNaN)
  /-- Only scores with ids below the bound matter. -/
  beyond : ∀ other : Array Float, g.edgeIdBound ≤ scores.size → g.edgeIdBound ≤ other.size →
    (∀ id < g.edgeIdBound, other[id]? = scores[id]?) →
    toAttribute g edges other = toAttribute g edges scores
  error_iff : ∀ e, toAttribute g edges scores = .error e ↔
    if g.hasEdgeIds = false then e = .engine .edgesNotIndexed
    else if scores.size < g.edgeIdBound then e = .scoreLength scores.size g.edgeIdBound
    else ∃ i, FirstFault g edges i e
  inRange : g.hasEdgeIds = true → g.edgeIdBound ≤ scores.size → InRange g edges scores

/-- Without edge ids there is one error for every bundle and all scores, which
settles all parts of `Reconciles` at once. -/
theorem reconciles_of_not_hasEdgeIds (hids : g.hasEdgeIds = false) (edges : EdgeBundle)
    (scores : Array Float) : Reconciles g edges scores := by
  have herror : ∀ scores, toAttribute g edges scores = .error (.engine .edgesNotIndexed) :=
    fun _ => toAttribute_of_not_hasEdgeIds hids
  constructor <;> simp [herror, hids, eq_comm]

/-- With an index but too few scores there is one error for every bundle, the
one with both numbers. -/
theorem reconciles_of_lt (hids : g.hasEdgeIds = true) (edges : EdgeBundle)
    (hscores : scores.size < g.edgeIdBound) : Reconciles g edges scores := by
  have herror : toAttribute g edges scores = .error (.scoreLength scores.size g.edgeIdBound) :=
    toAttribute_of_lt hids hscores
  have hfew : ¬ g.edgeIdBound ≤ scores.size := Nat.not_le.2 hscores
  constructor <;> simp [herror, hids, hscores, hfew, eq_comm]

/-- With an index and enough scores, the first row at fault decides: it is the
error, and there is no error without one. -/
theorem toAttribute_eq_error_iff (hg : g.Resolves) (hids : g.hasEdgeIds = true)
    (hscores : g.edgeIdBound ≤ scores.size) :
    toAttribute g edges scores = .error e ↔ ∃ i, FirstFault g edges i e := by
  rcases toAttribute_outcome hg hids edges hscores with ⟨i, cause, hfault, herror⟩ |
    ⟨hinOrder, values, -, -, hok⟩
  · rw [herror, Except.error.injEq]
    exact ⟨fun he => ⟨i, he ▸ hfault⟩, fun ⟨_, he⟩ => hfault.unique he⟩
  · rw [hok]
    exact ⟨fun he => absurd he (by simp), fun ⟨_, hfault⟩ => absurd hfault (not_firstFault hinOrder)⟩

/-- With an index and enough scores there is an attribute exactly if all rows
are in order. -/
theorem exists_toAttribute_iff (hg : g.Resolves) (hids : g.hasEdgeIds = true)
    (hscores : g.edgeIdBound ≤ scores.size) :
    (∃ a, toAttribute g edges scores = .ok a) ↔ ∀ i < edges.size, InOrder g edges i := by
  rcases toAttribute_outcome hg hids edges hscores with ⟨i, cause, hfault, herror⟩ |
    ⟨hinOrder, values, -, -, hok⟩
  · rw [herror]
    exact ⟨fun ⟨_, ha⟩ => absurd ha (by simp), fun hall => absurd hfault (not_firstFault hall)⟩
  · exact ⟨fun _ => hinOrder, fun _ => ⟨_, hok⟩⟩

/-- Every row has the score of the edge that its ends find, and the entry is
undefined where that score is not a number. There are as many entries as
rows. -/
theorem entry_toAttribute (hg : g.Resolves) (hids : g.hasEdgeIds = true)
    (hscores : g.edgeIdBound ≤ scores.size) {a : Attribute}
    (ha : toAttribute g edges scores = .ok a) :
    a.size = edges.size ∧ ∀ (i : Nat) row, edges.rows[i]? = some row →
      ∃ id score, g.edgeId row.1 row.2 = .ok id ∧ scores[id]? = some score ∧
        a.entries[i]? = some (score, !score.isNaN) := by
  rcases toAttribute_outcome hg hids edges hscores with ⟨i, cause, hfault, herror⟩ |
    ⟨hinOrder, values, hsize, hvalues, hok⟩
  · rw [herror] at ha
    cases ha
  obtain rfl := Except.ok.inj (hok.symm.trans ha)
  refine ⟨?_, fun i row hrow => ?_⟩
  · rw [Attribute.size_ofValues, hsize]
  · have hi : i < edges.size := (Array.getElem?_eq_some_iff.1 hrow).1
    obtain ⟨id, row', hrow', hid⟩ := (hinOrder i hi).found
    obtain rfl := Option.some.inj (hrow.symm.trans hrow')
    have hlt : id < scores.size := Nat.lt_of_lt_of_le (hg.lt_bound _ _ id hid) hscores
    have hscore := Array.getElem?_eq_getElem hlt
    refine ⟨id, _, hid, hscore, ?_⟩
    rw [Attribute.getElem?_ofValues, hvalues i hi id ⟨row, hrow, hid⟩, hscore, Option.map_some]

/-- With an index and enough scores, the walk decides. The parts of `Reconciles`
are the lemmas above, the guards having passed. -/
theorem reconciles_of_le (hg : g.Resolves) (hids : g.hasEdgeIds = true) (edges : EdgeBundle)
    (hscores : g.edgeIdBound ≤ scores.size) : Reconciles g edges scores where
  ok_iff := by
    rw [exists_toAttribute_iff hg hids hscores, forall_inOrder_iff hg]
    exact ⟨fun hrows => ⟨hids, hscores, hrows⟩, fun h => h.2.2⟩
  size := fun a ha => (entry_toAttribute hg hids hscores ha).1
  entry := fun a ha => (entry_toAttribute hg hids hscores ha).2
  beyond := fun other _ hother hsame => toAttribute_congr hg hids hscores hother hsame
  error_iff := by
    intro e
    rw [if_neg (by simp [hids]), if_neg (Nat.not_lt.2 hscores)]
    exact toAttribute_eq_error_iff hg hids hscores
  inRange := by
    intro _ _ i row matching hrow hmatching
    have hmatched := matched_of_take hg hscores hrow hmatching
    exact ⟨fun id hid => hmatched.lt_size hg hscores hid,
      matchRow_ne_scoreLength hg hscores hrow hmatched⟩

/-- **Reconciliation is exact.** On every graph that can be reached, with every
bundle and all scores, the rows get the scores of the edges that join their
ends, or the first of the things that can be wrong is named: no ids, too few
scores, or the first row whose ends no edge joins or that repeats an earlier
one. -/
theorem toAttribute_run (n : Nat) (weighted directed : Bool) (steps : List Step)
    (edges : EdgeBundle) (scores : Array Float) :
    Reconciles ((empty n weighted directed).run steps) edges scores := by
  cases hids : ((empty n weighted directed).run steps).hasEdgeIds with
  | false => exact reconciles_of_not_hasEdgeIds hids edges scores
  | true =>
    have hg := resolves_run hids
    rcases Nat.lt_or_ge scores.size ((empty n weighted directed).run steps).edgeIdBound with hlt | hle
    · exact reconciles_of_lt hids edges hlt
    · exact reconciles_of_le hg hids edges hle

end GraphMeasures.Reconciliation
