import GraphMeasures.Proofs.Conversion.Rows
import GraphMeasures.Proofs.Graph.Indexing

/-!
# GraphMeasures — bundles and their first fault

A row of a bundle is at fault for one reason (`RowFault`), or it is accepted as the
link that stands at its position (`EdgeBundle.links`). Before each row the graph holds
the links of the earlier rows, so what is still to come has no say, and the graph never
refuses what a row has passed.

* `Converts` — what comes of a bundle: the graph of its links, or the first fault.
* `toGraph_converts` — every bundle is converted so.
-/

namespace GraphMeasures

/-- The links that the rows of a bundle stand for, in order. Without weights every
link has the weight one. -/
def EdgeBundle.links (edges : EdgeBundle) (weights : Option Attribute) : List (Link Float) :=
  edges.rows.toList.zipIdx.map fun row =>
    { source := row.1.1
      target := row.1.2
      weight :=
        match weights with
        | none => 1
        | some column => column.values.getD row.2 0 }

namespace Conversion

variable {vertices : VertexSet} {edges : EdgeBundle} {weights : Option Attribute}
variable {directed : Bool} {g : Graph Float} {position : Nat} {row : Nat × Nat}
variable {e : ConversionError}

/-! ## One row -/

/-- What is wrong with a row: its source, else its target, else that its weight is not
defined, else that it is not finite. -/
inductive RowFault (vertices : VertexSet) (weights : Option Attribute) (position : Nat)
    (row : Nat × Nat) : ConversionError → Prop
  | source (hsource : vertices.size ≤ row.1) :
      RowFault vertices weights position row (.endpointOutOfRange position row.1 vertices.size)
  | target (hsource : row.1 < vertices.size) (htarget : vertices.size ≤ row.2) :
      RowFault vertices weights position row (.endpointOutOfRange position row.2 vertices.size)
  | undefined {column : Attribute} {weight : Float}
      (hends : row.1 < vertices.size ∧ row.2 < vertices.size) (hcolumn : weights = some column)
      (hentry : column.entries[position]? = some (weight, false)) :
      RowFault vertices weights position row (.undefinedWeight position)
  | nonFinite {column : Attribute} {weight : Float}
      (hends : row.1 < vertices.size ∧ row.2 < vertices.size) (hcolumn : weights = some column)
      (hentry : column.entries[position]? = some (weight, true))
      (hweight : weight.isFinite = false) :
      RowFault vertices weights position row (.nonFiniteWeight position weight)

/-- A row at fault is refused for it, whatever was added before. The checks come
in the order of the constructors, so that only the first thing that is wrong is
named. -/
theorem RowFault.addRow_eq (h : RowFault vertices weights position row e) (g : Graph Float) :
    addRow vertices weights g position row = .error e := by
  cases h with
  | source hsource =>
    rw [addRow, checkVertex_eq_error (Nat.not_lt.2 hsource)]
    rfl
  | target hsource htarget =>
    rw [addRow, checkVertex_eq_ok hsource, checkVertex_eq_error (Nat.not_lt.2 htarget)]
    rfl
  | undefined hends hcolumn hentry =>
    rw [addRow, checkVertex_eq_ok hends.1, checkVertex_eq_ok hends.2, hcolumn]
    simp only [rowWeight, Attribute.get?, hentry]
    rfl
  | nonFinite hends hcolumn hentry hweight =>
    rw [addRow, checkVertex_eq_ok hends.1, checkVertex_eq_ok hends.2, hcolumn]
    simp only [rowWeight, Attribute.get?, hentry, hweight]
    rfl

/-- Only one thing can be wrong with a row, since any graph refuses it for
that. -/
theorem RowFault.unique {e' : ConversionError} (h : RowFault vertices weights position row e)
    (h' : RowFault vertices weights position row e') : e = e' := by
  have hrefused := h.addRow_eq (.empty 0 false false)
  exact Except.error.inj (hrefused.symm.trans (h'.addRow_eq _))

/-- A weight is read from a column if its entry is there, is defined and is
finite; then it is the value of that entry, and there is no other way to get
one. -/
theorem rowWeight_some_eq_ok_iff {column : Attribute} {weight : Float} :
    rowWeight (some column) position = .ok weight ↔
      column.entries[position]? = some (weight, true) ∧ weight.isFinite = true := by
  simp only [rowWeight, Attribute.get?]
  -- only an entry that is there, is defined and is finite passes all the checks
  cases hentry : column.entries[position]? with
  | none => simp
  | some entry =>
    obtain ⟨value, defined⟩ := entry
    cases defined with
    | false => simp
    | true =>
      by_cases hfinite : value.isFinite = true
      · simp only [hfinite, if_true, Except.ok.injEq, Option.some.injEq, Prod.mk.injEq, and_true]
        exact ⟨fun h => ⟨h, h ▸ hfinite⟩, fun h => h.1⟩
      · simp only [hfinite, if_false, Bool.false_eq_true, Option.some.injEq, Prod.mk.injEq,
          and_true, reduceCtorEq, false_iff, not_and]
        exact fun h => h ▸ hfinite

/-- The link at a position has the ends of the row there, and its weight from
the column, or the weight one. -/
theorem getElem?_links (weights : Option Attribute) (hrow : edges.rows[position]? = some row) :
    ∃ l, (edges.links weights)[position]? = some l ∧ l.ends = row ∧
      (weights = none → l.weight = 1) ∧
      ∀ column, weights = some column → l.weight = column.values.getD position 0 := by
  have hzip : edges.rows.toList.zipIdx[position]? = some (row, position) := by
    rw [List.getElem?_zipIdx, Array.getElem?_toList, hrow]
    simp
  rw [EdgeBundle.links, List.getElem?_map, hzip]
  refine ⟨_, rfl, rfl, ?_, ?_⟩
  · rintro rfl
    rfl
  · rintro column rfl
    rfl

/-- A row is at fault, or it is accepted as its link. The cases are the checks
in their order: the two ends, and then the weight. Its link is the one with the
same position among those of the bundle. -/
theorem rowFault_or_accepts
    (hcolumn : ∀ column, weights = some column → column.size = edges.size)
    (hrow : edges.rows[position]? = some row) :
    (∃ e, RowFault vertices weights position row e) ∨
      ∃ l, (edges.links weights)[position]? = some l ∧ Accepts vertices weights (row, position) l := by
  rcases Nat.lt_or_ge row.1 vertices.size with hsource | hsource
  · rcases Nat.lt_or_ge row.2 vertices.size with htarget | htarget
    · obtain ⟨l, hl, rfl, hnone, hsome⟩ := getElem?_links weights hrow
      cases weights with
      | none => exact Or.inr ⟨l, hl, rfl, hsource, htarget, (congrArg Except.ok (hnone rfl)).symm⟩
      | some column =>
        -- there is an entry, since there is one for every row
        have hlt : position < column.entries.size :=
          lt_of_lt_of_eq (Array.getElem?_eq_some_iff.1 hrow).1 (hcolumn column rfl).symm
        obtain ⟨⟨weight, defined⟩, hentry⟩ : ∃ entry, column.entries[position]? = some entry :=
          ⟨_, Array.getElem?_eq_getElem hlt⟩
        have hweight : l.weight = weight := by
          rw [hsome column rfl, Attribute.values, Array.getD_eq_getD_getElem?, Array.getElem?_map, hentry]
          rfl
        cases defined with
        | false => exact Or.inl ⟨_, .undefined ⟨hsource, htarget⟩ rfl hentry⟩
        | true =>
          cases hfinite : weight.isFinite with
          | false => exact Or.inl ⟨_, .nonFinite ⟨hsource, htarget⟩ rfl hentry hfinite⟩
          | true =>
            refine Or.inr ⟨l, hl, rfl, hsource, htarget, ?_⟩
            rw [hweight]
            exact rowWeight_some_eq_ok_iff.2 ⟨hentry, hfinite⟩
    · exact Or.inl ⟨_, .target hsource htarget⟩
  · exact Or.inl ⟨_, .source hsource⟩

/-- A row that is accepted is not at fault. -/
theorem Accepts.not_rowFault {l : Link Float} (h : Accepts vertices weights (row, position) l) :
    ¬ RowFault vertices weights position row e := by
  intro hfault
  obtain ⟨next, hnext, -⟩ :=
    addRow_of_accepts (Graph.holds_empty vertices.size weights.isSome false) h
  rw [hfault.addRow_eq] at hnext
  cases hnext

/-! ## All rows -/

/-- Rows within the vertices, with a weight for each that is defined and finite. -/
structure Fits (vertices : VertexSet) (edges : EdgeBundle) (weights : Option Attribute) :
    Prop where
  ends : ∀ row ∈ edges.rows, row.1 < vertices.size ∧ row.2 < vertices.size
  column : ∀ column, weights = some column → column.size = edges.size ∧
    ∀ entry ∈ column.entries, entry.2 = true ∧ entry.1.isFinite = true

/-- In a bundle that fits no row is at fault: its ends are vertices, and where
there is a column its entry is defined and finite. -/
theorem Fits.not_rowFault (h : Fits vertices edges weights)
    (hrow : edges.rows.toList[position]? = some row) :
    ¬ RowFault vertices weights position row e := by
  intro hfault
  rw [Array.getElem?_toList] at hrow
  obtain ⟨hsource, htarget⟩ := h.ends row (Array.mem_of_getElem? hrow)
  cases hfault with
  | source hge => exact Nat.not_lt.2 hge hsource
  | target _ hge => exact Nat.not_lt.2 hge htarget
  | undefined _ hcolumn hentry =>
    exact absurd ((h.column _ hcolumn).2 _ (Array.mem_of_getElem? hentry)).1 (by simp)
  | nonFinite _ hcolumn hentry hweight =>
    have hfinite := ((h.column _ hcolumn).2 _ (Array.mem_of_getElem? hentry)).2
    exact absurd (hweight.symm.trans hfinite) (by simp)

/-- Without a row at fault everything fits. Every row has been accepted by the
walk, which has looked at both ends and, with a column of the same length, at
each entry of it. -/
theorem fits_of_not_rowFault
    (hcolumn : ∀ column, weights = some column → column.size = edges.size)
    (h : ∀ i row, edges.rows.toList[i]? = some row → ∀ e, ¬ RowFault vertices weights i row e) :
    Fits vertices edges weights := by
  -- what the walk accepts at each row is what the rows have to fit
  have haccepts : ∀ (i : Nat) row, edges.rows[i]? = some row →
      ∃ l, Accepts vertices weights (row, i) l := by
    intro i row hrow
    rcases rowFault_or_accepts hcolumn hrow with ⟨e, hfault⟩ | ⟨l, -, hl⟩
    · exact absurd hfault (h i row (Array.getElem?_toList.trans hrow) e)
    · exact ⟨l, hl⟩
  refine ⟨fun row hmem => ?_, fun column hsome => ⟨hcolumn column hsome, fun entry hmem => ?_⟩⟩
  · -- both ends were looked up, so they are vertices
    obtain ⟨i, hrow⟩ := Array.mem_iff_getElem?.1 hmem
    obtain ⟨l, rfl, hsource, htarget, -⟩ := haccepts i row hrow
    exact ⟨hsource, htarget⟩
  · -- an entry stands beside a row
    obtain ⟨i, hentry⟩ := Array.mem_iff_getElem?.1 hmem
    have hlt : i < edges.rows.size :=
      lt_of_lt_of_eq (Array.getElem?_eq_some_iff.1 hentry).1 (hcolumn column hsome)
    obtain ⟨l, hl⟩ := haccepts i _ (Array.getElem?_eq_getElem hlt)
    have hweight := hl.weight_eq
    rw [hsome] at hweight
    obtain ⟨hentry', hfinite⟩ := rowWeight_some_eq_ok_iff.1 hweight
    obtain rfl := Option.some.inj (hentry'.symm.trans hentry)
    exact ⟨rfl, hfinite⟩

/-- Adding rows is a walk along the list that is told the positions. -/
theorem addRows_eq_foldlM (g : Graph Float) (edge : Nat) (rows : List (Nat × Nat)) :
    addRows vertices weights g edge rows =
      (rows.zipIdx edge).foldlM (fun g row => addRow vertices weights g row.2 row.1) g := by
  induction rows generalizing g edge with
  | nil => rfl
  | cons row rows ih =>
    rw [addRows, List.zipIdx_cons, List.foldlM_cons]
    exact congrArg _ (funext fun next => ih next (edge + 1))

theorem length_links (edges : EdgeBundle) (weights : Option Attribute) :
    (edges.links weights).length = edges.size := by
  rw [EdgeBundle.links, List.length_map, List.length_zipIdx]
  rfl

/-- One row: it is refused for its fault, or its link is added to the earlier
ones. In the second case the row has no fault at all, so that a walk that gets
past it knows this. -/
theorem addRow_outcome (hcolumn : ∀ column, weights = some column → column.size = edges.size)
    (hrow : edges.rows[position]? = some row)
    (hg : g.Holds vertices.size weights.isSome directed ((edges.links weights).take position)) :
    (∃ e, RowFault vertices weights position row e ∧
        addRow vertices weights g position row = .error e) ∨
      (∀ e, ¬ RowFault vertices weights position row e) ∧
        ∃ next, addRow vertices weights g position row = .ok next ∧
          next.Holds vertices.size weights.isSome directed
            ((edges.links weights).take (position + 1)) := by
  rcases rowFault_or_accepts hcolumn hrow with ⟨e, hfault⟩ | ⟨l, hl, haccepts⟩
  · exact Or.inl ⟨e, hfault, hfault.addRow_eq g⟩
  · -- the row is the next link
    rw [List.take_add_one, hl]
    exact Or.inr ⟨fun _ => haccepts.not_rowFault, addRow_of_accepts hg haccepts⟩

/-- All rows: the first one at fault is refused, or there are the links of all.
This is the walk of which one step was just described; its invariant is that the
graph holds the links of the rows before. -/
theorem addRows_outcome (directed : Bool)
    (hcolumn : ∀ column, weights = some column → column.size = edges.size) :
    let outcome := addRows vertices weights (.empty vertices.size weights.isSome directed) 0
      edges.rows.toList
    (∃ i e, Earliest edges.rows.toList (RowFault vertices weights) i e ∧ outcome = .error e) ∨
      (∀ i row, edges.rows.toList[i]? = some row → ∀ e, ¬ RowFault vertices weights i row e) ∧
        ∃ g, outcome = .ok g ∧
          g.Holds vertices.size weights.isSome directed (edges.links weights) := by
  intro outcome
  have houtcome : outcome = edges.rows.toList.zipIdx.foldlM _ _ := addRows_eq_foldlM _ 0 _
  have hall : (edges.links weights).take edges.size = edges.links weights := by
    rw [← length_links edges weights, List.take_length]
  rw [houtcome, ← hall]
  -- before each row there are the links of the earlier ones
  refine foldlM_earliest (fun i (g : Graph Float) =>
    g.Holds vertices.size weights.isSome directed ((edges.links weights).take i))
    (RowFault vertices weights)
    (Graph.holds_empty vertices.size weights.isSome directed) fun i row g hrow hg => ?_
  exact addRow_outcome hcolumn (Array.getElem?_toList.symm.trans hrow) hg

/-! ## Graphs -/

/-- What a bundle is refused for: a column of weights of another length, else the first
row at fault. -/
inductive Refused (vertices : VertexSet) (edges : EdgeBundle) (weights : Option Attribute) :
    ConversionError → Prop
  | lengths {column : Attribute} (hcolumn : weights = some column)
      (hsize : column.size ≠ edges.size) :
      Refused vertices edges weights (.weightLengthMismatch column.size edges.size)
  | row {position : Nat} {e : ConversionError}
      (hcolumn : ∀ column, weights = some column → column.size = edges.size)
      (hfault : Earliest edges.rows.toList (RowFault vertices weights) position e) :
      Refused vertices edges weights e

/-- A bundle is refused for one thing only, since it is the first row at fault
that decides, and before all rows the length of the column. -/
theorem Refused.unique {e' : ConversionError} (h : Refused vertices edges weights e)
    (h' : Refused vertices edges weights e') : e = e' := by
  cases h with
  | lengths hcolumn hsize =>
    cases h' with
    | lengths hcolumn' _ => rw [Option.some.inj (hcolumn.symm.trans hcolumn')]
    | row hsizes _ => exact absurd (hsizes _ hcolumn) hsize
  | row hsizes hfault =>
    cases h' with
    | lengths hcolumn hsize => exact absurd (hsizes _ hcolumn) hsize
    | row _ hfault' => exact hfault.unique (fun _ _ _ _ h h' => h.unique h') hfault'

/-- A bundle that fits is not refused. -/
theorem Fits.not_refused (h : Fits vertices edges weights) :
    ¬ Refused vertices edges weights e := by
  intro hrefused
  cases hrefused with
  | lengths hcolumn hsize => exact hsize (h.column _ hcolumn).1
  | row _ hfault =>
    obtain ⟨row, hrow, hwrong⟩ := hfault.found
    exact h.not_rowFault hrow hwrong

/-- The graph has nothing to refuse: whatever a bundle is refused for is a fault
of the entities, and no error of the engine. -/
theorem Refused.isInput (h : Refused vertices edges weights e) : e.IsInput := by
  cases h with
  | lengths _ _ => trivial
  | row _ hfault =>
    obtain ⟨row, -, hrow⟩ := hfault.found
    cases hrow <;> trivial

/-- A bundle is refused, or it fits and its links are added and numbered. The
lengths are compared first; then the walk along the rows finds the first one at
fault or none. -/
theorem toGraph_outcome (vertices : VertexSet) (edges : EdgeBundle) (weights : Option Attribute)
    (directed : Bool) :
    (∃ e, Refused vertices edges weights e ∧
        toGraph vertices edges weights directed = .error e) ∨
      Fits vertices edges weights ∧ ∃ g : Graph Float,
        toGraph vertices edges weights directed = .ok g.indexEdges ∧
          g.Holds vertices.size weights.isSome directed (edges.links weights) := by
  by_cases hcolumn : ∀ column, weights = some column → column.size = edges.size
  · -- the walk along the rows decides
    rw [toGraph_eq hcolumn]
    rcases addRows_outcome directed hcolumn with ⟨i, e, hfault, herror⟩ | ⟨hnone, g, hg, hholds⟩
    · refine Or.inl ⟨e, .row hcolumn hfault, ?_⟩
      rw [herror]
      rfl
    · refine Or.inr ⟨fits_of_not_rowFault hcolumn hnone, g, ?_, hholds⟩
      rw [hg]
      rfl
  · -- the lengths are compared before any row is read
    push Not at hcolumn
    obtain ⟨column, rfl, hsize⟩ := hcolumn
    refine Or.inl ⟨_, .lengths rfl hsize, ?_⟩
    simp only [toGraph, ne_eq, hsize, not_false_eq_true, if_true]
    rfl

/-- The graph that a bundle makes holds its links, and so does the one with the
other direction, because directions have no say in whether a row is accepted. -/
theorem holds_of_toGraph (h : toGraph vertices edges weights directed = .ok g)
    (directed' : Bool) :
    ∃ g' : Graph Float, toGraph vertices edges weights directed' = .ok g' ∧
      g'.Holds vertices.size weights.isSome directed' (edges.links weights) := by
  rcases toGraph_outcome vertices edges weights directed with
    ⟨e, -, herror⟩ | ⟨hfits, -⟩
  · rw [herror] at h
    cases h
  -- whether everything fits has nothing to do with the direction
  rcases toGraph_outcome vertices edges weights directed' with
    ⟨e, hrefused, -⟩ | ⟨-, before, hok, hholds⟩
  · exact absurd hrefused hfits.not_refused
  · exact ⟨_, hok, hholds.indexed⟩

/-- What comes of a bundle: the graph of its links, or its first fault. -/
structure Converts (vertices : VertexSet) (edges : EdgeBundle) (weights : Option Attribute)
    (directed : Bool) : Prop where
  ok_iff : (∃ g, toGraph vertices edges weights directed = .ok g) ↔ Fits vertices edges weights
  error_iff : ∀ e, toGraph vertices edges weights directed = .error e ↔
    Refused vertices edges weights e
  /-- What a bundle says is checked before the graph would refuse it. -/
  not_engine : ∀ cause, toGraph vertices edges weights directed ≠ .error (.engine cause)
  shape : ∀ g, toGraph vertices edges weights directed = .ok g →
    g.hasEdgeIds = true ∧ g.directed = directed ∧ g.weighted = weights.isSome ∧
      g.nodeCount = vertices.size
  /-- The graph has accepted the links, in order and nothing else, and is numbered. -/
  history : ∀ g, toGraph vertices edges weights directed = .ok g →
    let start := Graph.empty vertices.size weights.isSome directed
    let steps := (edges.links weights).map Step.ofLink
    start.accepted steps = edges.links weights ∧ g = start.run (steps ++ [.index])
  faithful : ∀ g, toGraph vertices edges weights directed = .ok g →
    g.Faithful (edges.links weights)

/-- The graph with given links is the one that accepts them one after the other.
So a converted graph is one that can be reached, and all that is known of those
holds of it. -/
theorem history_of_holds {links : List (Link Float)}
    (h : g.Holds vertices.size weights.isSome directed links) :
    let start := Graph.empty vertices.size weights.isSome directed
    let steps := links.map Step.ofLink
    start.accepted steps = links ∧ g.indexEdges = start.run (steps ++ [.index]) := by
  have hempty := Graph.holds_empty vertices.size weights.isSome directed
  have hreplay := hempty.replay h.within h.storable
  rw [List.nil_append] at hreplay
  refine ⟨hempty.accepted_ofLink h.within h.storable, ?_⟩
  rw [Graph.run_append]
  -- numbering sees only the links, and both graphs hold the same
  show _ = Graph.indexEdges _
  rw [h.indexEdges_eq, hreplay.indexEdges_eq]

/-- A bundle that is refused converts as it should: the error is the one that
`Refused` names, it is no error of the engine, and there is no graph of which to
say anything. -/
theorem converts_of_refused (hrefused : Refused vertices edges weights e)
    (herror : toGraph vertices edges weights directed = .error e) :
    Converts vertices edges weights directed := by
  -- there is no graph, so what is said of one holds of none
  have hnone : ∀ g, toGraph vertices edges weights directed ≠ .ok g := by simp [herror]
  constructor
  case ok_iff =>
    exact iff_of_false (fun ⟨g, hg⟩ => hnone g hg) fun hfits => hfits.not_refused hrefused
  case error_iff =>
    intro e'
    rw [herror, Except.error.injEq]
    exact ⟨fun he => he ▸ hrefused, hrefused.unique⟩
  case not_engine =>
    rw [herror]
    rintro cause ⟨⟩
    exact hrefused.isInput
  case shape | history | faithful => exact fun g hg => absurd hg (hnone g)

/-- A bundle that fits converts as it should. There is one graph only, the one
with all links added and numbered, so all that is said of a graph is said of
this one. -/
theorem converts_of_fits (hfits : Fits vertices edges weights) {before : Graph Float}
    (hok : toGraph vertices edges weights directed = .ok before.indexEdges)
    (hholds : before.Holds vertices.size weights.isSome directed (edges.links weights)) :
    Converts vertices edges weights directed := by
  -- there is one graph, the numbered one, and all the rest is about it
  have hsame : ∀ g, toGraph vertices edges weights directed = .ok g → g = before.indexEdges :=
    fun g hg => Except.ok.inj (hg.symm.trans hok)
  have hindexed := hholds.indexed
  constructor
  case ok_iff => exact iff_of_true ⟨_, hok⟩ hfits
  case error_iff =>
    intro e
    rw [hok]
    exact iff_of_false (by simp) hfits.not_refused
  case not_engine =>
    intro cause
    rw [hok]
    simp
  case shape =>
    intro g hg
    rw [hsame g hg]
    exact ⟨rfl, hindexed.directed_eq, hindexed.weighted_eq, hindexed.nodeCount_eq⟩
  case history =>
    intro g hg
    rw [hsame g hg]
    exact history_of_holds hholds
  case faithful =>
    intro g hg
    rw [hsame g hg]
    exact hindexed.faithful

/-- **A bundle is accepted exactly if it fits**, and else refused for its first
fault: a column of another length, an end that is no vertex, or a weight that is
missing or not finite. The graph then holds the rows in their order, with their
edges numbered, and no error of the graph itself ever comes through. -/
theorem toGraph_converts (vertices : VertexSet) (edges : EdgeBundle) (weights : Option Attribute)
    (directed : Bool) : Converts vertices edges weights directed := by
  rcases toGraph_outcome vertices edges weights directed with
    ⟨e, hrefused, herror⟩ | ⟨hfits, before, hok, hholds⟩
  · exact converts_of_refused hrefused herror
  · exact converts_of_fits hfits hok hholds

/-- The source of a row is checked before its target, and the weight after both. -/
example : toGraph ⟨2⟩ ⟨#[(0, 1), (7, 9)]⟩ (some ⟨#[(1, true), (0, false)]⟩) true =
    .error (.endpointOutOfRange 1 7 2) :=
  rfl

end Conversion

end GraphMeasures
