import GraphMeasures.Proofs.Graph.History

/-!
# GraphMeasures — numbered and unnumbered graphs

* `run_index_numbered` — numbering after any history is a numbering of the
  accepted links (`Numbered`). Refused edges and earlier ids leave no trace: the
  graph is the one in which the accepted links were added and numbered once.
* The same theorem for graphs that have accepted an edge since they were
  numbered: nothing answers for ids there (`Unnumbered`).
* `current_run` — a graph that has ids at all has those of its links.
-/

namespace GraphMeasures

open Link

/-- The algorithms that come with the library. -/
inductive EdgeScore.BuiltIn : EdgeScore → Prop where
  | triangle : BuiltIn .triangle
  | uniform : BuiltIn .uniform
  | forestFire (f : Score.ForestFire) : BuiltIn (.forestFire f)

/-- The step that adds a link. -/
def Step.ofLink (l : Link Float) : Step :=
  .add l.source l.target l.weight

namespace Graph

variable {n : Nat} {weighted directed : Bool} {links : List (Link Float)} {g : Graph Float}

/-! ## Numbered graphs -/

/-- The edges of a graph are the given links, numbered in the order in which
they are listed. -/
structure Numbered (g : Graph Float) (links : List (Link Float)) : Prop where
  hasEdgeIds : g.hasEdgeIds = true
  edgeIdBound : g.edgeIdBound = g.edgeCount
  edgeCount : g.edgeCount = links.length
  /-- The edges are numbered from zero in their order. -/
  position : ∀ i, ∀ e : Edge Float, g.edges[i]? = some e → e.id = some i
  /-- Different links have different ids, and every id below the bound is one. -/
  bijOn : Set.BijOn (idOf g.directed links) (Set.Iio links.length) (Set.Iio g.edgeIdBound)
  /-- The entries of a link carry the same id. They stand behind those of the
  earlier links in their lists. -/
  entry : ∀ k l, links[k]? = some l →
    g.edges[idOf g.directed links k]? = some
      ⟨(l.listed g.directed).source, (l.listed g.directed).target, l.weight,
        some (idOf g.directed links k)⟩ ∧
    (g.neighbours l.source)[seat g.directed true links l.source k]? = some
      ⟨l.target, l.weight, seat g.directed false links l.target k,
        some (idOf g.directed links k)⟩ ∧
    (g.inNeighbours l.target)[seat g.directed false links l.target k]? = some
      ⟨l.source, l.weight, seat g.directed true links l.source k,
        some (idOf g.directed links k)⟩
  /-- No entry is left without an id. -/
  complete : ∀ node, ∀ half : HalfEdge Float, half ∈ g.neighbours node ∨ half ∈ g.inNeighbours node →
    half.id.isSome = true

/-- Where all links have ids, all half-edges do. -/
theorem isSome_of_mem_halves {outgoing : Bool} {node : Nat} {half : HalfEdge Float}
    (h : half ∈ halves directed outgoing links (some ∘ idOf directed links) node) :
    half.id.isSome = true := by
  obtain ⟨p, hp⟩ := List.mem_iff_getElem?.1 h
  obtain ⟨k, l, -, -, -, rfl⟩ := getElem?_halves_iff.1 hp
  rfl

/-- A graph of links with the ids of its table is numbered: the edges are listed
in the order of their ids, each half-edge has the id of its link, and so its
twin has the same. -/
theorem numbered_ofLinks (hwithin : Within n links) :
    Numbered (ofLinks n weighted directed links (some ∘ idOf directed links)
      (some (table n directed links))) links := by
  -- in the list of edges every link is at its place, and the places are the positions
  have hplace : ∀ k l, links[k]? = some l →
      (StableOrder.buckets (fun l => l.1.node directed) n links.zipIdx)[idOf directed links k]? =
        some (l, k) := by
    intro k l hl
    rw [idOf, ← StableOrder.place_zipIdx]
    exact StableOrder.getElem?_buckets_place (mem_zipIdx_iff.2 ⟨hl, rfl⟩)
      (hwithin.node_lt (List.mem_of_getElem? hl) directed)
  have hbij : Set.BijOn (idOf directed links) (Set.Iio links.length) (Set.Iio links.length) :=
    StableOrder.bijOn_place (Link.node directed) links
  constructor
  case hasEdgeIds => rfl
  case edgeIdBound => rfl
  case edgeCount => rfl
  case position =>
    intro i e he
    -- the link at position `i` is the one whose place is `i`
    have hlt : i < links.length := by
      have hlt := (List.getElem?_eq_some_iff.1 he).1
      rw [edges_ofLinks, List.length_map] at hlt
      refine Nat.lt_of_lt_of_le hlt ?_
      rw [StableOrder.length_buckets, ← List.length_zipIdx (l := links) (i := 0)]
      exact List.countP_le_length
    obtain ⟨k, hk, rfl⟩ := hbij.surjOn hlt
    rw [edges_ofLinks, List.getElem?_map, hplace k _ (List.getElem?_eq_getElem hk)] at he
    obtain rfl := Option.some.inj he
    rfl
  case bijOn => exact hbij
  case entry =>
    intro k l hl
    have hsource : l.standsAt directed true l.source = true := by simp [standsAt]
    have htarget : l.standsAt directed false l.target = true := by simp [standsAt]
    refine ⟨?_, ?_, ?_⟩
    · rw [edges_ofLinks, List.getElem?_map]
      exact congrArg _ (hplace k l hl)
    · rw [neighbours_ofLinks hwithin]
      refine getElem?_halves_iff.2 ⟨k, l, hl, hsource, rfl, ?_⟩
      rw [halfOf, across_source]
      rfl
    · rw [inNeighbours_ofLinks hwithin]
      refine getElem?_halves_iff.2 ⟨k, l, hl, htarget, rfl, ?_⟩
      rw [halfOf, across_target]
      rfl
  case complete =>
    intro node half hhalf
    rw [neighbours_ofLinks hwithin, inNeighbours_ofLinks hwithin] at hhalf
    rcases hhalf with hhalf | hhalf
    · exact isSome_of_mem_halves hhalf
    · exact isSome_of_mem_halves hhalf

/-! ## Unnumbered graphs -/

/-- Nobody gives ids to the edges of a graph. -/
structure Unnumbered (g : Graph Float) : Prop where
  hasEdgeIds : g.hasEdgeIds = false
  edgeIdBound : g.edgeIdBound = 0
  edgeId : ∀ source target, g.edgeId source target = .error .edgesNotIndexed
  score : ∀ score : EdgeScore, score.BuiltIn → ∀ config stage,
    ((score.compute g config).on stage).1 = .error (.error .edgesNotIndexed)

/-- Without an index every score is refused, and so is the lookup, before
anything else is looked at; no edge and no half-edge shows an id, and the bound
of the ids is zero. -/
theorem unnumbered_of_index (h : g.index = none) : Unnumbered g := by
  have hrequire : g.requireIndex = .error .edgesNotIndexed := by rw [requireIndex, h]
  constructor
  case hasEdgeIds =>
    rw [hasEdgeIds, h]
    rfl
  case edgeIdBound =>
    rw [edgeIdBound, h]
    rfl
  case edgeId =>
    intro source target
    rw [edgeId, hrequire]
    rfl
  case score =>
    -- a score asks for the index before it builds a pool or computes anything
    intro score hscore config stage
    cases hscore with
    | triangle =>
      simp [EdgeScore.triangle, Run.on_span, hrequire, Except.mapError]
    | uniform =>
      have hfail : Score.uniform g config.seed = .error .edgesNotIndexed := by
        rw [Score.uniform, hrequire]
        rfl
      simp [EdgeScore.uniform, hfail, Except.mapError]
    | forestFire f =>
      simp [EdgeScore.forestFire, Run.on_span, hrequire, Except.mapError]

/-! ## Histories -/

/-- An edge that is added leaves no index, and one that is refused makes
none. -/
theorem index_apply_add {source target : Nat} {weight : Float} (h : g.index = none) :
    (g.apply (.add source target weight)).index = none := by
  rw [Graph.apply]
  cases hadd : g.addEdge source target weight with
  | error e => exact h
  | ok next =>
    obtain ⟨-, -, -, rfl⟩ := addEdge_eq_ok_iff.1 hadd
    exact index_insertEdge ..

/-- Adding edges gives no ids: a graph without an index has none until it is
numbered. -/
theorem index_run {steps : List Step} (hsteps : Step.index ∉ steps) (h : g.index = none) :
    (g.run steps).index = none := by
  induction steps generalizing g with
  | nil => exact h
  | cons step rest ih =>
    have hrest : Step.index ∉ rest := fun hmem => hsteps (List.mem_cons_of_mem _ hmem)
    cases step with
    | index => exact absurd List.mem_cons_self hsteps
    | add source target weight => exact ih hrest (index_apply_add h)

/-- The first accepted edge takes the index away, and nothing brings it back but
the step that numbers the edges. Steps that are refused leave the index where it
is. -/
theorem index_run_of_accepted {steps : List Step} (hsteps : Step.index ∉ steps)
    (h : g.accepted steps ≠ []) : (g.run steps).index = none := by
  -- refused edges are passed over until the first accepted one
  induction steps generalizing g with
  | nil => exact absurd rfl h
  | cons step rest ih =>
    have hrest : Step.index ∉ rest := fun hmem => hsteps (List.mem_cons_of_mem _ hmem)
    cases step with
    | index => exact absurd List.mem_cons_self hsteps
    | add source target weight =>
      cases hadd : g.addEdge source target weight with
      | error e =>
        have hsame : g.apply (.add source target weight) = g := by rw [Graph.apply, hadd]
        rw [accepted, admitted, hadd, hsame] at h
        show ((g.apply (.add source target weight)).run rest).index = none
        rw [hsame]
        exact ih hrest h
      | ok next =>
        obtain ⟨-, -, -, rfl⟩ := addEdge_eq_ok_iff.1 hadd
        show ((g.apply (.add source target weight)).run rest).index = none
        refine index_run hrest ?_
        rw [Graph.apply, hadd]
        exact index_insertEdge ..

/-- Links that were accepted once are accepted again, in any graph with the same
nodes. The induction is on the links, one step for each. -/
theorem Holds.replay {before after : List (Link Float)} (h : Holds n weighted directed before g)
    (hwithin : Within n after) (hstorable : ∀ l ∈ after, Storable weighted l.weight) :
    Holds n weighted directed (before ++ after) (g.run (after.map Step.ofLink)) := by
  -- link by link; the graph stands for the links so far, so the next one is accepted
  induction after generalizing before g with
  | nil =>
    rw [List.append_nil]
    exact h
  | cons l rest ih =>
    obtain ⟨hs, ht⟩ := hwithin l List.mem_cons_self
    have hl := hstorable l List.mem_cons_self
    have hnext : g.apply (Step.ofLink l) = g.insertEdge l.source l.target l.weight := by
      rw [Step.ofLink, Graph.apply, h.addEdge_eq hs ht hl]
    have hrest := ih (h.insertEdge hs ht hl) (fun m hm => hwithin m (List.mem_cons_of_mem _ hm))
      (fun m hm => hstorable m (List.mem_cons_of_mem _ hm))
    rw [List.append_assoc, ← hnext] at hrest
    exact hrest

/-- Such links are accepted as they are, so what is held after a replay is
known: they have been checked and stored before, and storing them again does not
change them. -/
theorem Holds.accepted_ofLink {before after : List (Link Float)}
    (h : Holds n weighted directed before g) (hwithin : Within n after)
    (hstorable : ∀ l ∈ after, Storable weighted l.weight) :
    g.accepted (after.map Step.ofLink) = after := by
  -- link by link; what is stored is what was given
  induction after generalizing before g with
  | nil => rfl
  | cons l rest ih =>
    obtain ⟨hs, ht⟩ := hwithin l List.mem_cons_self
    have hl := hstorable l List.mem_cons_self
    have hadd := h.addEdge_eq hs ht hl
    have hlink : g.admitted (Step.ofLink l) = [l] := by
      rw [Step.ofLink, admitted, hadd]
      simp only [h.stored_eq hl]
    have hnext : g.apply (Step.ofLink l) = g.insertEdge l.source l.target l.weight := by
      rw [Step.ofLink, Graph.apply, hadd]
    have hrest := ih (h.insertEdge hs ht hl) (fun m hm => hwithin m (List.mem_cons_of_mem _ hm))
      (fun m hm => hstorable m (List.mem_cons_of_mem _ hm))
    rw [List.map_cons, accepted, hlink, hnext, hrest, List.singleton_append]

/-- The index of a graph, if it has one, is that of its links. -/
def Current (nodeCount : Nat) (weighted directed : Bool) (links : List (Link Float))
    (g : Graph Float) : Prop :=
  g.hasEdgeIds = true → g = ofLinks nodeCount weighted directed links
    (some ∘ idOf directed links) (some (table nodeCount directed links))

/-- One step: numbering makes the index current, and a new edge takes it away. A
step that is refused leaves it as it was. So an index that is there is never out
of date. -/
theorem Holds.current_apply (h : Holds n weighted directed links g)
    (hcurrent : Current n weighted directed links g) (step : Step) :
    Current n weighted directed (links ++ g.admitted step) (g.apply step) := by
  -- indexing makes the graph current, and an edge that is added takes the index away
  cases step with
  | index =>
    intro _
    rw [admitted, List.append_nil]
    exact h.indexEdges_eq
  | add source target weight =>
    rw [admitted, Graph.apply]
    cases hadd : g.addEdge source target weight with
    | error e =>
      rw [List.append_nil]
      exact hcurrent
    | ok next =>
      obtain ⟨-, -, -, rfl⟩ := addEdge_eq_ok_iff.1 hadd
      intro hids
      have hnone : (g.insertEdge source target (if g.weighted then weight else Scalar.one)).index =
          none := index_insertEdge ..
      rw [hasEdgeIds, hnone] at hids
      exact absurd hids Bool.false_ne_true

/-- All steps, by induction on their list. An index that is there is current
after each of them: it is the one that numbering all links so far would make. -/
theorem Holds.current_run (h : Holds n weighted directed links g)
    (hcurrent : Current n weighted directed links g) (steps : List Step) :
    Current n weighted directed (links ++ g.accepted steps) (g.run steps) := by
  induction steps generalizing links g with
  | nil =>
    rw [accepted, List.append_nil]
    exact hcurrent
  | cons step rest ih =>
    rw [accepted, ← List.append_assoc]
    exact ih (h.apply step) (h.current_apply hcurrent step)

/-- A graph that can be reached and has an index shows its links with their ids.
There is no index that was made for other links. -/
theorem current_run (n : Nat) (weighted directed : Bool) (steps : List Step) :
    Current n weighted directed ((empty n weighted directed).accepted steps)
      ((empty n weighted directed).run steps) := by
  have hnone : Current n weighted directed [] (empty n weighted directed) :=
    fun hids => absurd hids Bool.false_ne_true
  simpa using (holds_empty n weighted directed).current_run hnone steps

/-- **Numbering forgets the history.** After any steps the edges are numbered as
the accepted links, and the graph is the one in which just these were added and
numbered once. A graph that has accepted an edge since then has no ids. -/
theorem run_index_numbered (n : Nat) (weighted directed : Bool) (steps : List Step) :
    let start := empty n weighted directed
    let links := start.accepted steps
    Numbered (start.run (steps ++ [.index])) links ∧
      start.run (steps ++ [.index]) = start.run (links.map Step.ofLink ++ [.index]) ∧
      (∀ before after, steps = before ++ after → Step.index ∉ after →
        (start.run before).accepted after ≠ [] → Unnumbered (start.run steps)) ∧
      ∀ source target weight e, (start.run steps).addEdge source target weight = .error e →
        start.run (steps ++ [.add source target weight]) = start.run steps := by
  have h := holds_run n weighted directed steps
  -- both histories end with a graph that holds the same links
  have hreplay := (holds_empty n weighted directed).replay h.within h.storable
  rw [List.nil_append] at hreplay
  refine ⟨?_, ?_, ?_, ?_⟩
  · rw [run_append]
    show Numbered (indexEdges _) _
    rw [h.indexEdges_eq]
    exact numbered_ofLinks h.within
  · rw [run_append, run_append]
    show indexEdges _ = indexEdges _
    rw [h.indexEdges_eq, hreplay.indexEdges_eq]
  · rintro before after rfl hafter haccepted
    rw [run_append]
    exact unnumbered_of_index (index_run_of_accepted hafter haccepted)
  · intro source target weight e hrefused
    rw [run_append]
    show ((empty n weighted directed).run steps).apply (.add source target weight) = _
    rw [Graph.apply, hrefused]

/-- A loop that had an id has none after the next edge, until the edges are
numbered again. -/
theorem run_index_numbered_stale :
    let start := empty 2 false false
    (start.run [.add 1 1 1.0, .index]).accepted [.add 0 1 1.0] ≠ [] ∧
      Unnumbered (start.run [.add 1 1 1.0, .index, .add 0 1 1.0]) := by
  intro start
  have haccepted : (start.run [.add 1 1 1.0, .index]).accepted [.add 0 1 1.0] ≠ [] := by decide
  have hafter : Step.index ∉ [Step.add 0 1 1.0] := by simp
  exact ⟨haccepted, (run_index_numbered 2 false false _).2.2.1 [.add 1 1 1.0, .index]
    [.add 0 1 1.0] rfl hafter haccepted⟩

end Graph

end GraphMeasures
