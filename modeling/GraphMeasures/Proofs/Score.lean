import GraphMeasures.Proofs.Conversion
import GraphMeasures.Proofs.Graph.Indexing
import GraphMeasures.Proofs.Outcome

/-!
# GraphMeasures — scores of graphs that are ready

Scores use positions of arrays that they do not check: the nodes that edges and
half-edges lead to, and a first node to burn. On a graph that is `Ready` all of
these are there, so every built-in score ends with a value for every id
(`keeps_compute`). Graphs made of entities are ready
(`Conversion.Describes.ready`).
-/

namespace GraphMeasures

variable {W : Type} {g : Graph W}

/-- The edges have ids, and they lead to nodes of the graph. -/
structure Graph.Ready (g : Graph W) : Prop where
  hasEdgeIds : g.hasEdgeIds = true
  ends : ∀ e ∈ g.edges, e.source < g.nodeCount ∧ e.target < g.nodeCount
  farEnds : ∀ node, ∀ half ∈ g.neighbours node, half.node < g.nodeCount
  nodes : g.edgeCount ≠ 0 → 0 < g.nodeCount

/-- A ready graph has an index, and the bound of the index is the one that the
graph says. -/
theorem Graph.Ready.requireIndex (h : g.Ready) :
    ∃ index, g.requireIndex = .ok index ∧ index.bound = g.edgeIdBound := by
  obtain ⟨index, hindex⟩ := Option.isSome_iff_exists.1 h.hasEdgeIds
  refine ⟨index, ?_, ?_⟩
  · rw [Graph.requireIndex, hindex]
  · rw [Graph.edgeIdBound, hindex]
    rfl

/-- A graph made of entities is ready: its rows were checked for nodes that do
not exist before any was added, and the edges were numbered after all were
there. -/
theorem Conversion.Describes.ready {vertices : VertexSet} {edges : EdgeBundle}
    {weights : Option Attribute} {directed : Bool} {links : List (Link Float)}
    (h : Describes vertices edges weights directed links) :
    (graphOf vertices weights directed links).Ready := by
  have hholds := h.holds_graphOf
  have hfaithful := hholds.faithful
  refine ⟨rfl, hfaithful.ends, fun node half hhalf => (hfaithful.farEnds node half (Or.inl hhalf)).1,
    fun hcount => ?_⟩
  rw [hholds.edgeCount_eq] at hcount
  -- an edge has an end, which is a node
  obtain ⟨l, hl⟩ := List.exists_mem_of_length_pos (Nat.pos_of_ne_zero hcount)
  rw [hholds.nodeCount_eq]
  exact Nat.lt_of_le_of_lt (Nat.zero_le _) (h.within l hl).1

namespace Score

/-! ## Triangles -/

/-- Counting at an edge looks up the lists of its two ends, which are there, and
writes under its id; an edge without an id is passed over. There are as many
counts as before. -/
theorem ends_countEdge {joined : Array (List Nat)} {edge : Edge W} {counts : Array Nat}
    (hs : edge.source < joined.size) (ht : edge.target < joined.size) :
    Ends (fun after => after.size = counts.size) Never (countEdge joined counts edge) := by
  have htriangles : Ends (fun _ => True) Never (trianglesOver joined edge.source edge.target) := by
    unfold trianglesOver
    rw [Checked.get_eq_ok hs, Checked.get_eq_ok ht]
    split
    · trivial
    · trivial
  unfold countEdge
  split
  · refine htriangles.bind fun count _ => ?_
    exact Array.size_setIfInBounds
  · rfl

/-- Triangles are counted on every ready graph, with a count for every id: there
is one list of neighbours for each node, so every end of an edge finds its
own. -/
theorem ends_triangles (h : g.Ready) :
    Ends (fun scores => g.edgeIdBound ≤ scores.size) Never (triangles g) := by
  obtain ⟨index, hindex, hbound⟩ := h.requireIndex
  unfold triangles triangleCounts
  rw [hindex]
  -- both ends of an edge are nodes, and every node has its list
  have hcounts : Ends (fun counts => counts.size = index.bound) Never
      (g.edges.foldlM (countEdge ((Array.range g.nodeCount).map (joinedNodes g)))
        (Array.replicate index.bound 0)) := by
    refine Ends.foldlM Array.size_replicate fun counts hcounts edge hedge => ?_
    obtain ⟨hs, ht⟩ := h.ends edge hedge
    refine (ends_countEdge (by simpa using hs) (by simpa using ht)).mono (fun after hafter => ?_)
      fun _ he => he
    rw [hafter, hcounts]
  refine hcounts.bind fun counts hsize => ?_
  show g.edgeIdBound ≤ (counts.map Float.ofNat).size
  rw [Array.size_map, hsize, hbound]

/-! ## Random scores -/

/-- As many numbers are drawn as were asked for, whatever the generator
gives. -/
theorem size_drawUnits (count : Nat) (generator : Random.Generator) :
    (drawUnits count generator).size = count := by
  -- each draw adds one entry
  have hfold : ∀ (positions : List Nat) (drawn : Array Float) (generator : Random.Generator),
      (positions.foldl (fun (state : Array Float × Random.Generator) _ =>
        (state.1.push state.2.unit.1, state.2.unit.2)) (drawn, generator)).1.size =
        drawn.size + positions.length := by
    intro positions
    induction positions with
    | nil => exact fun _ _ => rfl
    | cons position positions ih =>
      intro drawn generator
      rw [List.foldl_cons, ih, List.length_cons, Nat.add_comm positions.length, ← Nat.add_assoc]
      exact congrArg (· + positions.length) (Array.size_push _)
  have h := hfold (List.range count) #[] generator
  rw [List.length_range, Array.size_empty, Nat.zero_add] at h
  exact h

/-- Random scores are drawn on every ready graph, one for every id. -/
theorem ends_uniform (h : g.Ready) (seed : UInt64) :
    Ends (fun scores => g.edgeIdBound ≤ scores.size) Never (uniform g seed) := by
  obtain ⟨index, hindex, hbound⟩ := h.requireIndex
  unfold uniform
  rw [hindex]
  show g.edgeIdBound ≤ (drawUnits index.bound (.ofStream seed 0)).size
  rw [size_drawUnits, hbound]

/-! ## Fires -/

namespace Fire

variable {ρ : Type} {draws : Draws ρ}

/-- Whether a fire has reached a node can be told for every node of its
graph. -/
theorem hasReached_eq_ok {fire : Fire} {node : Nat} (h : node < fire.visited.size) :
    fire.hasReached node = .ok fire.visited[node] :=
  Checked.get_eq_ok h

/-- A fire can reach every node of its graph. What it writes down is the node,
that the node is reached, and the edge along which it came. -/
theorem reach_eq_ok {fire : Fire} {node : Nat} (id : Nat) (h : node < fire.visited.size) :
    fire.reach node id = .ok ⟨fire.order.push node, fire.visited.modify node fun _ => true,
      fire.burnt.push id⟩ := by
  rw [reach, Checked.modify_eq_ok _ h]
  rfl

/-- The ways on which a fire can go on are found, if the half-edges lead to
nodes of its graph. Every way goes along one of the half-edges, and none of the
flags that are looked up is out of range. -/
theorem exists_ways {fire : Fire} {halves : List (HalfEdge W)}
    (h : ∀ half ∈ halves, half.node < fire.visited.size) :
    ∃ ways, fire.ways halves = .ok ways ∧
      ∀ way ∈ ways, ∃ half ∈ halves, half.node = way.1 ∧ half.id = some way.2 := by
  induction halves with
  | nil => exact ⟨[], rfl, fun way hway => absurd hway List.not_mem_nil⟩
  | cons half rest ih =>
    obtain ⟨others, hothers, hmem⟩ := ih fun other hother => h other (List.mem_cons_of_mem _ hother)
    refine ⟨_, by rw [ways, hasReached_eq_ok (h half List.mem_cons_self), hothers]; rfl, ?_⟩
    -- the way of this half-edge, where there is one, or a later one
    have hlater : ∀ way ∈ others, ∃ other ∈ half :: rest, other.node = way.1 ∧
        other.id = some way.2 := by
      intro way hway
      obtain ⟨other, hother, hends⟩ := hmem way hway
      exact ⟨other, List.mem_cons_of_mem _ hother, hends⟩
    intro way hway
    split at hway
    · exact hlater way hway
    · rcases List.mem_append.1 hway with hway | hway
      · rw [Option.mem_toList] at hway
        obtain ⟨id, hid, rfl⟩ := Option.map_eq_some_iff.1 hway
        exact ⟨half, List.mem_cons_self, rfl, hid⟩
      · exact hlater way hway

/-- Taking one element out brings none in, although the last one changes its
place. -/
theorem mem_of_mem_takeOut {α : Type} {xs : Array α} {i : Fin xs.size} {x : α}
    (h : x ∈ takeOut xs i) : x ∈ xs := by
  have hpop : ∀ {ys : Array α}, x ∈ ys.pop → x ∈ ys := by
    intro ys hx
    obtain ⟨j, hj, rfl⟩ := Array.getElem_of_mem hx
    rw [Array.getElem_pop]
    exact Array.getElem_mem _
  exact (Array.swap_perm _ _).mem_iff.1 (hpop h)

/-- A fire that goes along ways in the graph stays in the graph. The step that
draws one of the ways asks for a number below how many there are, so the range
is never empty. -/
theorem ends_spread (draws : Draws ρ) (budget : Nat) (ways : Array (Nat × Nat)) (fire : Fire)
    (state : ρ) (h : ∀ way ∈ ways, way.1 < fire.visited.size) :
    Ends (fun after => after.1.visited.size = fire.visited.size) Never
      (spread draws budget ways fire state) := by
  induction budget, ways, fire, state using spread.induct draws with
  | case1 budget ways fire state hgo i after hbelow node id hway ihReached ihReach =>
    -- the way taken out leads to a node, and so do those that are left
    have hnode : node < fire.visited.size := by
      have hlt := h ways[i] (Array.getElem_mem _)
      rwa [hway] at hlt
    have hrest : ∀ way ∈ takeOut ways i, way.1 < fire.visited.size := fun way hmem =>
      h way (mem_of_mem_takeOut hmem)
    rw [spread, dif_pos hgo, hbelow]
    simp only [hway]
    rw [hasReached_eq_ok hnode, reach_eq_ok id hnode]
    show Ends _ _ (if _ then _ else _)
    split
    · exact ihReached hrest
    · have hsize : (fire.visited.modify node fun _ => true).size = fire.visited.size :=
        Array.size_modify
      rw [← hsize] at hrest ⊢
      exact ihReach _ hrest
  | case2 budget ways fire state hstop =>
    rw [spread, dif_neg hstop]
    exact rfl

/-- A node passes the fire on, and then those behind it do. -/
theorem burnFrom_succ {fuel position node : Nat} {fire : Fire} {state : ρ} {ways : List (Nat × Nat)}
    (hnode : fire.order[position]? = some node) (hways : fire.ways (g.neighbours node) = .ok ways) :
    burnFrom draws g (fuel + 1) position fire state =
      spread draws (draws.budget state).1 ways.toArray fire (draws.budget state).2 >>= fun next =>
        burnFrom draws g fuel (position + 1) next.1 next.2 := by
  rw [burnFrom, hnode]
  simp only [hways]
  rfl

/-- A fire comes to its end without a panic, since half-edges lead to nodes
only. The induction is on the fuel; that a fire stays in its graph is what a
step keeps. -/
theorem ends_burnFrom (draws : Draws ρ)
    (h : ∀ node, ∀ half ∈ g.neighbours node, half.node < g.nodeCount) (fuel position : Nat)
    (fire : Fire) (state : ρ) (hfire : fire.visited.size = g.nodeCount) :
    Ends (fun _ => True) Never (burnFrom draws g fuel position fire state) := by
  -- a fire keeps one flag for every node while it burns
  induction fuel generalizing position fire state with
  | zero => trivial
  | succ fuel ih =>
    cases hnode : fire.order[position]? with
    | none =>
      rw [burnFrom, hnode]
      trivial
    | some node =>
      have hhalves : ∀ half ∈ g.neighbours node, half.node < fire.visited.size := by
        rw [hfire]
        exact h node
      obtain ⟨ways, hways, hmem⟩ := exists_ways hhalves
      have hlt : ∀ way ∈ ways.toArray, way.1 < fire.visited.size := by
        intro way hway
        obtain ⟨half, hhalf, hfar, -⟩ := hmem way (List.mem_toArray.1 hway)
        exact hfar ▸ hhalves half hhalf
      rw [burnFrom_succ hnode hways]
      refine (ends_spread draws _ _ fire _ hlt).bind fun after hafter => ?_
      exact ih _ _ _ (by rw [hafter, hfire])

/-- A fire burns on every ready graph with nodes. Without nodes there is none to
start at, and the draw of the first one would be from an empty range. -/
theorem ends_burn (draws : Draws ρ) (h : g.Ready) (hnodes : 0 < g.nodeCount) (state : ρ) :
    Ends (fun _ => True) Never (burn draws g state) := by
  rw [burn, dif_pos hnodes]
  refine ends_burnFrom draws h.farEnds _ _ _ _ ?_
  rw [start, Array.size_setIfInBounds, Array.size_replicate]

end Fire

/-! ## Rounds of fires -/

namespace Burning

/-- Counting a fire changes the counts and not how many of them there are. -/
theorem size_addFire (b : Burning) (ids : Array Nat) : (b.addFire ids).hits.size = b.hits.size := by
  unfold addFire
  -- counting changes numbers of hits and adds none
  refine Array.foldl_induction (fun _ (hits : Array Nat) => hits.size = b.hits.size) rfl ?_
  intro i hits hsize
  rw [Array.size_modify, hsize]

/-- Counting a round of fires changes the counts and not how many of them there
are. -/
theorem size_addRound (target : Nat) (b : Burning) (fires : List (Array Nat)) :
    (b.addRound target fires).hits.size = b.hits.size := by
  show (fires.foldl (addFireUpTo target) b).hits.size = b.hits.size
  induction fires generalizing b with
  | nil => rfl
  | cons ids fires ih =>
    rw [List.foldl_cons, ih, addFireUpTo]
    split
    · exact size_addFire b ids
    · rfl

variable {target : Nat} {fire : Nat → Except (Failure EngineError) (Array Nat)}

/-- A round comes to its end if its fires do. -/
theorem ends_round (hfire : ∀ number, Ends (fun _ => True) Never (fire number)) (b : Burning) :
    Ends (fun next => next.hits.size = b.hits.size) Never (b.round target fire) := by
  unfold round
  refine (Ends.mapM fun number _ => hfire number).bind fun fires _ => ?_
  exact size_addRound target b fires

/-- The rounds one by one: where the target is not reached yet, a round, and
then either the end because nothing burns any more or else all that follows. -/
theorem burnAll_eq (b : Burning) :
    b.burnAll target fire =
      if b.burnt < target then
        b.round target fire >>= fun next =>
          if maxIdleRounds ≤ next.idle then .ok next else next.burnAll target fire
      else .ok b := by
  rw [burnAll]
  split
  · cases b.round target fire <;> rfl
  · rfl

/-- When no fire fails, all of them together do not. The induction is the one by
which the rounds come to an end at all; what a round keeps is the number of
counts. -/
theorem ends_burnAll (hfire : ∀ number, Ends (fun _ => True) Never (fire number)) (b : Burning) :
    Ends (fun after => after.hits.size = b.hits.size) Never (b.burnAll target fire) := by
  have hsize : Ends (fun next => next.hits.size = b.hits.size) Never (b.round target fire) :=
    ends_round hfire b
  -- round by round, as far as the rounds go
  induction b using burnAll.induct target fire with
  | case1 b hgo failure hround =>
    rw [hround] at hsize
    exact hsize.elim
  | case2 b hgo next hround hidle =>
    rw [hround] at hsize
    rw [burnAll_eq, if_pos hgo, hround]
    show Ends _ _ (if _ then _ else _)
    rw [if_pos hidle]
    exact hsize
  | case3 b hgo next hround hidle ih =>
    rw [hround] at hsize
    rw [burnAll_eq, if_pos hgo, hround]
    show Ends _ _ (if _ then _ else _)
    rw [if_neg hidle]
    refine (ih (ends_round hfire next)).mono (fun after hafter => ?_) fun _ he => he
    exact hafter.trans hsize
  | case4 b hstop =>
    rw [burnAll, if_neg hstop]
    exact rfl

end Burning

/-- A run of fires comes to its end on every ready graph, with a count for every
id. It starts fires only where there are edges, hence nodes, so no number is
drawn from an empty range. -/
theorem ForestFire.ends_burning (h : g.Ready) (f : ForestFire) (seed : UInt64) :
    Ends (fun burning => g.edgeIdBound ≤ burning.hits.size) Never (f.burning g seed) := by
  obtain ⟨index, hindex, hbound⟩ := h.requireIndex
  have hstart : (Burning.start index.bound).hits.size = g.edgeIdBound := by
    rw [Burning.start, Array.size_replicate, hbound]
  rw [ForestFire.burning, hindex]
  by_cases hcount : g.edgeCount = 0
  · show Ends _ _ (if _ then _ else _)
    rw [if_pos hcount]
    exact hstart.ge
  · show Ends _ _ (if _ then _ else _)
    rw [if_neg hcount]
    -- where there is an edge there is a node to start at
    have hfire : ∀ number, Ends (fun _ => True) Never (f.fire g seed number) := by
      intro number
      refine (Fire.ends_burn _ h (h.nodes hcount) _).bind fun burnt _ => ?_
      trivial
    refine (Burning.ends_burnAll hfire _).mono (fun after hafter => ?_) fun _ he => he
    rw [hafter, hstart]

end Score

/-! ## The algorithms -/

/-- The machine refuses the pool of a run. -/
def EngineError.IsPool : EngineError → Prop
  | .threadPool _ => True
  | _ => False

/-- On a pool nothing fails that would not fail elsewhere, but the pool may be
refused. Then nothing of what was to be done on it is done. -/
theorem keeps_onPool {α : Type} {post : α → Prop} {outcome : Except (Failure EngineError) α}
    (config : RunConfig) (h : Ends post Never outcome) :
    (EdgeScore.onPool config outcome).Keeps (fun _ => True) post EngineError.IsPool := by
  refine Run.keeps_scene.bind fun scene _ => ?_
  have hpool : Ends (fun _ => True) EngineError.IsPool (config.buildPool scene.machine) := by
    unfold RunConfig.buildPool
    split <;> trivial
  refine (Run.keeps_ofExcept hpool).bind fun _ _ => ?_
  exact Run.keeps_ofOutcome (h.mono (fun _ ha => ha) fun _ he => he.elim)

/-- What is logged at the end of a run shows in the journal and nowhere else. -/
theorem keeps_logBurning {σ ε : Type} {inv : σ → Prop} {good : ε → Prop} {target : Nat}
    {burning : Score.Burning} :
    (EdgeScore.logBurning target burning : Run σ ε Unit).Keeps inv (fun _ => True) good := by
  unfold EdgeScore.logBurning
  split
  · exact (Run.keeps_log _ _ _).bind fun _ _ => Run.keeps_log _ _ _
  · exact Run.keeps_log _ _ _

/-- **Built-in scores fail on graphs that are ready only where the machine
refuses their pool.** Otherwise they have a value for every id, and in no case
do they panic. So all that a measure can be blamed for comes from outside of
it. -/
theorem keeps_compute {g : Graph Float} (h : g.Ready) {score : EdgeScore} (hscore : score.BuiltIn)
    (config : RunConfig) :
    (score.compute g config).Keeps (fun _ => True) (fun scores => g.edgeIdBound ≤ scores.size)
      EngineError.IsPool := by
  obtain ⟨index, hindex, hbound⟩ := h.requireIndex
  -- of the built-in scores, the one of triangles and that of fires ask for a pool
  cases hscore with
  | triangle =>
    show (Run.span _ _ (Run.ofExcept id g.requireIndex >>= fun _ => _)).Keeps _ _ _
    rw [hindex]
    exact Run.Keeps.span (keeps_onPool config (Score.ends_triangles h))
  | uniform =>
    refine Run.keeps_ofExcept ?_
    exact (Score.ends_uniform h config.seed).mono (fun _ hsize => hsize) fun _ he => he.elim
  | forestFire f =>
    refine Run.keeps_scene.bind fun scene _ => Run.Keeps.span ?_
    rw [hindex]
    show (if g.edgeCount = 0 then _ else _ : Run Unit EngineError _).Keeps _ _ _
    by_cases hcount : g.edgeCount = 0
    · -- every id has the score zero
      rw [if_pos hcount]
      refine Run.keeps_pure ?_
      rw [Array.size_map, Score.Burning.start, Array.size_replicate, hbound]
    · rw [if_neg hcount]
      refine (keeps_onPool config (f.ends_burning h config.seed)).bind fun burning hsize => ?_
      refine keeps_logBurning.bind fun _ _ => Run.keeps_pure ?_
      rwa [Array.size_map]

end GraphMeasures
