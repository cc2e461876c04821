import GraphMeasures.Proofs.Graph.Lookup
import GraphMeasures.Proofs.Score

/-!
# GraphMeasures — every fire burns a tree

While a fire burns, nodes are reached one by one, and each of them along one edge
from a node that was reached before. Ways are offered to a fire when a node passes
it on, and are taken later and in any order; a way whose node was reached meanwhile
is dropped. So what is known of a way is where it comes from and along which edge,
and that it leads to a new node is known when it is taken (`Kindled.reach`).

* `Tree` — what a fire has burnt, kept by every edge it goes along (`Tree.push`).
* `Burns` — a fire whose nodes pass it on as long as there are any, with no bound on
  their number. No fire reaches more nodes than there are, so the bound of `burn` cuts
  none short (`Kindled.burnFrom`).
* `burn_tree` — every fire of every graph that can be reached and is indexed.
-/

namespace GraphMeasures

open Link

/-! ## Edges that lead on -/

namespace Graph

variable {W : Type} {n : Nat} {weighted directed : Bool} {links : List (Link W)} {g : Graph W}

/-- The edge with an id leads from one node to another: along its direction in a
directed graph, and both ways in an undirected one. -/
def Leads (g : Graph W) (id u v : Nat) : Prop :=
  ∃ e ∈ g.edges, e.id = some id ∧ SamePair g.directed (e.source, e.target) (u, v)

/-- Half-edges lead along the edges whose ids they carry, and the ids tell the edges
apart. -/
structure Navigable (g : Graph W) : Prop where
  within : ∀ u, ∀ half ∈ g.neighbours u, half.node < g.nodeCount
  leads : ∀ u, ∀ half ∈ g.neighbours u, ∀ id, half.id = some id → g.Leads id u half.node
  unique : ∀ e ∈ g.edges, ∀ e' ∈ g.edges, ∀ id, e.id = some id → e'.id = some id → e = e'
  lt_bound : ∀ e ∈ g.edges, ∀ id, e.id = some id → id < g.edgeIdBound

/-- In a graph of links with numbered edges, half-edges lead to nodes, and the
ids along them are those of edges that join the two nodes. An edge is known by
its id. -/
theorem navigable_indexed (hwithin : Within n links) :
    (indexed n weighted directed links).Navigable := by
  -- every half-edge at a node is that of a link
  have hhalf : ∀ u, ∀ half ∈ (indexed n weighted directed links).neighbours u,
      ∃ k l, links[k]? = some l ∧ l.standsAt directed true u = true ∧
        half = halfOf directed true links (some ∘ idOf directed links) u (l, k) := by
    intro u half hmem
    rw [neighbours_ofLinks hwithin] at hmem
    obtain ⟨p, hp⟩ := List.mem_iff_getElem?.1 hmem
    obtain ⟨k, l, hl, hstands, -, heq⟩ := getElem?_halves_iff.1 hp
    exact ⟨k, l, hl, hstands, heq⟩
  constructor
  case within =>
    intro u half hmem
    obtain ⟨k, l, hl, hstands, rfl⟩ := hhalf u half hmem
    have hsame := facing_eq_iff.2 (samePair_across hstands)
    rw [nodeCount_ofLinks]
    exact (lt_of_facing_eq hwithin (List.mem_of_getElem? hl) hsame).2
  case leads =>
    intro u half hmem id hid
    obtain ⟨k, l, hl, hstands, rfl⟩ := hhalf u half hmem
    exact ⟨_, (mem_edges_ofLinks hwithin).2 ⟨k, l, hl, rfl⟩, hid,
      samePair_edgeOf_iff.2 (facing_eq_iff.2 (samePair_across hstands))⟩
  case unique =>
    intro e he e' he' id hid hid'
    obtain ⟨k, l, hl, rfl⟩ := (mem_edges_ofLinks hwithin).1 he
    obtain ⟨k', l', hl', rfl⟩ := (mem_edges_ofLinks hwithin).1 he'
    -- different links have different ids
    have hk : idOf directed links k = idOf directed links k' :=
      Option.some.inj (hid.trans hid'.symm)
    obtain rfl := (idOf_inj (List.getElem?_eq_some_iff.1 hl).1
      (List.getElem?_eq_some_iff.1 hl').1).1 hk
    rw [Option.some.inj (hl.symm.trans hl')]
  case lt_bound =>
    intro e he id hid
    obtain ⟨k, l, hl, rfl⟩ := (mem_edges_ofLinks hwithin).1 he
    obtain rfl := Option.some.inj hid
    exact idOf_lt (List.getElem?_eq_some_iff.1 hl).1

/-- A graph that can be reached and has an index is such a graph of links. -/
theorem navigable_run {steps : List Step}
    (hids : ((empty n weighted directed).run steps).hasEdgeIds = true) :
    ((empty n weighted directed).run steps).Navigable := by
  rw [current_run n weighted directed steps hids]
  exact navigable_indexed (holds_run n weighted directed steps).within

end Graph

namespace Score.Fire

variable {W ρ : Type} {g : Graph W} {order burnt : Array Nat} {fire next : Fire}
variable {i u v id : Nat}

/-! ## Trees -/

/-- Nodes in an order and edges such that the edge with position `j` leads from one of
the nodes up to position `j` to the node with position `j + 1`. No node occurs twice. -/
structure Tree (g : Graph W) (order burnt : Array Nat) : Prop where
  size : order.size = burnt.size + 1
  nodup : order.toList.Nodup
  within : ∀ v ∈ order, v < g.nodeCount
  leads : ∀ (j : Nat) id, burnt[j]? = some id → ∃ i ≤ j, ∃ u v : Nat,
    order[i]? = some u ∧ order[j + 1]? = some v ∧ g.Leads id u v

theorem getElem?_push_of_eq_some {xs : Array Nat} {x y : Nat} (h : xs[i]? = some x) :
    (xs.push y)[i]? = some x := by
  rw [Array.getElem?_push, if_neg (Array.getElem?_eq_some_iff.1 h).1.ne, h]

/-- One more edge leads from a node of the tree to a new one. Only the last
entry has to be looked at: for all others the tree says it already, and nothing
is moved. -/
theorem Tree.push (h : Tree g order burnt) (hu : order[i]? = some u) (hnew : v ∉ order)
    (hv : v < g.nodeCount) (hleads : g.Leads id u v) : Tree g (order.push v) (burnt.push id) where
  size := by rw [Array.size_push, Array.size_push, h.size]
  nodup := by
    rw [Array.toList_push, List.nodup_append]
    refine ⟨h.nodup, List.nodup_singleton v, fun a ha b hb hab => hnew ?_⟩
    obtain rfl := List.mem_singleton.1 hb
    exact Array.mem_toList_iff.1 (hab ▸ ha)
  within := by
    intro w hw
    rcases Array.mem_push.1 hw with hw | rfl
    · exact h.within w hw
    · exact hv
  leads := by
    intro j id' hj
    rw [Array.getElem?_push] at hj
    split at hj
    · next hlast =>
      -- the new edge, which leads to the new node at the end
      obtain rfl := Option.some.inj hj
      have hi := (Array.getElem?_eq_some_iff.1 hu).1
      have hsize := h.size
      refine ⟨i, by omega, u, v, getElem?_push_of_eq_some hu, ?_, hleads⟩
      rw [Array.getElem?_push, if_pos (by omega)]
    · obtain ⟨i', hi', u', v', hu', hv', hleads'⟩ := h.leads j id' hj
      exact ⟨i', hi', u', v', getElem?_push_of_eq_some hu', getElem?_push_of_eq_some hv', hleads'⟩

theorem Tree.position_inj (h : Tree g order burnt) {j : Nat} (hi : order[i]? = some v)
    (hj : order[j]? = some v) : i = j := by
  rw [← Array.getElem?_toList] at hi hj
  exact (List.getElem?_inj (List.getElem?_eq_some_iff.1 hi).1 h.nodup).1 (hi.trans hj.symm)

/-- No more nodes are reached than there are. -/
theorem Tree.size_le (h : Tree g order burnt) : order.size ≤ g.nodeCount := by
  have hsub : order.toList ⊆ List.range g.nodeCount := fun v hv =>
    List.mem_range.2 (h.within v (Array.mem_toList_iff.1 hv))
  have hle := (List.subperm_of_subset h.nodup hsub).length_le
  rwa [Array.length_toList, List.length_range] at hle

/-- No edge is burnt twice: the second time it would lead to a node that comes
before both of its ends, or to the same node again. Parallel edges are different
edges, but they lead to the same node, so at most one of them is burnt. -/
theorem Tree.nodup_burnt (hg : g.Navigable) (h : Tree g order burnt) : burnt.toList.Nodup := by
  -- an edge at two places would lead to one node twice, or once in each direction, and
  -- the places of the nodes exclude both
  rw [List.nodup_iff_getElem?_ne_getElem?]
  intro j k hjk hk hsame
  have hkid : burnt[k]? = some burnt[k] := Array.getElem?_eq_getElem hk
  have hjid : burnt[j]? = some burnt[k] := by
    rw [Array.getElem?_toList, Array.getElem?_toList] at hsame
    rw [hsame, hkid]
  obtain ⟨i, hi, u, v, hu, hv, e, he, hid, hends⟩ := h.leads j _ hjid
  obtain ⟨i', hi', u', v', hu', hv', e', he', hid', hends'⟩ := h.leads k _ hkid
  obtain rfl := hg.unique e he e' he' _ hid hid'
  rcases hends.symm.trans hends' with hends | ⟨-, hends⟩
  · obtain ⟨-, rfl⟩ := Prod.mk.inj hends
    have heq := h.position_inj hv hv'
    omega
  · obtain ⟨rfl, rfl⟩ := Prod.mk.inj hends
    have heq := h.position_inj hu hv'
    omega

/-- A loop leads to no new node, so it is never burnt: its two ends would be one
node in two places of the order. -/
theorem Tree.ne_of_mem_burnt (hg : g.Navigable) (h : Tree g order burnt) (hid : id ∈ burnt)
    {e : Edge W} (he : e ∈ g.edges) (heid : e.id = some id) : e.source ≠ e.target := by
  intro hloop
  obtain ⟨j, hj⟩ := Array.mem_iff_getElem?.1 hid
  obtain ⟨i, hi, u, v, hu, hv, e', he', heid', hends⟩ := h.leads j id hj
  obtain rfl := hg.unique e he e' he' id heid heid'
  -- both ends are one node, which would have two positions
  have huv : u = v := by
    rcases hends with hends | ⟨-, hends⟩
    · obtain ⟨rfl, rfl⟩ := Prod.mk.inj hends
      exact hloop
    · obtain ⟨rfl, rfl⟩ := Prod.mk.inj hends
      exact hloop.symm
  have heq := h.position_inj hu (huv ▸ hv)
  omega

/-- What is burnt has an id below the bound, so it can be counted. -/
theorem Tree.lt_bound_of_mem_burnt (hg : g.Navigable) (h : Tree g order burnt) (hid : id ∈ burnt) :
    id < g.edgeIdBound := by
  obtain ⟨j, hj⟩ := Array.mem_iff_getElem?.1 hid
  obtain ⟨-, -, -, -, -, -, e, he, heid, -⟩ := h.leads j id hj
  exact hg.lt_bound e he id heid

/-! ## While a fire burns -/

/-- A fire has burnt a tree, and the nodes with a flag are those of the tree. -/
structure Kindled (g : Graph W) (fire : Fire) : Prop where
  tree : Tree g fire.order fire.burnt
  size : fire.visited.size = g.nodeCount
  flag : ∀ v : Nat, fire.visited[v]? = some true ↔ v ∈ fire.order

/-- The nodes of one fire are those of the other, and maybe more behind them. -/
def Grows (fire next : Fire) : Prop :=
  ∀ (i v : Nat), fire.order[i]? = some v → next.order[i]? = some v

/-- A way that comes from a node. -/
def From (g : Graph W) (u : Nat) (way : Nat × Nat) : Prop :=
  way.1 < g.nodeCount ∧ g.Leads way.2 u way.1

/-- A fire that starts has reached one node, and burnt nothing. The flag of this
node is set, and no other. -/
theorem kindled_start (first : Fin g.nodeCount) : Kindled g (start first) where
  -- the fire has reached the first node, which no edge has led to
  tree :=
    { size := rfl
      nodup := List.nodup_singleton _
      within := by
        intro v hv
        obtain rfl := List.mem_singleton.1 (Array.mem_toList_iff.2 hv)
        exact first.isLt
      leads := by
        intro j id hj
        cases hj }
  size := by rw [start, Array.size_setIfInBounds, Array.size_replicate]
  flag := by
    intro v
    have hlt := first.isLt
    simp only [start, Array.getElem?_setIfInBounds, Array.size_replicate, hlt, if_true,
      Array.getElem?_replicate, Array.mem_singleton]
    split
    · next heq => simp [heq]
    · next hne =>
      split <;> simp [Ne.symm hne]

/-- A way to a node without a flag is gone: the node comes to the end of the
order, and its edge to the end of what is burnt, so the tree has one more
edge. -/
theorem Kindled.reach (h : Kindled g fire) (hu : fire.order[i]? = some u)
    (hway : From g u (v, id)) (hnew : fire.visited[v]? ≠ some true) :
    ∃ next, fire.reach v id = .ok next ∧ Kindled g next ∧ Grows fire next := by
  obtain ⟨hv, hleads⟩ := hway
  have hlt : v < fire.visited.size := h.size ▸ hv
  have hnotMem : v ∉ fire.order := fun hmem => hnew ((h.flag v).2 hmem)
  -- the node is put behind the others, and its flag is set
  refine ⟨_, reach_eq_ok id hlt, ⟨h.tree.push hu hnotMem hv hleads, ?_, ?_⟩, ?_⟩
  · rw [Array.size_modify, h.size]
  · intro w
    rw [Array.getElem?_modify, Array.mem_push]
    by_cases hw : v = w
    · subst hw
      simp [hlt]
    · rw [if_neg hw, h.flag]
      exact ⟨Or.inl, fun hmem => hmem.resolve_right (Ne.symm hw)⟩
  · exact fun j w hj => getElem?_push_of_eq_some hj

/-- A node passes the fire on along ways that come from it, whatever is drawn. A
way to a node that was reached meanwhile is taken out, and the others come from
it as before. -/
theorem Kindled.spread (draws : Draws ρ) (budget : Nat) (ways : Array (Nat × Nat)) (fire : Fire)
    (state : ρ) (h : Kindled g fire) (hu : fire.order[i]? = some u)
    (hways : ∀ way ∈ ways, From g u way) :
    ∃ next after, spread draws budget ways fire state = .ok (next, after) ∧
      Kindled g next ∧ Grows fire next := by
  induction budget, ways, fire, state using spread.induct draws with
  | case1 budget ways fire state hgo i after hbelow node id hway ihReached ihReach =>
    have hfrom : From g u (node, id) := hway ▸ hways ways[i] (Array.getElem_mem _)
    have hrest : ∀ way ∈ takeOut ways i, From g u way := fun way hmem =>
      hways way (mem_of_mem_takeOut hmem)
    have hlt : node < fire.visited.size := h.size ▸ hfrom.1
    rw [Fire.spread, dif_pos hgo, hbelow]
    simp only [hway, hasReached_eq_ok hlt]
    -- a flag that was set meanwhile sends the way back
    cases hflag : fire.visited[node] with
    | true => exact ihReached h hu hrest
    | false =>
      have hnew : fire.visited[node]? ≠ some true := by
        rw [Array.getElem?_eq_getElem hlt, hflag]
        simp
      obtain ⟨next, hnext, hkindled, hgrows⟩ := h.reach hu hfrom hnew
      obtain ⟨last, final, hlast, hkindledLast, hgrowsLast⟩ :=
        ihReach next hkindled (hgrows _ _ hu) hrest
      refine ⟨last, final, ?_, hkindledLast, fun j w hj => hgrowsLast j w (hgrows j w hj)⟩
      simp only [hnext]
      exact hlast
  | case2 budget ways fire state hstop =>
    exact ⟨fire, state, by rw [Fire.spread, dif_neg hstop], h, fun _ _ hj => hj⟩

/-- A fire whose nodes from a position on pass it on, as long as there are any. -/
inductive Burns (draws : Draws ρ) (g : Graph W) : Nat → Fire → ρ → Fire → ρ → Prop
  | out {position : Nat} {fire : Fire} {state : ρ} (hend : fire.order[position]? = none) :
      Burns draws g position fire state fire state
  | on {position node : Nat} {fire next last : Fire} {state after final : ρ}
      {ways : List (Nat × Nat)} (hnode : fire.order[position]? = some node)
      (hways : fire.ways (g.neighbours node) = .ok ways)
      (hspread : spread draws (draws.budget state).1 ways.toArray fire (draws.budget state).2 =
        .ok (next, after))
      (hrest : Burns draws g (position + 1) next after last final) :
      Burns draws g position fire state last final

/-- As many nodes as there are in the graph are enough for any fire. With every
step the position goes up by one and the fuel down, and no position is beyond
the nodes that were reached; so when the fuel is spent there is nobody left to
pass the fire on. -/
theorem Kindled.burnFrom (hg : g.Navigable) (draws : Draws ρ) (fuel position : Nat) (fire : Fire)
    (state : ρ) (h : Kindled g fire) (hfuel : g.nodeCount ≤ position + fuel) :
    ∃ last final, burnFrom draws g fuel position fire state = .ok (last, final) ∧
      Kindled g last ∧ Grows fire last ∧ Burns draws g position fire state last final := by
  -- node by node; every node that has passed the fire on leaves one less
  induction fuel generalizing position fire state with
  | zero =>
    have hend : fire.order[position]? = none := Array.getElem?_eq_none (h.tree.size_le.trans hfuel)
    exact ⟨fire, state, rfl, h, fun _ _ hj => hj, .out hend⟩
  | succ fuel ih =>
    cases hnode : fire.order[position]? with
    | none =>
      refine ⟨fire, state, ?_, h, fun _ _ hj => hj, .out hnode⟩
      rw [Fire.burnFrom, hnode]
    | some node =>
      have hhalves : ∀ half ∈ g.neighbours node, half.node < fire.visited.size := by
        rw [h.size]
        exact hg.within node
      obtain ⟨ways, hways, hmem⟩ := exists_ways hhalves
      have hfrom : ∀ way ∈ ways.toArray, From g node way := by
        rintro ⟨far, id⟩ hway
        obtain ⟨half, hhalf, rfl, hid⟩ := hmem _ (List.mem_toArray.1 hway)
        exact ⟨hg.within node half hhalf, hg.leads node half hhalf id hid⟩
      obtain ⟨next, after, hspread, hkindled, hgrows⟩ :=
        h.spread draws (draws.budget state).1 ways.toArray fire (draws.budget state).2 hnode hfrom
      obtain ⟨last, final, hlast, hkindledLast, hgrowsLast, hburns⟩ :=
        ih (position + 1) next after hkindled (by omega)
      refine ⟨last, final, ?_, hkindledLast, fun j w hj => hgrowsLast j w (hgrows j w hj),
        .on hnode hways hspread hburns⟩
      rw [burnFrom_succ hnode hways, hspread]
      exact hlast

/-- **Every fire burns a tree.** In every graph that can be reached, has a node and is
indexed, whatever is drawn, a fire ends when no node is left to pass it on. From the
node where it starts, every edge it goes along leads to a node that it has not reached
before; so it goes along fewer edges than there are nodes, along each once, and along no
loop. -/
theorem burn_tree (draws : Draws ρ) (n : Nat) (weighted directed : Bool) (steps : List Step)
    (hids : ((Graph.empty n weighted directed).run steps).hasEdgeIds = true)
    (hnodes : 0 < ((Graph.empty n weighted directed).run steps).nodeCount) (state : ρ) :
    let g := (Graph.empty n weighted directed).run steps
    let first := draws.below g.nodeCount hnodes state
    ∃ fire after, burn draws g state = .ok (fire, after) ∧
      Burns draws g 0 (start first.1) first.2 fire after ∧
      fire.order[0]? = some first.1.val ∧
      Tree g fire.order fire.burnt ∧
      fire.burnt.size ≤ g.nodeCount - 1 ∧ fire.burnt.toList.Nodup ∧
      ∀ id ∈ fire.burnt, id < g.edgeIdBound ∧
        ∀ e ∈ g.edges, e.id = some id → e.source ≠ e.target := by
  intro g first
  have hg : g.Navigable := Graph.navigable_run hids
  obtain ⟨fire, after, hfire, hkindled, hgrows, hburns⟩ :=
    (kindled_start first.1).burnFrom hg draws g.nodeCount 0 _ first.2 (Nat.zero_add _).ge
  have htree := hkindled.tree
  refine ⟨fire, after, ?_, hburns, hgrows 0 _ rfl, htree, ?_, htree.nodup_burnt hg, fun id hid => ?_⟩
  · rw [burn, dif_pos hnodes]
    exact hfire
  · have hsize := htree.size
    have hle := htree.size_le
    omega
  · exact ⟨htree.lt_bound_of_mem_burnt hg hid, fun e he heid => htree.ne_of_mem_burnt hg hid he heid⟩

/-- A fire ends and has burnt a tree, whatever is drawn. -/
theorem exists_burn (hg : g.Navigable) (hnodes : 0 < g.nodeCount) (draws : Draws ρ) (state : ρ) :
    ∃ fire after, burn draws g state = .ok (fire, after) ∧ Tree g fire.order fire.burnt := by
  obtain ⟨fire, after, hfire, hkindled, -⟩ :=
    (kindled_start (draws.below g.nodeCount hnodes state).1).burnFrom hg draws g.nodeCount 0 _
      (draws.below g.nodeCount hnodes state).2 (Nat.zero_add _).ge
  refine ⟨fire, after, ?_, hkindled.tree⟩
  rw [burn, dif_pos hnodes]
  exact hfire

/-- The fires of a run end, each with ids of edges of the graph. -/
theorem exists_fire (f : ForestFire) (hg : g.Navigable) (hnodes : 0 < g.nodeCount)
    (seed : UInt64) (number : Nat) :
    ∃ ids, f.fire g seed number = .ok ids ∧ ∀ id ∈ ids, id < g.edgeIdBound := by
  obtain ⟨fire, after, hfire, htree⟩ :=
    exists_burn hg hnodes (.random f.spread) (.ofStream seed (.ofNat number))
  refine ⟨fire.burnt, ?_, fun id hid => htree.lt_bound_of_mem_burnt hg hid⟩
  rw [ForestFire.fire, hfire]
  rfl

/-- Passes a fire on to two neighbours and takes the first of what there is to choose
from. -/
def eager : Draws Unit where
  budget := fun state => (2, state)
  below := fun _ pos state => (⟨0, pos⟩, state)

set_option maxRecDepth 4096 in

/-- Of two parallel edges one is burnt, although the fire could go on: the node
that the other leads to has been reached by then. -/
theorem burn_tree_parallel :
    let steps : List Step := [.add 1 1 1.0, .add 0 1 1.0, .add 1 0 1.0, .index]
    let g := (Graph.empty 2 false false).run steps
    g.hasEdgeIds = true ∧ 0 < g.nodeCount ∧
      ∃ fire after, burn eager g () = .ok (fire, after) ∧ Tree g fire.order fire.burnt ∧
        fire.burnt = #[1] := by
  intro steps g
  have hids : g.hasEdgeIds = true := rfl
  have hnodes : 0 < g.nodeCount := by decide
  obtain ⟨fire, after, hfire, -, -, htree, -⟩ := burn_tree eager 2 false false steps hids hnodes ()
  have hburnt : (burn eager g ()).toOption.map (·.1.burnt) = some #[1] := by decide +kernel
  rw [hfire] at hburnt
  exact ⟨hids, hnodes, fire, after, hfire, htree, Option.some.inj hburnt⟩

end Score.Fire

end GraphMeasures
