import Mathlib.Order.Bounds.Basic
import GraphMeasures.Proofs.Graph.Indexing

/-!
# GraphMeasures — which id the index finds

The index of a graph is filled while the edges are numbered, with keys that are
made of the ends of the edges; it is asked with keys that are made of the ends a
caller names. Both are the ends as an edge is listed (`facing`), so the index knows
every edge, and of edges with the same ends it has kept the one with the least id.

* `SamePair` — when two pairs of nodes are the ends of one edge.
* `isLeast_idOf` — of the links with the same ends the first one has the least id.
* `edgeId_ofLinks_eq_ok_iff` — what is found is the first link with the ends.
* `Resolves` — what the lookup of a numbered graph answers, in terms of its edges;
  every graph that can be reached and has an index is such a graph (`edgeId_run`).
-/

namespace GraphMeasures

open Link

/-! ## Pairs of ends -/

/-- Two pairs of nodes are the same ends; in which order they stand does not matter
when the graph is undirected. -/
def SamePair (directed : Bool) (a b : Nat × Nat) : Prop :=
  a = b ∨ directed = false ∧ a = b.swap

instance (directed : Bool) (a b : Nat × Nat) : Decidable (SamePair directed a b) :=
  inferInstanceAs (Decidable (_ ∨ _))

section SamePair

variable {directed : Bool} {a b c : Nat × Nat}

/-- Edges are listed alike exactly when they have the same ends, in a directed
graph in the same order and in an undirected one in either. -/
theorem facing_eq_iff : facing directed a = facing directed b ↔ SamePair directed a b := by
  obtain ⟨a₁, a₂⟩ := a
  obtain ⟨b₁, b₂⟩ := b
  cases directed with
  | true => simp [facing, SamePair]
  | false =>
    simp only [SamePair, facing, Bool.false_or, decide_eq_true_eq, true_and, Prod.swap_prod_mk]
    split <;> split <;> simp only [Prod.mk.injEq] <;> omega

/-- Ends that are listed stay as they are: to put the ends in the order of their
listing twice is the same as once. -/
theorem facing_facing (directed : Bool) (a : Nat × Nat) :
    facing directed (facing directed a) = facing directed a := by
  rw [facing_eq_iff]
  unfold facing
  split
  · exact Or.inl rfl
  · next hturned =>
    refine Or.inr ⟨?_, rfl⟩
    cases directed with
    | true => exact absurd rfl hturned
    | false => rfl

theorem SamePair.symm (h : SamePair directed a b) : SamePair directed b a :=
  facing_eq_iff.1 (facing_eq_iff.2 h).symm

theorem SamePair.trans (hab : SamePair directed a b) (hbc : SamePair directed b c) :
    SamePair directed a c :=
  facing_eq_iff.1 ((facing_eq_iff.2 hab).trans (facing_eq_iff.2 hbc))

theorem samePair_swap (h : directed = false) (u v : Nat) : SamePair directed (u, v) (v, u) :=
  Or.inr ⟨h, rfl⟩

/-- How a pair is listed makes no difference to which pair it is. -/
theorem samePair_facing_iff : SamePair directed (facing directed a) b ↔ SamePair directed a b := by
  rw [← facing_eq_iff, ← facing_eq_iff, facing_facing]

/-- A half-edge at a node leads to the other end of its link. So the links with
a given pair of ends are those that stand at the first and lead to the
second. -/
theorem samePair_ends_iff {W : Type} {l : Link W} {u v : Nat} :
    SamePair directed l.ends (u, v) ↔ l.standsAt directed true u = true ∧ l.across u = v := by
  cases directed <;> grind [SamePair, standsAt, across, ends]

/-- A link has the pair of ends that its half-edge shows. -/
theorem samePair_across {W : Type} {l : Link W} {node : Nat}
    (h : l.standsAt directed true node = true) : SamePair directed l.ends (node, l.across node) :=
  samePair_ends_iff.2 ⟨h, rfl⟩

end SamePair

/-! ## The first link with some ends -/

namespace Link

variable {W : Type} {directed : Bool} {links : List (Link W)} {ends : Nat × Nat} {j k : Nat}
variable {l m : Link W}

/-- The first link with some ends has them, and none of those before it has.
There is at most one such position, so the lookup names it exactly. -/
theorem firstWith_eq_some_iff :
    firstWith directed links ends = some k ↔
      (∃ l, links[k]? = some l ∧ facing directed l.ends = ends) ∧
        ∀ j < k, ∀ m, links[j]? = some m → facing directed m.ends ≠ ends := by
  rw [firstWith, List.findIdx?_eq_some_iff_getElem]
  constructor
  · rintro ⟨hk, hends, hbefore⟩
    refine ⟨⟨links[k], List.getElem?_eq_getElem hk, of_decide_eq_true hends⟩, fun j hj m hm hsame => ?_⟩
    obtain ⟨hlt, rfl⟩ := List.getElem?_eq_some_iff.1 hm
    exact hbefore j hj (decide_eq_true hsame)
  · rintro ⟨⟨l, hl, hends⟩, hbefore⟩
    obtain ⟨hk, rfl⟩ := List.getElem?_eq_some_iff.1 hl
    refine ⟨hk, decide_eq_true hends, fun j hj hsame => ?_⟩
    exact hbefore j hj _ (List.getElem?_eq_getElem (hj.trans hk)) (of_decide_eq_true hsame)

/-- There is no first link with some ends if there is none. -/
theorem firstWith_eq_none_iff :
    firstWith directed links ends = none ↔ ∀ l ∈ links, facing directed l.ends ≠ ends := by
  simp [firstWith]

theorem lt_length_of_firstWith (h : firstWith directed links ends = some k) : k < links.length := by
  obtain ⟨⟨l, hl, -⟩, -⟩ := firstWith_eq_some_iff.1 h
  exact (List.getElem?_eq_some_iff.1 hl).1

theorem idOf_lt (hk : k < links.length) : idOf directed links k < links.length :=
  StableOrder.place_lt hk

/-- Different links have different ids. -/
theorem idOf_inj (hj : j < links.length) (hk : k < links.length) :
    idOf directed links j = idOf directed links k ↔ j = k :=
  (StableOrder.place_injOn (Link.node directed) links).eq_iff hj hk

/-- Links that are listed at one node are numbered in their order. Between nodes
this need not be so: the smaller node comes first, whatever was added first. -/
theorem idOf_le_idOf (hl : links[j]? = some l) (hm : links[k]? = some m)
    (hnode : l.node directed = m.node directed) (hjk : j ≤ k) :
    idOf directed links j ≤ idOf directed links k := by
  have hprefix : (links.take j).Sublist (links.take k) := by
    rw [← Nat.min_eq_left hjk, ← List.take_take]
    exact List.take_sublist j (links.take k)
  rw [idOf, idOf, StableOrder.place_eq hl, StableOrder.place_eq hm, hnode]
  exact Nat.add_le_add_left hprefix.countP_le _

/-- Of the links with the same ends the first one has the least id, since they
are all listed at one node. -/
theorem isLeast_idOf (h : firstWith directed links ends = some k) :
    IsLeast {id | ∃ j l, links[j]? = some l ∧ facing directed l.ends = ends ∧
      idOf directed links j = id} (idOf directed links k) := by
  obtain ⟨⟨l, hl, hends⟩, hbefore⟩ := firstWith_eq_some_iff.1 h
  refine ⟨⟨k, l, hl, hends, rfl⟩, ?_⟩
  rintro id ⟨j, m, hm, hmends, rfl⟩
  -- no link before the first one has these ends
  have hkj : k ≤ j := Nat.le_of_not_lt fun hlt => hbefore j hlt m hm hmends
  exact idOf_le_idOf hl hm (congrArg Prod.fst (hends.trans hmends.symm)) hkj

end Link

namespace Graph

variable {W : Type} {n : Nat} {weighted directed : Bool} {links : List (Link W)}
variable {ids : Nat → Option Nat} {index : Option EdgeIndex}

/-! ## Looking up -/

/-- The edges are those of the links: each one comes from a position in their
list, with the ends in the order of listing and the id of that position. -/
theorem mem_edges_ofLinks (hwithin : Within n links) {e : Edge W} :
    e ∈ (ofLinks n weighted directed links ids index).edges ↔
      ∃ k l, links[k]? = some l ∧ edgeOf directed ids (l, k) = e := by
  rw [edges_ofLinks, List.mem_map]
  constructor
  · rintro ⟨⟨l, k⟩, hl, rfl⟩
    exact ⟨k, l, List.mem_zipIdx_iff_getElem?.1 (StableOrder.mem_buckets.1 hl).1, rfl⟩
  · rintro ⟨k, l, hl, rfl⟩
    refine ⟨(l, k), StableOrder.mem_buckets.2 ⟨List.mem_zipIdx_iff_getElem?.2 hl, ?_⟩, rfl⟩
    exact hwithin.node_lt (List.mem_of_getElem? hl) directed

/-- An edge has the ends of its link, as a pair. -/
theorem samePair_edgeOf_iff {l : Link W × Nat} {ends : Nat × Nat} :
    SamePair directed ((edgeOf directed ids l).source, (edgeOf directed ids l).target) ends ↔
      facing directed l.1.ends = facing directed ends :=
  samePair_facing_iff.trans facing_eq_iff.symm

/-- Ends that are those of a link are nodes of the graph. -/
theorem lt_of_facing_eq (hwithin : Within n links) {l : Link W} (hl : l ∈ links) {u v : Nat}
    (h : facing directed l.ends = facing directed (u, v)) : u < n ∧ v < n := by
  obtain ⟨hs, ht⟩ := hwithin l hl
  rcases facing_eq_iff.1 h with hsame | ⟨-, hturned⟩
  · obtain ⟨rfl, rfl⟩ := Prod.mk.inj hsame
    exact ⟨hs, ht⟩
  · obtain ⟨rfl, rfl⟩ := Prod.mk.inj hturned
    exact ⟨ht, hs⟩

/-- The graph of the links as indexing leaves it. -/
abbrev indexed (n : Nat) (weighted directed : Bool) (links : List (Link W)) : Graph W :=
  ofLinks n weighted directed links (some ∘ idOf directed links) (some (table n directed links))

/-- What is found is the first link with the ends. The table keeps for every
pair the id that was entered first, and the links at one node are entered in
their order. -/
theorem edgeId_ofLinks_eq_ok_iff (hwithin : Within n links) {u v id : Nat} :
    (indexed n weighted directed links).edgeId u v = .ok id ↔
      ∃ k, firstWith directed links (facing directed (u, v)) = some k ∧
        idOf directed links k = id := by
  constructor
  · intro h
    by_cases hu : u < n
    · by_cases hv : v < n
      · rw [edgeId_ofLinks hu hv] at h
        cases hfirst : firstWith directed links (facing directed (u, v)) with
        | none =>
          rw [hfirst] at h
          cases h
        | some k =>
          rw [hfirst] at h
          exact ⟨k, rfl, Except.ok.inj h⟩
      · rw [edgeId, checkNode_ofLinks hu, checkNode, nodeCount_ofLinks, if_neg hv] at h
        cases h
    · rw [edgeId, checkNode, nodeCount_ofLinks, if_neg hu] at h
      cases h
  · rintro ⟨k, hfirst, rfl⟩
    -- the ends of a link are nodes
    obtain ⟨⟨l, hl, hends⟩, -⟩ := firstWith_eq_some_iff.1 hfirst
    obtain ⟨hu, hv⟩ := lt_of_facing_eq hwithin (List.mem_of_getElem? hl) hends
    rw [edgeId_ofLinks hu hv, hfirst]

/-- The ids of the edges that join two nodes: from the one to the other in a
directed graph, in any direction in an undirected one. -/
def idsBetween (g : Graph W) (u v : Nat) : Set Nat :=
  {id | ∃ e ∈ g.edges, SamePair g.directed (e.source, e.target) (u, v) ∧ e.id = some id}

/-- The ids between two nodes are those of the links that join them, all
parallel ones included; the lookup gives the least of these. -/
theorem idsBetween_indexed (hwithin : Within n links) (u v : Nat) :
    (indexed n weighted directed links).idsBetween u v =
      {id | ∃ k l, links[k]? = some l ∧ facing directed l.ends = facing directed (u, v) ∧
        idOf directed links k = id} := by
  ext id
  constructor
  · rintro ⟨e, he, hends, hid⟩
    obtain ⟨k, l, hl, rfl⟩ := (mem_edges_ofLinks hwithin).1 he
    exact ⟨k, l, hl, samePair_edgeOf_iff.1 hends, Option.some.inj hid⟩
  · rintro ⟨k, l, hl, hends, rfl⟩
    exact ⟨_, (mem_edges_ofLinks hwithin).2 ⟨k, l, hl, rfl⟩, samePair_edgeOf_iff.2 hends, rfl⟩

/-- What the lookup of a graph answers, in terms of its edges. -/
structure Resolves (g : Graph W) : Prop where
  /-- The first of two nodes that does not exist is named. -/
  source : ∀ u v, g.nodeCount ≤ u → g.edgeId u v = .error (.invalidNodeId u g.nodeCount)
  target : ∀ u v, u < g.nodeCount → g.nodeCount ≤ v →
    g.edgeId u v = .error (.invalidNodeId v g.nodeCount)
  least : ∀ u v id, g.edgeId u v = .ok id ↔ IsLeast (g.idsBetween u v) id
  found : ∀ u v, ∀ e ∈ g.edges, SamePair g.directed (e.source, e.target) (u, v) →
    ∃ id, g.edgeId u v = .ok id
  missing : ∀ u v, u < g.nodeCount → v < g.nodeCount →
    (g.edgeId u v = .error (.missingEdge u v) ↔
      ∀ e ∈ g.edges, ¬ SamePair g.directed (e.source, e.target) (u, v))
  comm : g.directed = false → ∀ u v id, g.edgeId u v = .ok id ↔ g.edgeId v u = .ok id
  /-- Pairs of nodes get one id exactly when they are the same pair. -/
  samePair : ∀ u v id u' v' id', g.edgeId u v = .ok id → g.edgeId u' v' = .ok id' →
    (id = id' ↔ SamePair g.directed (u, v) (u', v'))
  lt_bound : ∀ u v id, g.edgeId u v = .ok id → id < g.edgeIdBound

/-- A graph of links whose edges are numbered resolves all pairs of nodes. Every
part comes down to the first link with the ends: it is there exactly if any is,
it has the least id, and the same one is found with the ends in the other
order. -/
theorem resolves_indexed (hwithin : Within n links) :
    (indexed n weighted directed links).Resolves := by
  have hdirected : (indexed n weighted directed links).directed = directed := rfl
  constructor
  case source =>
    intro u v hu
    rw [nodeCount_ofLinks] at hu ⊢
    rw [edgeId, checkNode, nodeCount_ofLinks, if_neg (Nat.not_lt.2 hu)]
    rfl
  case target =>
    intro u v hu hv
    rw [nodeCount_ofLinks] at hu hv ⊢
    rw [edgeId, checkNode_ofLinks hu, checkNode, nodeCount_ofLinks, if_neg (Nat.not_lt.2 hv)]
    rfl
  case least =>
    intro u v id
    rw [edgeId_ofLinks_eq_ok_iff hwithin, idsBetween_indexed hwithin]
    constructor
    · rintro ⟨k, hfirst, rfl⟩
      exact isLeast_idOf hfirst
    · intro hleast
      -- some link has these ends, so there is a first one, and its id is the least as well
      obtain ⟨j, l, hl, hends, -⟩ := hleast.1
      cases hfirst : firstWith directed links (facing directed (u, v)) with
      | none => exact absurd hends (firstWith_eq_none_iff.1 hfirst l (List.mem_of_getElem? hl))
      | some k => exact ⟨k, rfl, (isLeast_idOf hfirst).unique hleast⟩
  case found =>
    intro u v e he hends
    obtain ⟨k, l, hl, rfl⟩ := (mem_edges_ofLinks hwithin).1 he
    have hends := samePair_edgeOf_iff.1 hends
    cases hfirst : firstWith directed links (facing directed (u, v)) with
    | none => exact absurd hends (firstWith_eq_none_iff.1 hfirst l (List.mem_of_getElem? hl))
    | some first => exact ⟨_, (edgeId_ofLinks_eq_ok_iff hwithin).2 ⟨first, hfirst, rfl⟩⟩
  case missing =>
    intro u v hu hv
    rw [nodeCount_ofLinks] at hu hv
    have hedges : (∀ e ∈ (indexed n weighted directed links).edges,
        ¬ SamePair directed (e.source, e.target) (u, v)) ↔
          firstWith directed links (facing directed (u, v)) = none := by
      rw [firstWith_eq_none_iff]
      constructor
      · intro h l hl hends
        obtain ⟨k, hk⟩ := List.mem_iff_getElem?.1 hl
        exact h _ ((mem_edges_ofLinks hwithin).2 ⟨k, l, hk, rfl⟩) (samePair_edgeOf_iff.2 hends)
      · intro h e he hends
        obtain ⟨k, l, hl, rfl⟩ := (mem_edges_ofLinks hwithin).1 he
        exact h l (List.mem_of_getElem? hl) (samePair_edgeOf_iff.1 hends)
    rw [hdirected, hedges, edgeId_ofLinks hu hv]
    cases firstWith directed links (facing directed (u, v)) <;> simp
  case comm =>
    intro hundirected u v id
    rw [hdirected] at hundirected
    have hfacing : facing directed (u, v) = facing directed (v, u) :=
      facing_eq_iff.2 (samePair_swap hundirected u v)
    rw [edgeId_ofLinks_eq_ok_iff hwithin, edgeId_ofLinks_eq_ok_iff hwithin, hfacing]
  case samePair =>
    intro u v id u' v' id' hid hid'
    obtain ⟨k, hk, rfl⟩ := (edgeId_ofLinks_eq_ok_iff hwithin).1 hid
    obtain ⟨k', hk', rfl⟩ := (edgeId_ofLinks_eq_ok_iff hwithin).1 hid'
    rw [idOf_inj (lt_length_of_firstWith hk) (lt_length_of_firstWith hk'), hdirected,
      ← facing_eq_iff]
    constructor
    · -- one link has the ends of both pairs
      rintro rfl
      obtain ⟨⟨l, hl, hends⟩, -⟩ := firstWith_eq_some_iff.1 hk
      obtain ⟨⟨l', hl', hends'⟩, -⟩ := firstWith_eq_some_iff.1 hk'
      obtain rfl := Option.some.inj (hl.symm.trans hl')
      exact hends.symm.trans hends'
    · intro hfacing
      rw [hfacing] at hk
      exact Option.some.inj (hk.symm.trans hk')
  case lt_bound =>
    intro u v id hid
    obtain ⟨k, hk, rfl⟩ := (edgeId_ofLinks_eq_ok_iff hwithin).1 hid
    exact idOf_lt (lt_length_of_firstWith hk)

/-- Asking for the same pair in another order makes no difference where the
order of the ends makes none. -/
theorem Resolves.congr {g : Graph W} (h : g.Resolves) {a b : Nat × Nat} {id : Nat}
    (hsame : SamePair g.directed a b) : g.edgeId a.1 a.2 = .ok id ↔ g.edgeId b.1 b.2 = .ok id := by
  have hids : g.idsBetween a.1 a.2 = g.idsBetween b.1 b.2 := by
    ext id
    constructor
    · rintro ⟨e, he, hends, hid⟩
      exact ⟨e, he, hends.trans hsame, hid⟩
    · rintro ⟨e, he, hends, hid⟩
      exact ⟨e, he, hends.trans hsame.symm, hid⟩
  rw [h.least, h.least, hids]

/-- A graph that can be reached and has an index resolves all pairs of nodes.
With an index it is the graph of its links with their edges numbered, and no
other. -/
theorem resolves_run {n : Nat} {weighted directed : Bool} {steps : List Step}
    (hids : ((empty n weighted directed).run steps).hasEdgeIds = true) :
    ((empty n weighted directed).run steps).Resolves := by
  rw [current_run n weighted directed steps hids]
  exact resolves_indexed (holds_run n weighted directed steps).within

/-- **The lookup knows every edge and prefers the least id.** In every graph
that can be reached and is indexed, what it answers for two nodes is decided by
the edges that join them: a node that does not exist is named first, two nodes
that no edge joins are an error, and else the answer is the least of the ids
between them. -/
theorem edgeId_run {n : Nat} {weighted directed : Bool} {steps : List Step}
    (hids : ((empty n weighted directed).run steps).hasEdgeIds = true) :
    let g := (empty n weighted directed).run steps
    g.nodeCount = n ∧ g.directed = directed ∧ g.Resolves := by
  have hholds := holds_run n weighted directed steps
  exact ⟨hholds.nodeCount_eq, hholds.directed_eq, resolves_run hids⟩

set_option maxRecDepth 4096 in
/-- Of an edge, its reverse and a parallel one, all added after a loop, the first has
the least id. -/
theorem edgeId_run_parallel :
    let steps : List Step := [.add 1 1 1.0, .add 0 1 1.0, .add 1 0 1.0, .add 0 1 1.0, .index]
    let g := (empty 2 false false).run steps
    g.hasEdgeIds = true ∧ g.edgeId 0 1 = .ok 1 ∧ IsLeast (g.idsBetween 1 0) 1 := by
  intro steps g
  obtain ⟨-, -, hresolves⟩ := @edgeId_run 2 false false steps rfl
  have hfound : g.edgeId 0 1 = .ok 1 := rfl
  exact ⟨rfl, hfound, (hresolves.least 1 0 1).1 ((hresolves.comm rfl 0 1 1).1 hfound)⟩

end Graph

end GraphMeasures
