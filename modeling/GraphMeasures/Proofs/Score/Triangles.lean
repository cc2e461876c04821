import Mathlib.Data.Finset.Card
import Mathlib.Data.Finset.Basic
import GraphMeasures.Proofs.Graph.Indexing
import GraphMeasures.Proofs.Score

/-!
# GraphMeasures — triangles and common neighbours

The score of an edge is the number of nodes that edges join to both of its ends. It
is computed from lists in which neighbours stand as often as edges lead to them, by
sorting, dropping repetitions and walking two lists side by side.

* `Score.sharedCount_eq` — walking side by side counts the common members.
* `Score.mem_joinedNodes` — a list without repetitions has the joined nodes.
* `Score.foldlM_countEdge` — counts are entered under the ids of their edges.
* `Score.triangles_run` — the scores of every graph that can be reached and is
  indexed.
-/

namespace GraphMeasures

open Link

/-! ## Lists without repetitions -/

namespace Score

variable {xs ys : List Nat}

/-- What has been kept so far stands in front of what is still to come, so the
loop can be looked at without it. -/
theorem eraseReps_loop (a : Nat) (xs seen : List Nat) :
    List.eraseRepsBy.loop (· == ·) a xs seen =
      seen.reverse ++ List.eraseRepsBy.loop (· == ·) a xs [] := by
  induction xs generalizing a seen with
  | nil => simp [List.eraseRepsBy.loop]
  | cons b xs ih =>
    rw [List.eraseRepsBy.loop, List.eraseRepsBy.loop]
    cases a == b with
    | true => exact ih a seen
    | false =>
      show List.eraseRepsBy.loop _ b xs (a :: seen) = seen.reverse ++ List.eraseRepsBy.loop _ b xs [a]
      rw [ih b (a :: seen), ih b [a], List.reverse_cons, List.append_assoc]
      rfl

/-- Of two neighbours that are the same one is dropped, and of two different
ones both stay: the equation by which lists in order lose their repetitions. -/
theorem eraseReps_cons_cons (a b : Nat) (xs : List Nat) :
    (a :: b :: xs).eraseReps = if a = b then (a :: xs).eraseReps else a :: (b :: xs).eraseReps := by
  show List.eraseRepsBy.loop _ a (b :: xs) [] = _
  rw [List.eraseRepsBy.loop]
  by_cases hab : a = b
  · subst hab
    rw [beq_self_eq_true, if_pos rfl]
    rfl
  · rw [beq_false_of_ne hab, if_neg hab]
    exact eraseReps_loop b xs [a]

/-- Dropping repetitions drops no member, since of equal neighbours one always
stays. -/
theorem mem_eraseReps {x : Nat} : x ∈ xs.eraseReps ↔ x ∈ xs := by
  cases xs with
  | nil => rfl
  | cons a xs =>
    induction xs generalizing a with
    | nil => rfl
    | cons b xs ih =>
      rw [eraseReps_cons_cons]
      by_cases hab : a = b
      · subst hab
        rw [if_pos rfl, ih]
        simp
      · rw [if_neg hab, List.mem_cons, ih]
        exact List.mem_cons.symm

/-- Of an ascending list there remains a list that ascends strictly, because
equal members of an ascending list are neighbours. Only such lists are merged to
count what they share. -/
theorem pairwise_eraseReps (h : xs.Pairwise (· ≤ ·)) : xs.eraseReps.Pairwise (· < ·) := by
  cases xs with
  | nil => exact .nil
  | cons a xs =>
    induction xs generalizing a with
    | nil => exact List.pairwise_singleton _ _
    | cons b xs ih =>
      obtain ⟨ha, hrest⟩ := List.pairwise_cons.1 h
      rw [eraseReps_cons_cons]
      by_cases hab : a = b
      · subst hab
        rw [if_pos rfl]
        exact ih a hrest
      · rw [if_neg hab, List.pairwise_cons]
        refine ⟨fun c hc => ?_, ih b hrest⟩
        -- what comes later is not below the second element, which is above the first
        have hb : a ≤ b := ha b List.mem_cons_self
        rcases List.mem_cons.1 (mem_eraseReps.1 hc) with rfl | hc
        · omega
        · have hbc : b ≤ c := (List.pairwise_cons.1 hrest).1 c hc
          omega

/-- Walking two lists side by side counts their common members. Both ascend
strictly: the smaller of the two members in front is in the other list no
more. -/
theorem sharedCount_eq (hx : xs.Pairwise (· < ·)) (hy : ys.Pairwise (· < ·)) :
    sharedCount xs ys = xs.countP (· ∈ ys) := by
  fun_induction sharedCount xs ys with
  | case1 ys => rfl
  | case2 xs => simp
  | case3 a as b bs hab ih =>
    -- the first of the one list is below all of the other
    obtain ⟨-, has⟩ := List.pairwise_cons.1 hx
    have hnot : a ∉ b :: bs := by
      intro hmem
      rcases List.mem_cons.1 hmem with rfl | hmem
      · omega
      · have hlt : b < a := (List.pairwise_cons.1 hy).1 a hmem
        omega
    rw [ih has hy, List.countP_cons_of_neg (by simpa using hnot)]
  | case4 a as b bs hab hba ih =>
    -- the first of the other list is below all of the one
    obtain ⟨-, hbs⟩ := List.pairwise_cons.1 hy
    have hne : ∀ c ∈ a :: as, c ≠ b := by
      rintro c hc rfl
      rcases List.mem_cons.1 hc with rfl | hc
      · omega
      · have hlt : a < c := (List.pairwise_cons.1 hx).1 c hc
        omega
    rw [ih hx hbs]
    refine List.countP_congr fun c hc => ?_
    simp [hne c hc]
  | case5 a as b bs hab hba ih =>
    obtain rfl : a = b := by omega
    obtain ⟨ha, has⟩ := List.pairwise_cons.1 hx
    obtain ⟨-, hbs⟩ := List.pairwise_cons.1 hy
    have hne : ∀ c ∈ as, c ≠ a := fun c hc => Nat.ne_of_gt (ha c hc)
    rw [ih has hbs, List.countP_cons_of_pos (by simp)]
    refine congrArg (· + 1) (List.countP_congr fun c hc => ?_)
    simp [hne c hc]

end Score

/-! ## Common neighbours -/

/-- The ends of an edge as it is listed. -/
def Edge.ends {W : Type} (e : Edge W) : Nat × Nat :=
  (e.source, e.target)

/-- The ends of all edges. -/
def Graph.ends {W : Type} (g : Graph W) : List (Nat × Nat) :=
  g.edges.map Edge.ends

namespace Score

variable {W : Type} {n : Nat} {weighted directed : Bool} {links : List (Link W)}
variable {ids : Nat → Option Nat} {index : Option EdgeIndex} {edges edges' : List (Nat × Nat)}

/-- Some edge joins two nodes, in either direction. -/
def Joined (edges : List (Nat × Nat)) (u v : Nat) : Prop :=
  (u, v) ∈ edges ∨ (v, u) ∈ edges

instance (edges : List (Nat × Nat)) (u v : Nat) : Decidable (Joined edges u v) :=
  inferInstanceAs (Decidable (_ ∨ _))

/-- The nodes that are joined to two nodes and are neither of them. -/
def commonNeighbours (nodeCount : Nat) (edges : List (Nat × Nat)) (u v : Nat) : Finset Nat :=
  {w ∈ Finset.range nodeCount | w ≠ u ∧ w ≠ v ∧ Joined edges w u ∧ Joined edges w v}

/-- The number of triangles on an edge. A loop lies on none. -/
def triangleCount (nodeCount : Nat) (edges : List (Nat × Nat)) (edge : Nat × Nat) : Nat :=
  if edge.1 = edge.2 then 0 else (commonNeighbours nodeCount edges edge.1 edge.2).card

/-- Edges that join the same nodes make the same triangles. -/
theorem triangleCount_congr (h : ∀ u v, Joined edges u v ↔ Joined edges' u v) (edge : Nat × Nat) :
    triangleCount n edges edge = triangleCount n edges' edge := by
  simp only [triangleCount, commonNeighbours, h]

/-- Neither end of an edge comes first. -/
theorem triangleCount_swap (edge : Nat × Nat) :
    triangleCount n edges edge.swap = triangleCount n edges edge := by
  have hcommon : commonNeighbours n edges edge.2 edge.1 = commonNeighbours n edges edge.1 edge.2 := by
    ext w
    simp only [commonNeighbours, Finset.mem_filter]
    tauto
  simp only [triangleCount, Prod.fst_swap, Prod.snd_swap, hcommon, eq_comm]

/-- So it does not matter how an edge is listed. -/
theorem triangleCount_facing (directed : Bool) (edge : Nat × Nat) :
    triangleCount n edges (facing directed edge) = triangleCount n edges edge := by
  unfold facing
  split
  · rfl
  · exact triangleCount_swap edge

/-- Pairs of which some stand turned round in the other list, and no others,
join the same nodes. -/
theorem joined_iff_of_turned (h : ∀ edge ∈ edges, edge ∈ edges' ∨ edge.swap ∈ edges')
    (h' : ∀ edge ∈ edges', edge ∈ edges ∨ edge.swap ∈ edges) (u v : Nat) :
    Joined edges u v ↔ Joined edges' u v := by
  constructor
  · rintro (hmem | hmem)
    · exact h (u, v) hmem
    · exact (h (v, u) hmem).symm
  · rintro (hmem | hmem)
    · exact h' (u, v) hmem
    · exact (h' (v, u) hmem).symm

/-- It does not matter how edges are listed: whether an edge joins two nodes is
asked in either order. -/
theorem joined_listed (links : List (Link W)) (directed : Bool) (u v : Nat) :
    Joined ((links.map (Link.listed directed)).map ends) u v ↔ Joined (links.map ends) u v := by
  -- turning a link swaps its ends, and joining does not see that
  have hends : ∀ l : Link W, (l.listed directed).ends = l.ends ∨
      (l.listed directed).ends = l.ends.swap := by
    intro l
    show facing directed l.ends = l.ends ∨ facing directed l.ends = l.ends.swap
    unfold facing
    split
    · exact Or.inl rfl
    · exact Or.inr rfl
  refine joined_iff_of_turned (fun edge hedge => ?_) (fun edge hedge => ?_) u v
  · rw [List.map_map] at hedge
    obtain ⟨l, hl, rfl⟩ := List.mem_map.1 hedge
    show (l.listed directed).ends ∈ _ ∨ (l.listed directed).ends.swap ∈ _
    rcases hends l with h | h
    · rw [h]
      exact Or.inl (List.mem_map_of_mem hl)
    · rw [h, Prod.swap_swap]
      exact Or.inr (List.mem_map_of_mem hl)
  · obtain ⟨l, hl, rfl⟩ := List.mem_map.1 hedge
    have hmem : (l.listed directed).ends ∈ (links.map (Link.listed directed)).map ends :=
      List.mem_map_of_mem (List.mem_map_of_mem hl)
    rcases hends l with h | h
    · exact Or.inl (h ▸ hmem)
    · exact Or.inr (h ▸ hmem)

/-- The edges of a graph join what its links join. Edges are listed by node and
perhaps turned, and neither changes which nodes are joined. -/
theorem joined_ends (hwithin : Graph.Within n links) (u v : Nat) :
    Joined (Graph.ofLinks n weighted directed links ids index).ends u v ↔
      Joined (links.map ends) u v := by
  have hends : (Graph.ofLinks n weighted directed links ids index).ends =
      ((Graph.ofLinks n weighted directed links ids index).edges.map Link.ofEdge).map ends := by
    rw [List.map_map]
    rfl
  have hperm : (Graph.ofLinks n weighted directed links ids index).ends.Perm
      ((links.map (Link.listed directed)).map ends) := by
    rw [hends]
    exact (Graph.perm_edges hwithin).map ends
  rw [← joined_listed links directed, Joined, hperm.mem_iff, hperm.mem_iff]
  rfl

/-- What an edge leads to is a node. -/
theorem Joined.lt {u w : Nat} (h : Joined (links.map ends) w u) (hwithin : Graph.Within n links) :
    w < n := by
  rcases h with hmem | hmem
  · obtain ⟨l, hl, hends⟩ := List.mem_map.1 hmem
    exact lt_of_eq_of_lt (congrArg Prod.fst hends).symm (hwithin l hl).1
  · obtain ⟨l, hl, hends⟩ := List.mem_map.1 hmem
    exact lt_of_eq_of_lt (congrArg Prod.snd hends).symm (hwithin l hl).2

/-! ## The joined nodes -/

/-- The far ends at a node are those across the links that stand there, one for
each of these links. -/
theorem mem_far_iff {outgoing : Bool} {u w : Nat} :
    w ∈ (Graph.halves directed outgoing links ids u).map (·.node) ↔
      ∃ l ∈ links, l.standsAt directed outgoing u = true ∧ l.across u = w := by
  have hfar : (Graph.halves directed outgoing links ids u).map (·.node) =
      (links.filter (standsAt directed outgoing u)).map (·.across u) := by
    have hmap : ((Graph.halves directed outgoing links ids u).map
        (fun half => (half.node, half.weight))).map Prod.fst =
        ((links.filter (standsAt directed outgoing u)).map
          fun l => (l.across u, l.weight)).map Prod.fst := by
      rw [Graph.map_halves]
    simpa only [List.map_map, Function.comp_def] using hmap
  simp only [hfar, List.mem_map, List.mem_filter, and_assoc]

/-- A list of joined nodes has the other nodes that an edge joins to its own. In
a directed graph they come from both lists of the node, in an undirected one
twice from the same. -/
theorem mem_joinedNodes (hwithin : Graph.Within n links) {u w : Nat} :
    w ∈ joinedNodes (Graph.ofLinks n weighted directed links ids index) u ↔
      w ≠ u ∧ Joined (links.map ends) w u := by
  rw [joinedNodes, mem_eraseReps, List.mem_mergeSort, List.mem_filter, List.map_append,
    List.mem_append, Graph.neighbours_ofLinks hwithin, Graph.inNeighbours_ofLinks hwithin,
    mem_far_iff, mem_far_iff, decide_eq_true_eq, and_comm]
  refine and_congr_right fun hne => ?_
  simp only [Joined, List.mem_map, ends, Prod.mk.injEq]
  constructor
  · -- a half-edge at the node stands at one of the two ends
    rintro (⟨l, hl, hstands, hacross⟩ | ⟨l, hl, hstands, hacross⟩)
    · rcases end_of_standsAt hstands with hend | hend
      · exact Or.inr ⟨l, hl, hend, by rw [← hacross, ← hend, across_source]⟩
      · exact Or.inl ⟨l, hl, by rw [← hacross, ← hend, across_target], hend⟩
    · rcases end_of_standsAt hstands with hend | hend
      · exact Or.inr ⟨l, hl, hend, by rw [← hacross, ← hend, across_source]⟩
      · exact Or.inl ⟨l, hl, by rw [← hacross, ← hend, across_target], hend⟩
  · rintro (⟨l, hl, rfl, rfl⟩ | ⟨l, hl, rfl, rfl⟩)
    · refine Or.inr ⟨l, hl, ?_, across_target l⟩
      simp [standsAt]
    · refine Or.inl ⟨l, hl, ?_, across_source l⟩
      simp [standsAt]

/-- A list of joined nodes ascends strictly, since it is sorted and without
repetitions. -/
theorem pairwise_joinedNodes (g : Graph W) (u : Nat) : (joinedNodes g u).Pairwise (· < ·) :=
  pairwise_eraseReps (List.pairwise_mergeSort' (· ≤ ·) _)

/-- Two lists of joined nodes share the common neighbours. The two nodes
themselves are not among them: neither is in its own list, so neither is in
both. -/
theorem sharedCount_joinedNodes (hwithin : Graph.Within n links) (u v : Nat) :
    sharedCount (joinedNodes (Graph.ofLinks n weighted directed links ids index) u)
        (joinedNodes (Graph.ofLinks n weighted directed links ids index) v) =
      (commonNeighbours n (links.map ends) u v).card := by
  have hascending := pairwise_joinedNodes (Graph.ofLinks n weighted directed links ids index)
  -- both lists ascend, so no node is counted twice
  have hnodup : ((joinedNodes (Graph.ofLinks n weighted directed links ids index) u).filter
      (· ∈ joinedNodes (Graph.ofLinks n weighted directed links ids index) v)).Nodup :=
    ((hascending u).imp fun hlt => Nat.ne_of_lt hlt).filter _
  rw [sharedCount_eq (hascending u) (hascending v), List.countP_eq_length_filter,
    ← List.toFinset_card_of_nodup hnodup]
  refine congrArg Finset.card (Finset.ext fun w => ?_)
  simp only [List.mem_toFinset, List.mem_filter, decide_eq_true_eq, mem_joinedNodes hwithin,
    commonNeighbours, Finset.mem_filter, Finset.mem_range]
  constructor
  · rintro ⟨⟨hu, hju⟩, hv, hjv⟩
    exact ⟨hju.lt hwithin, hu, hv, hju, hjv⟩
  · rintro ⟨-, hu, hv, hju, hjv⟩
    exact ⟨⟨hu, hju⟩, hv, hjv⟩

/-- For two nodes of the graph there are two lists, and what they share is the
number of triangles. For a loop no list is looked at, and there are none. -/
theorem trianglesOver_eq_ok (hwithin : Graph.Within n links) {u v : Nat} (hu : u < n) (hv : v < n) :
    trianglesOver ((Array.range n).map
        (joinedNodes (Graph.ofLinks n weighted directed links ids index))) u v =
      .ok (triangleCount n (links.map ends) (u, v)) := by
  -- both nodes are in range, so each has its list
  have hget : ∀ {w : Nat}, w < n → (Checked.get ((Array.range n).map
      (joinedNodes (Graph.ofLinks n weighted directed links ids index))) w :
        Except (Failure EngineError) (List Nat)) =
        .ok (joinedNodes (Graph.ofLinks n weighted directed links ids index) w) := by
    intro w hw
    rw [Checked.get_eq_ok (by simpa using hw)]
    simp
  rw [trianglesOver, triangleCount]
  by_cases huv : u = v
  · rw [if_pos huv, if_pos huv]
    rfl
  · rw [if_neg huv, if_neg huv, hget hu, hget hv, ← sharedCount_joinedNodes hwithin]
    rfl

/-! ## Every id once -/

/-- Counts are entered under the ids of their edges, which are all different. So
what is entered stays, and under an id without an edge there is what was there
before. -/
theorem foldlM_countEdge {joined : Array (List Nat)} {count : Edge W → Nat}
    {listed : List (Edge W)} (counts : Array Nat)
    (hcount : ∀ e ∈ listed, trianglesOver joined e.source e.target = .ok (count e))
    (hids : listed.Pairwise fun e f => e.id ≠ f.id) :
    ∃ after, listed.foldlM (countEdge joined) counts = .ok after ∧ after.size = counts.size ∧
      (∀ i, (∀ e ∈ listed, e.id ≠ some i) → after[i]? = counts[i]?) ∧
      ∀ e ∈ listed, ∀ i, e.id = some i → i < counts.size → after[i]? = some (count e) := by
  induction listed generalizing counts with
  | nil => exact ⟨counts, rfl, rfl, fun _ _ => rfl, fun e he => absurd he List.not_mem_nil⟩
  | cons e rest ih =>
    obtain ⟨hfirst, hrest⟩ := List.pairwise_cons.1 hids
    -- the first edge changes the entry under its own id, if it has one
    obtain ⟨next, hnext, hsize, hothers, hown⟩ : ∃ next, countEdge joined counts e = .ok next ∧
        next.size = counts.size ∧ (∀ i, e.id ≠ some i → next[i]? = counts[i]?) ∧
        ∀ i, e.id = some i → i < counts.size → next[i]? = some (count e) := by
      rw [countEdge]
      cases hid : e.id with
      | none => exact ⟨counts, rfl, rfl, fun _ _ => rfl, fun i hi => absurd hi (by simp)⟩
      | some id =>
        refine ⟨counts.setIfInBounds id (count e), ?_, Array.size_setIfInBounds, ?_, ?_⟩
        · show (trianglesOver joined e.source e.target >>= _) = _
          rw [hcount e List.mem_cons_self]
          rfl
        · intro i hi
          exact Array.getElem?_setIfInBounds_ne fun heq => hi (congrArg some heq)
        · intro i hi hlt
          obtain rfl := Option.some.inj hi
          exact Array.getElem?_setIfInBounds_self_of_lt hlt
    obtain ⟨after, hafter, hafterSize, hafterOthers, hafterOwn⟩ := ih next
      (fun f hf => hcount f (List.mem_cons_of_mem _ hf)) hrest
    refine ⟨after, ?_, hafterSize.trans hsize, ?_, ?_⟩
    · rw [List.foldlM_cons, hnext]
      exact hafter
    · intro i hi
      rw [hafterOthers i fun f hf => hi f (List.mem_cons_of_mem _ hf),
        hothers i (hi e List.mem_cons_self)]
    · intro f hf i hid hlt
      rcases List.mem_cons.1 hf with rfl | hf
      · -- no later edge has this id
        rw [hafterOthers i fun g hg heq => hfirst g hg (hid.trans heq.symm)]
        exact hown i hid hlt
      · exact hafterOwn f hf i hid (by rwa [hsize])

/-- Every edge of a numbered graph gets the number of its triangles. The ids go
from zero up in the order of listing, so that the scores, in the order of the
edges, are in the places that the ids name. -/
theorem triangles_numbered {links : List (Link Float)} {g : Graph Float}
    (h : g.Holds n weighted directed links)
    (hg : g = .ofLinks n weighted directed links (some ∘ idOf directed links)
      (some (Graph.table n directed links))) :
    ∃ scores, triangles g = .ok scores ∧ scores.size = links.length ∧
      ∀ (i : Nat) (e : Edge Float), g.edges[i]? = some e → e.id = some i ∧
        scores[i]? = some (.ofNat (triangleCount n (links.map ends) e.ends)) := by
  have hnumbered : g.Numbered links := by
    rw [hg]
    exact Graph.numbered_ofLinks h.within
  have hlength : g.edges.length = links.length := by
    have hperm : (g.edges.map Link.ofEdge).Perm (links.map (Link.listed directed)) := by
      rw [hg]
      exact Graph.perm_edges h.within
    simpa using hperm.length_eq
  have hcount : ∀ e ∈ g.edges, trianglesOver ((Array.range g.nodeCount).map (joinedNodes g))
      e.source e.target = .ok (triangleCount n (links.map ends) e.ends) := by
    intro e he
    obtain ⟨hs, ht⟩ := h.faithful.ends e he
    rw [h.nodeCount_eq] at hs ht ⊢
    rw [hg]
    exact trianglesOver_eq_ok h.within hs ht
  -- the ids are the positions, which are different
  have hids : g.edges.Pairwise fun e f => e.id ≠ f.id := by
    refine List.pairwise_iff_getElem.2 fun i j hi hj hij => ?_
    rw [hnumbered.position i _ (List.getElem?_eq_getElem hi),
      hnumbered.position j _ (List.getElem?_eq_getElem hj)]
    exact fun heq => Nat.ne_of_lt hij (Option.some.inj heq)
  obtain ⟨counts, hcounts, hsize, -, hentries⟩ :=
    foldlM_countEdge (Array.replicate links.length 0) hcount hids
  rw [Array.size_replicate] at hsize hentries
  have hindex : g.requireIndex = .ok (Graph.table n directed links) := by
    rw [hg]
    rfl
  refine ⟨counts.map Float.ofNat, ?_, by rw [Array.size_map, hsize], fun i e he => ?_⟩
  · rw [triangles, triangleCounts, hindex]
    show (g.edges.foldlM _ (Array.replicate links.length 0) >>= _) = _
    rw [hcounts]
    rfl
  · have hi : i < links.length := hlength ▸ (List.getElem?_eq_some_iff.1 he).1
    have hid := hnumbered.position i e he
    refine ⟨hid, ?_⟩
    rw [Array.getElem?_map, hentries e (List.mem_of_getElem? he) i hid hi]
    rfl

/-- The score of a graph that can be reached and is indexed: the graph is that
of the links which it has accepted, and its edges are numbered as those. So the
entry at the id of an edge counts the triangles over it. -/
theorem triangles_run {steps : List Step}
    (h : ((Graph.empty n weighted directed).run steps).hasEdgeIds = true) :
    let g := (Graph.empty n weighted directed).run steps
    ∃ scores, triangles g = .ok scores ∧ scores.size = g.edgeIdBound ∧
      ∀ e ∈ g.edges, ∃ id, e.id = some id ∧
        scores[id]? = some (.ofNat (triangleCount g.nodeCount g.ends e.ends)) := by
  intro g
  have hholds := Graph.holds_run n weighted directed steps
  have hg := Graph.current_run n weighted directed steps h
  obtain ⟨scores, hscores, hsize, hentries⟩ := triangles_numbered hholds hg
  refine ⟨scores, hscores, ?_, fun e he => ?_⟩
  · rw [hsize, show g = _ from hg]
    rfl
  · obtain ⟨i, hi⟩ := List.mem_iff_getElem?.1 he
    obtain ⟨hid, hscore⟩ := hentries i e hi
    refine ⟨i, hid, ?_⟩
    rw [hscore, hholds.nodeCount_eq]
    -- the links join what the edges join
    refine congrArg (some ∘ Float.ofNat) (triangleCount_congr (fun u v => ?_) e.ends)
    rw [show g = _ from hg]
    exact (joined_ends hholds.within u v).symm

end Score

end GraphMeasures
