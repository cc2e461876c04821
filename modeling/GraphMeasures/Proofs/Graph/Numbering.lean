import GraphMeasures.Proofs.Graph.Links
import Std.Data.TreeMap.Lemmas

/-!
# GraphMeasures — which id a link gets

Indexing numbers the edges in the order in which they are listed. So the id of
a link is its place in the stable order by the node at which it is listed, and
nothing else: `indexEdges_ofLinks` says that indexing gives every half-edge of a
link the id `Link.idOf`, whatever ids were there before, and that the index is
`Graph.table`.

* `followTwin` — the half-edge that is numbered second finds the id of the first.
* `edgeId_ofLinks` — the index knows the first of several links with the same
  ends.
-/

namespace GraphMeasures

namespace Link

variable {W : Type}

/-- The id that a link with its number gets from indexing. -/
def idOf (directed : Bool) (links : List (Link W)) (k : Nat) : Nat :=
  StableOrder.place (Link.node directed) links k

/-- The number of the first link that is listed with the given ends. -/
def firstWith (directed : Bool) (links : List (Link W)) (ends : Nat × Nat) : Option Nat :=
  links.findIdx? fun l => decide (facing directed l.ends = ends)

end Link

open Link

namespace Graph

variable {W : Type} {n : Nat} {weighted directed outgoing : Bool} {links : List (Link W)}
variable {ids ids' : Nat → Option Nat} {index : Option EdgeIndex} {node : Nat} {l : Link W}

/-! ## Numbering -/

/-- The ids after the half-edges that stand for their edges at a node have been
numbered from `next` on. -/
def idsFrom (directed : Bool) (links : List (Link W)) (ids : Nat → Option Nat)
    (node next k : Nat) : Option Nat :=
  if links[k]?.map (Link.node directed) = some node then
    some (next + (links.take k).countP (Link.node directed · = node))
  else ids k

/-- The ids of links do not depend on the links behind them. -/
theorem idsFrom_append {next k : Nat} (hk : k < links.length) :
    idsFrom directed (links ++ [l]) ids node next k =
      idsFrom directed links ids node next k := by
  rw [idsFrom, List.getElem?_append_left hk, List.take_append_of_le_length hk.le, idsFrom]

/-- The last link gets the number behind those before it, if it is listed at the
node. -/
theorem idsFrom_length {next : Nat} :
    idsFrom directed (links ++ [l]) ids node next links.length =
      if l.node directed = node then
        some (next + links.countP (Link.node directed · = node))
      else ids links.length := by
  rw [idsFrom, List.getElem?_append_right (Nat.le_refl _), Nat.sub_self,
    List.take_append_of_le_length (Nat.le_refl _), List.take_length]
  simp

/-- A half-edge stands for its edge at the node at which its link is listed. -/
theorem standsFor_iff {half : HalfEdge W}
    (hstands : l.standsAt directed true node = true) (hfar : half.node = l.across node) :
    standsFor directed node half = true ↔ l.node directed = node := by
  rw [listed_at_iff, and_iff_right hstands, standsFor, hfar]

/-- One more half-edge at the end of a row: it gets the next number if it stands
for its edge, and else it stays as it is. -/
theorem numberRow_push (next : Nat) (row : Array (HalfEdge W)) (half : HalfEdge W) :
    numberRow directed node next (row.push half) =
      if standsFor directed node half then
        ((numberRow directed node next row).1.push
          { half with id := some (numberRow directed node next row).2 },
          (numberRow directed node next row).2 + 1)
      else
        ((numberRow directed node next row).1.push half, (numberRow directed node next row).2) := by
  simp only [numberRow, Array.foldl_push]

/-- The half-edges at one node are numbered one after the other. The induction
takes the links from the end, as the walk along the row leaves them. -/
theorem numberRow_halves (next : Nat) :
    numberRow directed node next (halves directed true links ids node).toArray =
      ((halves directed true links (idsFrom directed links ids node next) node).toArray,
        next + links.countP (Link.node directed · = node)) := by
  -- links come one after the other; the last one gets the next number, if any
  induction links using List.reverseRecOn with
  | nil => rfl
  | append_singleton links l ih =>
    have hold : halves directed true links (idsFrom directed (links ++ [l]) ids node next) node =
        halves directed true links (idsFrom directed links ids node next) node :=
      halves_congr fun k m hm _ => idsFrom_append (List.getElem?_eq_some_iff.1 hm).1
    rw [halves_concat, halves_concat, hold, idsFrom_length, List.countP_append]
    by_cases hstands : l.standsAt directed true node = true
    · rw [if_pos hstands, if_pos hstands, ← List.push_toArray, ← List.push_toArray,
        numberRow_push, ih]
      have hfor : standsFor directed node (⟨l.across node, l.weight,
          links.countP (standsAt directed false (l.across node)), ids links.length⟩ : HalfEdge W) =
            true ↔ l.node directed = node :=
        standsFor_iff hstands rfl
      -- it is numbered here, or at its other end
      by_cases hnode : l.node directed = node
      · rw [Bool.not_true, if_pos (hfor.2 hnode)]
        simp [hnode, Nat.add_assoc]
      · rw [Bool.not_true, if_neg (fun h => hnode (hfor.1 h))]
        simp [hnode]
    · have hnode : l.node directed ≠ node := fun h => hstands (listed_at_iff.1 h).1
      rw [if_neg hstands, if_neg hstands, List.append_nil, List.append_nil, ih]
      simp [hnode]

/-- The ids after the half-edges that stand for their edges have been numbered
at every node. -/
def idsAt (directed : Bool) (links : List (Link W)) (ids : Nat → Option Nat) (node k : Nat) :
    Option Nat :=
  idsFrom directed links ids node (links.countP (Link.node directed · < node)) k

/-- At the node where a link is listed it has got its id. -/
theorem idsAt_own {k : Nat} (hl : links[k]? = some l) :
    idsAt directed links ids (l.node directed) k = some (idOf directed links k) := by
  rw [idsAt, idsFrom, hl, Option.map_some, if_pos rfl, idOf, StableOrder.place_eq hl]

/-- One more row at the end: its numbers go on where the others have stopped. -/
theorem numberRows_push (lists : Array (Array (HalfEdge W))) (row : Array (HalfEdge W)) :
    numberRows directed (lists.push row) =
      ((numberRows directed lists).1.push
          (numberRow directed lists.size (numberRows directed lists).2 row).1,
        (numberRow directed lists.size (numberRows directed lists).2 row).2) := by
  rw [← size_numberRows directed lists]
  simp only [numberRows, Array.foldl_push]

/-- The rows of one more node. -/
theorem rows_succ :
    rows (n + 1) directed outgoing links ids =
      (rows n directed outgoing links ids).push
        (halves directed outgoing links ids n).toArray := by
  simp [rows, Array.range_succ]

/-- Numbering goes from node to node. Before each node, as many numbers were
given as links are listed at smaller nodes. -/
theorem numberRows_rows :
    numberRows directed (rows n directed true links ids) =
      ((Array.range n).map fun v =>
        (halves directed true links (idsAt directed links ids v) v).toArray,
        links.countP (Link.node directed · < n)) := by
  induction n with
  | zero =>
    have hempty : Array.range 0 = #[] := rfl
    simp [numberRows, rows, hempty]
  | succ n ih =>
    -- the next node starts behind the links that are listed before it
    have hsize : (rows n directed true links ids).size = n := by simp [rows]
    have hrow : numberRow directed n (links.countP (Link.node directed · < n))
        (halves directed true links ids n).toArray = _ := numberRow_halves _
    rw [rows_succ, numberRows_push, ih, hsize, hrow, ← StableOrder.countP_lt_succ]
    rw [Array.range_succ, Array.append_singleton, Array.map_push]
    rfl

/-! ## The other half-edges -/

/-- Across from a half-edge that does not stand for its edge is the one that
does. -/
theorem listed_across (hstands : l.standsAt directed outgoing node = true)
    (hother : l.node directed = node → directed = true ∧ outgoing = false) :
    l.across node = l.node directed := by
  cases directed <;> cases outgoing <;>
    grind [Link.node, facing, ends, standsAt, across]

/-- The half-edge that is not numbered finds the id of the one that is, by way
of its twin. -/
theorem followTwin {k : Nat} (hwithin : Within n links) (hl : links[k]? = some l)
    (hstands : l.standsAt directed outgoing node = true)
    (hother : l.node directed = node → directed = true ∧ outgoing = false) :
    twinId ((Array.range n).map fun v =>
        (halves directed true links (idsAt directed links ids v) v).toArray)
      (halfOf directed outgoing links ids' node (l, k)) = some (idOf directed links k) := by
  have hacross : l.across node = l.node directed := listed_across hstands hother
  have hlt : l.node directed < n := hwithin.node_lt (List.mem_of_getElem? hl) directed
  -- the twin is in an outgoing list: there are no others, or the half-edge is in an incoming one
  have hseat : seat directed (!outgoing) links (l.node directed) k =
      seat directed true links (l.node directed) k := by
    cases directed with
    | false => cases outgoing <;> simp [seat, standsAt_incoming]
    | true =>
      have hin : outgoing = false := by
        cases outgoing with
        | false => rfl
        | true => exact (hother (by simpa [Link.node, facing, ends, standsAt] using hstands)).2
      rw [hin, Bool.not_false]
  have htwin : (halves directed true links (idsAt directed links ids (l.node directed))
      (l.node directed))[seat directed true links (l.node directed) k]? = some _ :=
    getElem?_halves_iff.2 ⟨k, l, hl, (listed_at_iff.1 rfl).1, rfl, rfl⟩
  rw [twinId]
  simp only [halfOf, hacross, hseat]
  simp [Array.getD, hlt, htwin, halfOf, idsAt_own hl]

/-- Following the twins leaves every half-edge at a node with the id of its
link. -/
theorem followTwins_halves (hwithin : Within n links) :
    followTwins directed
        ((Array.range n).map fun v =>
          (halves directed true links (idsAt directed links ids v) v).toArray) node
        (halves directed true links (idsAt directed links ids node) node).toArray =
      (halves directed true links (some ∘ idOf directed links) node).toArray := by
  rw [followTwins, List.map_toArray, halves, halves, List.map_map]
  refine congrArg List.toArray (List.map_congr_left fun numbered hl => ?_)
  obtain ⟨l, k⟩ := numbered
  obtain ⟨hl, hstands⟩ := List.mem_filter.1 hl
  have hk : links[k]? = some l := List.mem_zipIdx_iff_getElem?.1 hl
  have hfor : standsFor directed node
      (halfOf directed true links (idsAt directed links ids node) node (l, k)) = true ↔
        l.node directed = node :=
    standsFor_iff hstands rfl
  -- a half-edge that stands for its edge has its id already
  by_cases hnode : l.node directed = node
  · subst hnode
    rw [Function.comp_apply, if_pos (hfor.2 rfl)]
    simp only [halfOf, idsAt_own hk, Function.comp_apply]
  · rw [Function.comp_apply, if_neg fun h => hnode (hfor.1 h),
      followTwin hwithin hk hstands fun h => absurd h hnode]
    rfl

/-- Incoming half-edges have their ids from the outgoing ones: each knows the
place of its twin, and the twin has been numbered before. -/
theorem map_twinId_halves (hwithin : Within n links) :
    (halves true false links ids' node).toArray.map (fun half => { half with
        id := twinId ((Array.range n).map fun v =>
          (halves true true links (idsAt true links ids v) v).toArray) half }) =
      (halves true false links (some ∘ idOf true links) node).toArray := by
  rw [List.map_toArray, halves, halves, List.map_map]
  refine congrArg List.toArray (List.map_congr_left fun numbered hl => ?_)
  obtain ⟨l, k⟩ := numbered
  obtain ⟨hl, hstands⟩ := List.mem_filter.1 hl
  have hk : links[k]? = some l := List.mem_zipIdx_iff_getElem?.1 hl
  -- an incoming half-edge never stands for its edge
  rw [Function.comp_apply, followTwin hwithin hk hstands fun _ => ⟨rfl, rfl⟩]
  rfl

/-! ## The index -/

/-- The index entries of one node. -/
def tableRow (directed : Bool) (links : List (Link W)) (node : Nat) : Std.TreeMap Nat Nat :=
  (links.zipIdx.filter fun l => decide (l.1.node directed = node)).foldl
    (fun entries l => entries.insertIfNew (facing directed l.1.ends).2 (idOf directed links l.2)) ∅

/-- The index of all edges. -/
def table (nodeCount : Nat) (directed : Bool) (links : List (Link W)) : EdgeIndex where
  rows := (Array.range nodeCount).map (tableRow directed links)
  bound := links.length

/-- The table of a node is made of the links listed there, in their order.
Half-edges that do not stand for their edges are passed over. -/
theorem indexRow_halves :
    indexRow directed node (halves directed true links (idsAt directed links ids node) node).toArray =
      tableRow directed links node := by
  rw [indexRow, tableRow, List.foldl_toArray', halves, seated, List.foldl_map, List.foldl_filter,
    List.foldl_filter]
  · refine List.foldl_ext _ _ _ fun entries numbered hl => ?_
    obtain ⟨l, k⟩ := numbered
    have hk : links[k]? = some l := List.mem_zipIdx_iff_getElem?.1 hl
    -- entries are made for the half-edges that stand for their edges, and only for them
    by_cases hstands : l.standsAt directed true node = true
    · have hfor : standsFor directed node
          (halfOf directed true links (idsAt directed links ids node) node (l, k)) = true ↔
            l.node directed = node :=
        standsFor_iff hstands rfl
      by_cases hnode : l.node directed = node
      · rw [if_pos hstands, if_pos (decide_eq_true hnode)]
        simp only [if_pos (hfor.2 hnode)]
        subst hnode
        simp only [halfOf, idsAt_own hk, across_eq_listed rfl]
      · rw [if_pos hstands, if_neg (by simpa using hnode)]
        split
        · exact if_neg fun h => hnode (hfor.1 h)
        · rfl
    · have hnode : l.node directed ≠ node := fun h => hstands (listed_at_iff.1 h).1
      rw [if_neg hstands, if_neg (by simpa using hnode)]
  · rfl

/-- Of several entries with one key the first is found, because a key that is
there already is not written again. An entry from before the walk goes before
all of them. -/
theorem getElem?_foldl_insertIfNew {α : Type} (key value : α → Nat) (xs : List α)
    (entries : Std.TreeMap Nat Nat) (far : Nat) :
    (xs.foldl (fun entries x => entries.insertIfNew (key x) (value x)) entries)[far]? =
      entries[far]?.or ((xs.find? fun x => decide (key x = far)).map value) := by
  induction xs generalizing entries with
  | nil => simp
  | cons x xs ih =>
    rw [List.foldl_cons, ih, Std.TreeMap.getElem?_insertIfNew, List.find?_cons]
    by_cases hkey : key x = far
    · subst hkey
      by_cases hmem : key x ∈ entries <;> simp [hmem]
    · simp [hkey]

/-- The index knows the first of the links with the same ends, and knows nothing
of a pair that no link joins. -/
theorem getElem?_tableRow (far : Nat) :
    (tableRow directed links node)[far]? =
      (firstWith directed links (node, far)).map (idOf directed links) := by
  have hends : ∀ l : Link W × Nat, (decide (l.1.node directed = node) &&
      decide ((facing directed l.1.ends).2 = far)) =
      decide (facing directed l.1.ends = (node, far)) := by
    intro l
    rw [← Bool.decide_and, decide_eq_decide, Prod.ext_iff]
    rfl
  have hfind := getElem?_foldl_insertIfNew
    (fun l : Link W × Nat => (facing directed l.1.ends).2) (fun l => idOf directed links l.2)
    (links.zipIdx.filter fun l => decide (l.1.node directed = node)) ∅ far
  rw [tableRow, hfind, List.find?_filter, firstWith, List.findIdx?_eq_fst_find?_zipIdx]
  simp [hends, Function.comp_def]

/-- Indexing gives every link its id, whatever ids there were before. So
numbering twice does what numbering once does. -/
theorem indexEdges_ofLinks (hwithin : Within n links) :
    (ofLinks n weighted directed links ids index).indexEdges =
      ofLinks n weighted directed links (some ∘ idOf directed links)
        (some (table n directed links)) := by
  have hrows : ∀ {f : Nat → Array (HalfEdge W)} {β : Type} (g : Nat → Array (HalfEdge W) → β),
      ((Array.range n).map f).mapIdx g = (Array.range n).map fun v => g v (f v) := by
    intro f β g
    refine Array.ext (by simp) fun v _ _ => ?_
    simp
  have hbound : links.countP (Link.node directed · < n) = links.length := by
    rw [List.countP_eq_length]
    exact fun l hl => decide_eq_true (hwithin.node_lt hl directed)
  unfold indexEdges
  simp only [ofLinks, numberRows_rows, hrows, followTwins_halves hwithin, indexRow_halves, hbound]
  cases directed with
  | false =>
    simp only [Bool.false_eq_true, if_false, Array.map_empty]
    rfl
  | true =>
    simp only [if_true, rows, Array.map_map]
    simp only [Function.comp_def, map_twinId_halves hwithin]
    rfl

/-- Of three links the second is listed at the smallest node. -/
example : (List.range 3).map
    (idOf false [⟨2, 0, ()⟩, ⟨1, 0, ()⟩, ⟨0, 2, ()⟩]) = [1, 0, 2] := by
  decide

theorem checkNode_ofLinks (hnode : node < n) :
    (ofLinks n weighted directed links ids index).checkNode node = .ok () := by
  rw [checkNode_eq_ok_iff, nodeCount_ofLinks]
  exact hnode

/-- What the index says about two nodes of the graph: the id of the first link
with these ends, or that there is no edge. -/
theorem edgeId_ofLinks {u v : Nat} (hu : u < n) (hv : v < n) :
    (ofLinks n weighted directed links ids (some (table n directed links))).edgeId u v =
      match firstWith directed links (facing directed (u, v)) with
      | some k => .ok (idOf directed links k)
      | none => .error (.missingEdge u v) := by
  -- the lookup starts at the end at which the edge would be listed
  have hlt : (facing directed (u, v)).1 < n := by
    unfold facing
    split
    · exact hu
    · exact hv
  have hrow : ((table n directed links).rows.getD (facing directed (u, v)).1 ∅)[
      (facing directed (u, v)).2]? =
      (firstWith directed links (facing directed (u, v))).map (idOf directed links) := by
    rw [table]
    simp [Array.getD, hlt, getElem?_tableRow]
  have hlookup : (ofLinks n weighted directed links ids (some (table n directed links))).edgeId u v =
      match ((table n directed links).rows.getD (facing directed (u, v)).1 ∅)[
        (facing directed (u, v)).2]? with
      | some id => .ok id
      | none => .error (.missingEdge u v) := by
    rw [edgeId, checkNode_ofLinks hu, checkNode_ofLinks hv]
    rfl
  rw [hlookup, hrow]
  cases firstWith directed links (facing directed (u, v)) <;> rfl

end Graph

end GraphMeasures
