import Mathlib.Data.Finset.Option
import GraphMeasures.Proofs.Conversion.Memberships
import GraphMeasures.Proofs.Quality.Blocks

/-!
# GraphMeasures — sizes account for every node

Moves make a partition one after the other; a move of a node that does not exist is
refused and leaves no trace. What is left is known node by node: each is where its last
accepted move has put it (`subsetOf_moveAll`). Sizes are counted for the numbers below
the bound only, and a number that is not is passed over in silence, so it is the bound
that they rest on: no move takes a node out of it (`Bounded.moveAll`).

* `sum_subsetSizes` — below its bound a partition counts every node that has a subset.
* `subsetCount_eq` — the numbers with a node are counted once.
* `Accounts`, `moveAll_accounts` — what all figures of a partition say of the moves that
  made it.
-/

namespace GraphMeasures.Partition

variable {p start : Partition} {n : Nat} {moves : List (Nat × Nat)}

/-! ## Moves -/

/-- The moves that are accepted are those of nodes that exist. -/
def accepted (nodeCount : Nat) (moves : List (Nat × Nat)) : List (Nat × Nat) :=
  moves.filter (·.1 < nodeCount)

/-- Where the last accepted move of a node puts it. -/
def lastPlace (nodeCount : Nat) (moves : List (Nat × Nat)) (node : Nat) : Option Nat :=
  (accepted nodeCount moves).reverse.lookup node

theorem accepted_cons_of_lt {move : Nat × Nat} (h : move.1 < n) :
    accepted n (move :: moves) = move :: accepted n moves :=
  List.filter_cons_of_pos (by simpa using h)

theorem accepted_cons_of_ge {move : Nat × Nat} (h : n ≤ move.1) :
    accepted n (move :: moves) = accepted n moves :=
  List.filter_cons_of_neg (by simpa using h)

/-- Whether a move is accepted does not depend on the moves before it. -/
theorem accepted_append (n : Nat) (moves later : List (Nat × Nat)) :
    accepted n (moves ++ later) = accepted n moves ++ accepted n later :=
  List.filter_append _ _

/-- A move of a node that exists is what assigning makes of the partition, so
what is said of moves is said of the function that callers have. -/
theorem assign_eq_move {move : Nat × Nat} (h : move.1 < p.size) :
    p.assign move.1 move.2 = .ok (p.move move) := by
  have hok : p.assign move.1 move.2 = .ok _ := assign_eq_ok_iff.2 ⟨h, rfl⟩
  rw [Partition.move, hok]

/-- A move of a node that does not exist changes nothing. -/
theorem move_eq_self {move : Nat × Nat} (h : p.size ≤ move.1) : p.move move = p := by
  have herror : p.assign move.1 move.2 = .error _ := assign_eq_error_iff.2 ⟨h, rfl⟩
  rw [Partition.move, herror]

theorem size_move (p : Partition) (move : Nat × Nat) : (p.move move).size = p.size := by
  rcases Nat.lt_or_ge move.1 p.size with hlt | hge
  · exact size_of_assign (assign_eq_move hlt)
  · rw [move_eq_self hge]

/-- Neither do many of them. -/
theorem size_moveAll (p : Partition) (moves : List (Nat × Nat)) :
    (p.moveAll moves).size = p.size := by
  induction moves generalizing p with
  | nil => rfl
  | cons move moves ih => exact (ih (p.move move)).trans (size_move p move)

/-- Refused moves can be left out. They change neither a subset nor the bound,
so that only the accepted ones have to be followed. -/
theorem moveAll_accepted (p : Partition) (moves : List (Nat × Nat)) :
    p.moveAll (accepted p.size moves) = p.moveAll moves := by
  -- a move that is refused changes nothing, so it can be left out
  induction moves generalizing p with
  | nil => rfl
  | cons move moves ih =>
    have hrest : (p.move move).moveAll (accepted p.size moves) = (p.move move).moveAll moves := by
      rw [← size_move p move]
      exact ih (p.move move)
    rcases Nat.lt_or_ge move.1 p.size with hlt | hge
    · rw [accepted_cons_of_lt hlt]
      exact hrest
    · rw [move_eq_self hge] at hrest
      show _ = (p.move move).moveAll moves
      rw [accepted_cons_of_ge hge, move_eq_self hge]
      exact hrest

/-- **A node is where its last accepted move has put it**, and else where it
was. The induction is on the list of moves, so the one that comes later wins;
moves of other nodes have no say. -/
theorem subsetOf_moveAll (p : Partition) (moves : List (Nat × Nat)) (node : Nat) :
    (p.moveAll moves).subsetOf node = (lastPlace p.size moves node).or (p.subsetOf node) := by
  -- from the front: what the first move leaves is what the others begin with
  induction moves generalizing p with
  | nil => rfl
  | cons move moves ih =>
    show ((p.move move).moveAll moves).subsetOf node = _
    rw [ih, size_move]
    rcases Nat.lt_or_ge move.1 p.size with hlt | hge
    · -- this move is the last one for the node if none comes behind
      have hlast : lastPlace p.size (move :: moves) node =
          (lastPlace p.size moves node).or (if node = move.1 then some move.2 else none) := by
        rw [lastPlace, accepted_cons_of_lt hlt, List.reverse_cons, Conversion.lookup_concat]
        rfl
      rw [hlast, subsetOf_of_assign (assign_eq_move hlt), Option.or_assoc]
      split <;> rfl
    · rw [move_eq_self hge, lastPlace, lastPlace, accepted_cons_of_ge hge]

/-! ## Bounds -/

/-- Single nodes have numbers below how many there are, which is also the
bound. -/
theorem bounded_singletons (nodeCount : Nat) : (singletons nodeCount).Bounded nodeCount where
  size_eq := size_singletons nodeCount
  lt_upperBound := by
    intro node subset h
    rw [subsetOf_singletons] at h
    split at h
    next hlt =>
      obtain rfl := Option.some.inj h
      exact hlt
    next => cases h

/-- What moves start from has its subsets below the bound. -/
theorem bounded_start (h : start = unassigned n ∨ start = singletons n) : start.Bounded n := by
  rcases h with rfl | rfl
  · exact bounded_unassigned n
  · exact bounded_singletons n

/-- One move, to a subset that is not at the top. -/
theorem Bounded.move (h : p.Bounded n) {move : Nat × Nat} (hmove : move.2 < Index.top) :
    (p.move move).Bounded n := by
  rcases Nat.lt_or_ge move.1 p.size with hlt | hge
  · obtain ⟨q, hq, hbounded, -⟩ := h.assign (h.size_eq ▸ hlt) hmove
    obtain rfl := Except.ok.inj ((assign_eq_move hlt).symm.trans hq)
    exact hbounded
  · rw [move_eq_self hge]
    exact h

/-- All moves, by induction on their list. -/
theorem Bounded.moveAll (h : p.Bounded n) (hmoves : ∀ move ∈ moves, move.2 < Index.top) :
    (p.moveAll moves).Bounded n := by
  induction moves generalizing p with
  | nil => exact h
  | cons move moves ih =>
    exact ih (h.move (hmoves move List.mem_cons_self)) fun other hother =>
      hmoves other (List.mem_cons_of_mem _ hother)

/-! ## Sizes -/

/-- The nodes that have a subset. -/
def assigned (p : Partition) : Finset Nat :=
  {node ∈ Finset.range p.size | (p.subsetOf node).isSome}

/-- The numbers of the subsets that nodes have, each of them once. -/
def inUse (p : Partition) : Finset Nat :=
  ((Finset.range p.size).image p.subsetOf).eraseNone

/-- Only nodes that exist have a subset. -/
theorem lt_size_of_subsetOf {node subset : Nat} (h : p.subsetOf node = some subset) :
    node < p.size := by
  by_contra hsize
  rw [subsetOf_eq_none (Nat.le_of_not_lt hsize)] at h
  cases h

theorem mem_inUse {subset : Nat} : subset ∈ p.inUse ↔ ∃ node, p.subsetOf node = some subset := by
  simp only [inUse, Finset.mem_eraseNone, Finset.mem_image, Finset.mem_range]
  exact ⟨fun ⟨node, _, hnode⟩ => ⟨node, hnode⟩,
    fun ⟨node, hnode⟩ => ⟨node, lt_size_of_subsetOf hnode, hnode⟩⟩

/-- All numbers in use are below the bound, so they are counted. -/
theorem Bounded.used_eq (h : p.Bounded n) : p.used = p.inUse := by
  ext subset
  rw [used, Finset.mem_filter, Finset.mem_range, mem_inUse]
  constructor
  · rintro ⟨-, node, hnode⟩
    exact ⟨node, mem_members.1 hnode⟩
  · rintro ⟨node, hnode⟩
    exact ⟨h.lt_upperBound node subset hnode, node, mem_members.2 hnode⟩

/-- **No node is lost**: the sizes add up to the number of nodes with a subset.
Each of these is a member of one subset, which is below the bound, so no entry
is missing. -/
theorem Bounded.sum_subsetSizes (h : p.Bounded n) :
    p.subsetSizes.toList.sum = p.assigned.card := by
  -- the sizes are the fibers of `subsetOf` below the bound, where the bound has it map
  have hbelow : Set.MapsTo (fun node => (p.subsetOf node).getD 0) p.assigned
      (Finset.range p.upperBound) := by
    intro node hnode
    obtain ⟨subset, hsubset⟩ := Option.isSome_iff_exists.1 (Finset.mem_filter.1 hnode).2
    simp only [hsubset, Option.getD_some, Finset.coe_range, Set.mem_Iio]
    exact h.lt_upperBound node subset hsubset
  have hfiber : ∀ subset,
      {node ∈ p.assigned | (p.subsetOf node).getD 0 = subset} = p.members subset := by
    intro subset
    ext node
    rw [Finset.mem_filter, assigned, Finset.mem_filter, mem_members, Finset.mem_range]
    constructor
    · rintro ⟨⟨-, hsome⟩, hsubset⟩
      obtain ⟨found, hfound⟩ := Option.isSome_iff_exists.1 hsome
      rw [hfound, Option.getD_some] at hsubset
      rw [hfound, hsubset]
    · intro hnode
      rw [hnode]
      exact ⟨⟨lt_size_of_subsetOf hnode, rfl⟩, rfl⟩
  rw [Quality.toList_subsetSizes rfl, Finset.card_eq_sum_card_fiberwise hbelow]
  simp only [hfiber]
  rfl

/-- In a set that is made key by key are the keys, and what was there before. -/
theorem mem_foldl_insert (keys : List Nat) (found : Std.TreeSet Nat) (key : Nat) :
    key ∈ keys.foldl (fun found key => found.insert key) found ↔ key ∈ found ∨ key ∈ keys := by
  induction keys generalizing found with
  | nil => simp
  | cons first keys ih =>
    rw [List.foldl_cons, ih, Std.TreeSet.mem_insert, compare_eq_iff_eq, List.mem_cons, eq_comm,
      or_comm (a := key = first), or_assoc]

/-- The numbers that are collected are those of the nodes, below the bound. -/
theorem usedSubsets_eq (p : Partition) :
    p.usedSubsets = (p.subsets.toList.filterMap (Option.filter (· < p.upperBound))).foldl
      (fun found key => found.insert key) ∅ := by
  rw [usedSubsets, ← Array.foldl_toList, List.foldl_filterMap]
  refine List.foldl_ext _ _ _ fun found slot _ => ?_
  cases slot with
  | none => rfl
  | some id => by_cases hid : id < p.upperBound <;> simp [Option.filter, hid]

/-- What is collected are the subsets that have a node. -/
theorem mem_usedSubsets {subset : Nat} : subset ∈ p.usedSubsets ↔ subset ∈ p.used := by
  have hslot : some subset ∈ p.subsets.toList ↔ (p.members subset).Nonempty := by
    rw [Array.mem_toList_iff, Array.mem_iff_getElem?]
    refine exists_congr fun node => ?_
    rw [mem_members, subsetOf, Option.join_eq_some_iff]
  rw [usedSubsets_eq, mem_foldl_insert, List.mem_filterMap, used, Finset.mem_filter,
    Finset.mem_range, ← hslot]
  simp [Option.filter_eq_some_iff, and_comm]

/-- So there are as many as subsets with a node. A set has no member twice. -/
theorem subsetCount_eq (p : Partition) : p.subsetCount = p.used.card := by
  have hnodup : p.usedSubsets.toList.Nodup := by
    have hdistinct := Std.TreeSet.distinct_toList (t := p.usedSubsets)
    exact hdistinct.imp fun hne => by simpa using hne
  have hmem : p.usedSubsets.toList.toFinset = p.used := by
    ext subset
    rw [List.mem_toFinset, Std.TreeSet.mem_toList, mem_usedSubsets]
  rw [subsetCount, ← Std.TreeSet.length_toList, ← List.toFinset_card_of_nodup hnodup, hmem]

/-- The same count, made from the sizes: a subset has a node if its size is not
zero. -/
theorem countP_subsetSizes (p : Partition) :
    p.subsetSizes.toList.countP (0 < ·) = p.subsetCount := by
  have hlength : p.occupied.length = p.used.card := rfl
  -- a subset has a positive size if it has a node, so both sides filter the same range
  rw [subsetCount_eq, ← hlength, occupied, Quality.toList_subsetSizes rfl, List.countP_map,
    List.countP_eq_length_filter]
  refine congrArg List.length (List.filter_congr fun subset _ => ?_)
  rw [Function.comp_apply, decide_eq_decide]
  exact Finset.card_pos

/-- All nodes have a subset if as many have one as there are. -/
theorem Bounded.ensureTotal_iff (h : p.Bounded n) (m : Nat) :
    p.ensureTotal m = .ok () ↔ m = n ∧ p.subsetSizes.toList.sum = n := by
  rw [ensureTotal_eq_ok_iff, h.sum_subsetSizes, h.size_eq, eq_comm (a := n)]
  refine and_congr_right fun hm => ?_
  have hrange : (Finset.range p.size).card = n := by rw [Finset.card_range, h.size_eq]
  rw [hm, ← hrange, assigned, Finset.card_filter_eq_iff]
  simp only [Finset.mem_range, Finset.card_range]

/-! ## Accounts -/

/-- What the figures of a partition say of the moves that made it from another one. -/
structure Accounts (n : Nat) (start : Partition) (moves : List (Nat × Nat)) (p : Partition) :
    Prop where
  size_eq : p.size = n
  /-- In every state a move of a node that does not exist is refused, and only that. -/
  refused_iff : ∀ node subset e,
    p.assign node subset = .error e ↔ n ≤ node ∧ e = .invalidNodeId node n
  unchanged : ∀ node subset, n ≤ node → p.move (node, subset) = p
  /-- Refused moves leave no trace. -/
  accepted_eq : start.moveAll (accepted n moves) = p
  subsetOf_eq : ∀ node, p.subsetOf node = (lastPlace n moves node).or (start.subsetOf node)
  lt_upperBound : ∀ node subset, p.subsetOf node = some subset → subset < p.upperBound
  size_subsetSizes : p.subsetSizes.size = p.upperBound
  getElem?_subsetSizes : ∀ subset < p.upperBound,
    p.subsetSizes[subset]? = some (p.members subset).card
  sum_subsetSizes : p.subsetSizes.toList.sum = p.assigned.card
  subsetCount_eq : p.subsetCount = p.inUse.card
  /-- The same count, made from the sizes. -/
  countP_subsetSizes : p.subsetSizes.toList.countP (0 < ·) = p.subsetCount
  ensureTotal_iff : ∀ m, p.ensureTotal m = .ok () ↔ m = n ∧ p.subsetSizes.toList.sum = n

/-- **Sizes account for every node.** Whatever moves have made of a partition
without subsets or of single nodes, as long as no subset has the largest index:
moves of nodes that do not exist change nothing, a node is where its last move
has put it, there is a size for every subset below the bound, and the sizes add
up to the nodes that are somewhere. -/
theorem moveAll_accounts (hstart : start = unassigned n ∨ start = singletons n)
    (hmoves : ∀ move ∈ moves, move.2 < Index.top) :
    Accounts n start moves (start.moveAll moves) := by
  have hbegin := bounded_start hstart
  have hbounded := hbegin.moveAll hmoves
  have hsize := hbounded.size_eq
  have hsizes := Quality.toList_subsetSizes hsize
  constructor
  case size_eq => exact hsize
  case refused_iff =>
    intro node subset e
    rw [assign_eq_error_iff, hsize]
  case unchanged => exact fun node subset hnode => move_eq_self (hsize.trans_le hnode)
  case accepted_eq =>
    rw [← hbegin.size_eq]
    exact moveAll_accepted start moves
  case subsetOf_eq =>
    rw [← hbegin.size_eq]
    exact subsetOf_moveAll start moves
  case lt_upperBound => exact hbounded.lt_upperBound
  case size_subsetSizes =>
    rw [← Array.length_toList, hsizes, List.length_map, List.length_range]
  case getElem?_subsetSizes =>
    intro subset hsubset
    rw [← Array.getElem?_toList, hsizes, List.getElem?_map, List.getElem?_range hsubset]
    rfl
  case sum_subsetSizes => exact hbounded.sum_subsetSizes
  case subsetCount_eq => rw [Partition.subsetCount_eq, hbounded.used_eq]
  case countP_subsetSizes => exact Partition.countP_subsetSizes _
  case ensureTotal_iff => exact hbounded.ensureTotal_iff

/-- Two nodes move and come back together; a node that does not exist does not
move. -/
theorem moveAll_accounts_together :
    let moves := [(0, 5), (1, 0), (7, 2), (2, 1), (0, 0)]
    let p : Partition := ⟨#[some 0, some 0, some 1], 6⟩
    (∀ move ∈ moves, move.2 < Index.top) ∧ (singletons 3).moveAll moves = p ∧
      Accounts 3 (singletons 3) moves p ∧ p.subsetSizes = #[2, 1, 0, 0, 0, 0] := by
  intro moves p
  have hmoves : ∀ move ∈ moves, move.2 < Index.top := by decide
  have hp : (singletons 3).moveAll moves = p := by decide +kernel
  exact ⟨hmoves, hp, hp ▸ moveAll_accounts (Or.inr rfl) hmoves, rfl⟩

end GraphMeasures.Partition
