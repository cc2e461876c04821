import GraphMeasures.Algorithm
import GraphMeasures.Proofs.Double.Ceiling
import GraphMeasures.Proofs.Reading
import GraphMeasures.Proofs.Score.FireTree

/-!
# GraphMeasures — fires in rounds and fires one by one

Fires are started in rounds, so some are started that are not needed, and idle
rounds are counted where fires are not. What comes out is nevertheless what
fires started one by one come to: those after the fire that reaches the target
are dropped, and the others count in their order.

* `Counts` — a run has counted the first fires and no others.
* `Underway` — what holds between two rounds, and is kept by a round
  (`Underway.addRound`).
* `target_eq` — the target is the share of the edges that a score asks for,
  rounded up.
* `burnAll_sequential` — the fires that count are the first ones up to the
  target, unless the run gives up before.
-/

namespace GraphMeasures.Score.Burning

/-! ## Fires one by one -/

/-- The ids that the first fires burn, in order. -/
def burntIds (fire : Nat → Array Nat) (count : Nat) : List Nat :=
  (List.range count).flatMap fun number => (fire number).toList

/-- For every id below a bound how often it is listed. -/
def histogram (bound : Nat) (ids : List Nat) : Array Nat :=
  (Array.range bound).map fun id => ids.count id

/-- The first fires together reach the target. -/
def Enough (target : Nat) (fire : Nat → Array Nat) (count : Nat) : Prop :=
  target ≤ (burntIds fire count).length

/-- No fire of the round burns an edge. -/
def IdleRound (fire : Nat → Array Nat) (round : Nat) : Prop :=
  ∀ i < firesPerRound, fire (round * firesPerRound + i) = #[]

/-- Of the first `rounds` rounds the last `n` are idle. -/
def LastIdle (fire : Nat → Array Nat) (rounds n : Nat) : Prop :=
  n ≤ rounds ∧ ∀ round, rounds - n ≤ round → round < rounds → IdleRound fire round

/-- The first fires do not reach the target, and they are whole rounds of which
the last `maxIdleRounds` are idle. -/
def GivesUp (target : Nat) (fire : Nat → Array Nat) (count : Nat) : Prop :=
  ¬Enough target fire count ∧
    ∃ rounds, count = rounds * firesPerRound ∧ LastIdle fire rounds maxIdleRounds

variable {target bound : Nat} {fire : Nat → Array Nat} {b : Burning}

/-- What more fires burn comes behind what the first ones burn. -/
theorem burntIds_add (first n : Nat) :
    burntIds fire (first + n) =
      burntIds fire first ++ (List.range' first n).flatMap fun number => (fire number).toList := by
  rw [burntIds, burntIds, List.range_eq_range', List.range_eq_range', ← List.flatMap_append,
    ← List.range'_append_1, Nat.zero_add]

theorem burntIds_succ (count : Nat) :
    burntIds fire (count + 1) = burntIds fire count ++ (fire count).toList := by
  rw [burntIds_add]
  simp

/-- More fires burn no less, so what is enough stays enough. -/
theorem Enough.mono {count more : Nat} (h : Enough target fire count) (hle : count ≤ more) :
    Enough target fire more := by
  obtain ⟨n, rfl⟩ := Nat.exists_eq_add_of_le hle
  unfold Enough at h ⊢
  rw [burntIds_add, List.length_append]
  omega

/-- Fires are enough from some number on, so the least such number is known by the one
before it, which is not enough. -/
theorem isLeast_enough {count : Nat} (h : Enough target fire (count + 1))
    (hnot : ¬Enough target fire count) : IsLeast {k | Enough target fire k} (count + 1) := by
  refine ⟨h, fun k hk => Nat.lt_of_not_le fun hle => hnot ?_⟩
  exact Enough.mono hk hle

/-- Whoever gives up has seen all fires of the idle rounds, at least. -/
theorem GivesUp.le {count : Nat} (h : GivesUp target fire count) :
    maxIdleRounds * firesPerRound ≤ count := by
  obtain ⟨-, rounds, rfl, hle, -⟩ := h
  exact Nat.mul_le_mul_right _ hle

/-- Nothing is burnt in idle rounds, and in no other: the fires of a round
together burn nothing only if each of them does. -/
theorem length_burntIds_round (round : Nat) :
    (burntIds fire ((round + 1) * firesPerRound)).length =
        (burntIds fire (round * firesPerRound)).length ↔ IdleRound fire round := by
  rw [Nat.succ_mul, burntIds_add, List.length_append, Nat.add_eq_left, List.length_eq_zero_iff,
    List.flatMap_eq_nil_iff]
  constructor
  · intro h i hi
    have hempty := h (round * firesPerRound + i) (List.mem_range'_1.2 ⟨by omega, by omega⟩)
    exact Array.toList_eq_nil_iff.1 hempty
  · intro h number hnumber
    obtain ⟨hfrom, hto⟩ := List.mem_range'_1.1 hnumber
    obtain ⟨i, rfl⟩ := Nat.exists_eq_add_of_le hfrom
    rw [h i (by omega)]

/-! ## Histograms -/

/-- Listing one more id adds one to its entry. An id that is not below the bound
has none, and nothing changes. -/
theorem modify_histogram (ids : List Nat) (id : Nat) :
    (histogram bound ids).modify id (· + 1) = histogram bound (ids ++ [id]) := by
  refine Array.ext (by simp [histogram]) fun i hi _ => ?_
  -- only the entry of this id grows
  rw [Array.getElem_modify]
  simp only [histogram, Array.getElem_map, Array.getElem_range, List.count_append,
    List.count_singleton, beq_iff_eq]
  split
  · rfl
  · rfl

/-- Listing more ids, one after the other. -/
theorem foldl_modify_histogram (ids more : List Nat) :
    more.foldl (fun hits id => hits.modify id (· + 1)) (histogram bound ids) =
      histogram bound (ids ++ more) := by
  induction more generalizing ids with
  | nil => rw [List.foldl_nil, List.append_nil]
  | cons id more ih =>
    rw [List.foldl_cons, modify_histogram, ih, List.append_assoc, List.singleton_append]

/-- All ids below the bound are counted, so the entries add up to the length of
the list. -/
theorem sum_histogram {ids : List Nat} (h : ∀ id ∈ ids, id < bound) :
    (histogram bound ids).sum = ids.length := by
  -- the bound is what lets the sum over all entries reach every id in the list
  have hcount : ∑ id ∈ Finset.range bound, (ids : Multiset Nat).count id = ids.length :=
    Multiset.sum_count_eq_card fun id hid => Finset.mem_range.2 (h id hid)
  rw [← hcount, histogram, ← Array.sum_toList, Array.toList_map, Array.toList_range]
  simp [Finset.sum, Multiset.range]

/-! ## What a run has counted -/

/-- The run has counted the first fires and no others. -/
structure Counts (bound : Nat) (fire : Nat → Array Nat) (count : Nat) (b : Burning) : Prop where
  hits : b.hits = histogram bound (burntIds fire count)
  burnt : b.burnt = (burntIds fire count).length

/-- At first no fire counts, and the entries are all zero. -/
theorem counts_start : Counts bound fire 0 (start bound) := by
  refine ⟨Array.ext (by simp [start, histogram]) fun i hi _ => ?_, rfl⟩
  simp [start, histogram, burntIds]

/-- A run goes on exactly as long as the fires that count are not enough. -/
theorem Counts.burnt_lt_iff {count : Nat} (h : Counts bound fire count b) :
    b.burnt < target ↔ ¬Enough target fire count := by
  rw [h.burnt, Enough, Nat.not_le]

/-- One more fire counts. -/
theorem Counts.addFire {count : Nat} (h : Counts bound fire count b) :
    Counts bound fire (count + 1) (b.addFire (fire count)) := by
  refine ⟨?_, ?_⟩
  · show (fire count).foldl (fun hits id => hits.modify id (· + 1)) b.hits = _
    rw [← Array.foldl_toList, h.hits, foldl_modify_histogram, burntIds_succ]
  · show b.burnt + (fire count).size = _
    rw [h.burnt, burntIds_succ, List.length_append]
    rfl

/-- Behind the target, fires are dropped without a trace. -/
theorem foldl_addFireUpTo_of_le (fires : List (Array Nat)) (h : ¬b.burnt < target) :
    fires.foldl (addFireUpTo target) b = b := by
  induction fires with
  | nil => rfl
  | cons ids fires ih => rw [List.foldl_cons, addFireUpTo, if_neg h, ih]

/-- The fires of a round are counted one by one, and no more of them once the
target is reached. So the number of fires that count is the least one that is
enough, unless it is that of all fires so far. -/
theorem Counts.addFires (target : Nat) {first : Nat} (h : Counts bound fire first b) (n : Nat) :
    ∃ count, first ≤ count ∧ count ≤ first + n ∧
      Counts bound fire count (((List.range' first n).map fire).foldl (addFireUpTo target) b) ∧
      (∀ k, first ≤ k → k < count → ¬Enough target fire k) ∧
      (count < first + n → Enough target fire count) := by
  -- fire by fire; the invariant is that the first ones are counted
  induction n generalizing first b with
  | zero =>
    exact ⟨first, Nat.le_refl _, Nat.le_refl _, h, fun k hk hlt => by omega, fun hlt => by omega⟩
  | succ n ih =>
    by_cases hburnt : b.burnt < target
    · rw [List.range'_succ, List.map_cons, List.foldl_cons, addFireUpTo, if_pos hburnt]
      obtain ⟨count, hfrom, hto, hcounts, hshort, hstop⟩ := ih h.addFire
      refine ⟨count, by omega, by omega, hcounts, fun k hk hlt => ?_, fun hlt => hstop (by omega)⟩
      rcases Nat.eq_or_lt_of_le hk with rfl | hk
      · exact h.burnt_lt_iff.1 hburnt
      · exact hshort k hk hlt
    · -- the target is reached, so the fires of the round are dropped
      rw [foldl_addFireUpTo_of_le _ hburnt]
      refine ⟨first, Nat.le_refl _, by omega, h, fun k hk hlt => by omega, fun _ => ?_⟩
      exact not_not.1 fun hnot => hburnt (h.burnt_lt_iff.2 hnot)

/-! ## Whole rounds -/

/-- A run between two rounds: it has counted all fires started so far, which do
not reach the target, it knows how many idle rounds came last, and there was no
cause to give up. -/
structure Underway (target bound : Nat) (fire : Nat → Array Nat) (rounds : Nat) (b : Burning) :
    Prop where
  fires : b.fires = rounds * firesPerRound
  counts : Counts bound fire b.fires b
  short : ∀ k < b.fires, ¬Enough target fire k
  idle : IsGreatest {n | LastIdle fire rounds n} b.idle
  active : ∀ k ≤ b.fires, ¬GivesUp target fire k

/-- Before the first round nothing has been started, and there is no cause to
give up, because there were no rounds that could be idle. -/
theorem underway_start : Underway target bound fire 0 (start bound) := by
  refine ⟨rfl, counts_start, fun k hk => absurd hk (Nat.not_lt_zero k),
    ⟨⟨Nat.le_refl _, ?_⟩, ?_⟩, ?_⟩
  · exact fun round _ hlt => absurd hlt (Nat.not_lt_zero round)
  · exact fun n hn => hn.1
  · rintro k hk ⟨-, rounds, rfl, hle, -⟩
    have hzero : rounds * firesPerRound = 0 := Nat.le_zero.1 hk
    simp only [firesPerRound, maxIdleRounds] at hzero hle
    omega

/-- One more round that is idle, or not: the last rounds are idle if this one is
and those before it are. -/
theorem lastIdle_succ_iff (rounds n : Nat) :
    LastIdle fire (rounds + 1) (n + 1) ↔ LastIdle fire rounds n ∧ IdleRound fire rounds := by
  constructor
  · rintro ⟨hle, hidle⟩
    refine ⟨⟨by omega, fun round hfrom hto => hidle round (by omega) (by omega)⟩, ?_⟩
    exact hidle rounds (by omega) (by omega)
  · rintro ⟨⟨hle, hidle⟩, hlast⟩
    refine ⟨by omega, fun round hfrom hto => ?_⟩
    rcases Nat.lt_succ_iff_lt_or_eq.1 hto with hlt | rfl
    · exact hidle round (by omega) hlt
    · exact hlast

theorem LastIdle.mono {rounds n m : Nat} (h : LastIdle fire rounds n) (hle : m ≤ n) :
    LastIdle fire rounds m :=
  ⟨hle.trans h.1, fun round hfrom hto => h.2 round (by omega) hto⟩

/-- After an idle round there is one more idle round at the end. -/
theorem isGreatest_lastIdle_of_idle {rounds n : Nat} (h : IsGreatest {n | LastIdle fire rounds n} n)
    (hidle : IdleRound fire rounds) : IsGreatest {n | LastIdle fire (rounds + 1) n} (n + 1) := by
  refine ⟨(lastIdle_succ_iff rounds n).2 ⟨h.1, hidle⟩, fun m hm => ?_⟩
  cases m with
  | zero => exact Nat.zero_le _
  | succ m => exact Nat.succ_le_succ (h.2 ((lastIdle_succ_iff rounds m).1 hm).1)

/-- After a round that is not idle there are no idle rounds at the end, and
counting starts again. -/
theorem isGreatest_lastIdle_of_not_idle {rounds : Nat} (hidle : ¬IdleRound fire rounds) :
    IsGreatest {n | LastIdle fire (rounds + 1) n} 0 := by
  refine ⟨⟨Nat.zero_le _, fun round hfrom hto => by omega⟩, fun m hm => ?_⟩
  cases m with
  | zero => exact Nat.le_refl _
  | succ m => exact absurd ((lastIdle_succ_iff rounds m).1 hm).2 hidle

/-- The run has ended where fires started one by one end: it gives up, or else
it has just reached the target. -/
def Ended (target bound : Nat) (fire : Nat → Array Nat) (b : Burning) : Prop :=
  ∃ count, Counts bound fire count b ∧
    (IsLeast {k | GivesUp target fire k} count ∨
      (∀ k, ¬GivesUp target fire k) ∧ IsLeast {k | Enough target fire k} count)

/-- Nobody gives up where the target is reached. -/
theorem Enough.not_givesUp {count : Nat} (henough : Enough target fire count)
    (h : ∀ k < count, ¬GivesUp target fire k) (k : Nat) : ¬GivesUp target fire k := by
  rcases Nat.lt_or_ge k count with hlt | hle
  · exact h k hlt
  · exact fun hk => hk.1 (henough.mono hle)

namespace Underway

variable {rounds : Nat}

/-- A run that gives up within the rounds so far and one more gives up at its
end. -/
theorem givesUp_le (h : Underway target bound fire rounds b) {k : Nat}
    (hk : GivesUp target fire k) (hle : k ≤ (rounds + 1) * firesPerRound) :
    k = (rounds + 1) * firesPerRound ∧ LastIdle fire (rounds + 1) maxIdleRounds := by
  -- it gave up at the end of some round, and not of one of those before
  have hlate : ¬k ≤ rounds * firesPerRound := fun hearly => h.active k (h.fires ▸ hearly) hk
  obtain ⟨-, r, rfl, hidle⟩ := hk
  have hr : r = rounds + 1 := by
    simp only [firesPerRound] at hle hlate
    omega
  subst hr
  exact ⟨rfl, hidle⟩

/-- One more round: the run goes on, or it ends where it should. It ends with
the target within the round, and then there was no cause to give up before; or
at the end of the round with so many idle rounds that nothing further is
started. Otherwise all fires of the round count, and what holds between rounds
holds again. -/
theorem addRound (h : Underway target bound fire rounds b) :
    let next := b.addRound target ((List.range' b.fires firesPerRound).map fire)
    (next.idle < maxIdleRounds ∧ Underway target bound fire (rounds + 1) next) ∨
      (Ended target bound fire next ∧ (next.burnt < target → maxIdleRounds ≤ next.idle)) := by
  intro next
  obtain ⟨count, hfrom, hto, hcounts, hshort, hstop⟩ := h.counts.addFires target
    firesPerRound
  have hnext : Counts bound fire count next := ⟨hcounts.hits, hcounts.burnt⟩
  have hfires : next.fires = (rounds + 1) * firesPerRound := by
    rw [Nat.succ_mul, ← h.fires]
    rfl
  have hshort : ∀ k < count, ¬Enough target fire k := fun k hk =>
    (Nat.lt_or_ge k b.fires).elim (h.short k) fun hle => hshort k hle hk
  by_cases henough : Enough target fire count
  · -- the target is reached within the round
    have hactive : ∀ k < count, ¬GivesUp target fire k := by
      intro k hlt hk
      have hlast := (h.givesUp_le hk (by rw [Nat.succ_mul, ← h.fires]; omega)).1
      rw [Nat.succ_mul, ← h.fires] at hlast
      omega
    refine Or.inr ⟨⟨count, hnext, Or.inr ⟨henough.not_givesUp hactive, henough, ?_⟩⟩, fun hlt => ?_⟩
    · exact fun k hk => Nat.le_of_not_lt fun hlt => hshort k hlt hk
    · exact absurd henough (hnext.burnt_lt_iff.1 hlt)
  · -- all fires of the round count
    have hall : count = b.fires + firesPerRound :=
      Nat.le_antisymm hto (Nat.le_of_not_lt fun hlt => henough (hstop hlt))
    have hcount : count = next.fires := hall
    rw [hcount] at hnext henough hshort
    have hsame : next.burnt = b.burnt ↔ IdleRound fire rounds := by
      rw [← length_burntIds_round, hnext.burnt, h.counts.burnt, hfires, h.fires]
    have hidle : IsGreatest {n | LastIdle fire (rounds + 1) n} next.idle := by
      show IsGreatest _ (if next.burnt = b.burnt then b.idle + 1 else 0)
      by_cases hround : IdleRound fire rounds
      · rw [if_pos (hsame.2 hround)]
        exact isGreatest_lastIdle_of_idle h.idle hround
      · rw [if_neg fun heq => hround (hsame.1 heq)]
        exact isGreatest_lastIdle_of_not_idle hround
    by_cases hlimit : maxIdleRounds ≤ next.idle
    · refine Or.inr ⟨⟨next.fires, hnext, Or.inl ⟨?_, fun k hk => ?_⟩⟩, fun _ => hlimit⟩
      · exact ⟨henough, rounds + 1, hfires, hidle.1.mono hlimit⟩
      · refine Nat.le_of_not_lt fun hlt => ?_
        have hlast := (h.givesUp_le hk (by omega)).1
        omega
    · refine Or.inl ⟨Nat.lt_of_not_le hlimit, hfires, hnext, hshort, hidle, fun k hle hk => ?_⟩
      exact hlimit (hidle.2 (h.givesUp_le hk (hfires ▸ hle)).2)

/-- Fires that are given are all there at once. -/
theorem round_eq (b : Burning) :
    b.round target (fun number => .ok (fire number)) =
      .ok (b.addRound target ((List.range' b.fires firesPerRound).map fire)) := by
  have hmap : (List.range' b.fires firesPerRound).mapM
      (fun number => (.ok (fire number) : Except (Failure EngineError) (Array Nat))) =
        .ok ((List.range' b.fires firesPerRound).map fire) := List.mapM_pure
  rw [round, hmap]
  rfl

/-- The run comes to its end, round by round. The induction is that of the
function, with its four ways on: a fire that fails, an end for idle rounds, one
more round, and an end at the target. The first of them is not there with fires
that are given. -/
theorem burnAll (h : Underway target bound fire rounds b) :
    ∃ final, b.burnAll target (fun number => .ok (fire number)) = .ok final ∧
      Ended target bound fire final := by
  induction b using burnAll.induct target (fun number => .ok (fire number)) generalizing rounds with
  | case1 b hgo failure hround =>
    -- fires that are given do not fail
    rw [round_eq] at hround
    cases hround
  | case2 b hgo next hround hlimit =>
    -- too many idle rounds: nothing further is started
    rw [burnAll_eq, if_pos hgo, hround]
    rw [round_eq] at hround
    obtain rfl := Except.ok.inj hround
    refine ⟨_, if_pos hlimit, ?_⟩
    rcases h.addRound with ⟨hidle, -⟩ | ⟨hended, -⟩
    · exact absurd hlimit (Nat.not_le_of_lt hidle)
    · exact hended
  | case3 b hgo next hround hlimit ih =>
    have hon : b.burnAll target (fun number => .ok (fire number)) =
        next.burnAll target fun number => .ok (fire number) := by
      rw [burnAll_eq, if_pos hgo, hround]
      exact if_neg hlimit
    rw [hon]
    rw [round_eq] at hround
    obtain rfl := Except.ok.inj hround
    rcases h.addRound with ⟨-, hnext⟩ | ⟨hended, hidle⟩
    · exact ih hnext
    · -- the target has been reached, so no other round is started
      exact ⟨_, by rw [Burning.burnAll, if_neg fun hlt => hlimit (hidle hlt)], hended⟩
  | case4 b hstop =>
    -- no round is started at all, so the fires so far are enough
    have henough : Enough target fire b.fires := not_not.1 fun hnot =>
      hstop (h.counts.burnt_lt_iff.2 hnot)
    refine ⟨b, by rw [Burning.burnAll, if_neg hstop], b.fires, h.counts, Or.inr ⟨?_, henough, ?_⟩⟩
    · exact henough.not_givesUp fun k hk => h.active k hk.le
    · exact fun k hk => Nat.le_of_not_lt fun hlt => h.short k hlt hk

end Underway

/-! ## The scores -/

theorem mem_burntIds {count id : Nat} (h : id ∈ burntIds fire count) :
    ∃ number, id ∈ fire number := by
  obtain ⟨number, -, hid⟩ := List.mem_flatMap.1 h
  exact ⟨number, Array.mem_toList_iff.1 hid⟩

/-- The last fire that counts was needed, so without it the target is not
reached. -/
theorem length_burntIds_lt {last : Nat} (h : IsLeast {k | Enough target fire k} (last + 1)) :
    (burntIds fire (last + 1)).length < target + (fire last).size := by
  have hshort : ¬Enough target fire last := fun henough =>
    Nat.not_succ_le_self last (h.2 henough)
  rw [Enough, Nat.not_le] at hshort
  rw [burntIds_succ, List.length_append, ← Array.length_toList]
  omega

/-- The number of edges to burn is the share of the edges that is asked for, rounded up:
the product of the ratio and the number of edges is a double, of which the exact value is
rounded. It stays at the top, also where the product is infinite. -/
theorem target_eq {spread ratio : Float} {f : ForestFire}
    (hf : ForestFire.create spread ratio = .ok f) (edgeCount : Nat) :
    f.target edgeCount =
      if (ratio * Float.ofNat edgeCount).isFinite then
        min ⌈exactValue (ratio * Float.ofNat edgeCount)⌉₊ Index.top
      else Index.top := by
  unfold ForestFire.create at hf
  split at hf
  · exact absurd hf (by simp)
  split at hf
  · exact absurd hf (by simp)
  next hratio =>
  obtain rfl := Except.ok.inj hf
  -- a ratio that is admitted is a finite number above zero
  rw [Bool.not_eq_true, Bool.not_eq_false', Bool.and_eq_true, decide_eq_true_iff] at hratio
  obtain ⟨q, hq⟩ := Double.exists_exactly hratio.1
  obtain ⟨m, e, hm, hunpack⟩ :=
    hq.unpack_of_pos ((Double.exactly_zero.lt_iff hq).1 hratio.2)
  exact Double.aboveFloat_eq (nonnegative_mul_ofNat hunpack edgeCount)

/-- The score of a graph with edges is what its fires come to, if the machine builds the
pool that they burn on. -/
theorem answers_forestFire (f : ForestFire) {g : Graph Float} (hindex : g.hasEdgeIds = true)
    (hedges : g.edgeCount ≠ 0) (config : RunConfig)
    (hfire : ∀ number, f.fire g config.seed number = .ok (fire number))
    (hfinal : (start g.edgeIdBound).burnAll (f.target g.edgeCount)
      (fun number => .ok (fire number)) = .ok b) {around : Surroundings} :
    ((EdgeScore.forestFire f).compute g config).Answers () around
      ((config.buildPool around.machine).mapError .error >>= fun _ =>
        .ok (b.hits.map Float.ofNat)) := by
  obtain ⟨index, hindex⟩ := Option.isSome_iff_exists.1 hindex
  have hrequire : g.requireIndex = .ok index := by rw [Graph.requireIndex, hindex]
  have hburning : f.burning g config.seed = .ok b := by
    have hbound : index.bound = g.edgeIdBound := by
      rw [Graph.edgeIdBound, hindex]
      rfl
    rw [ForestFire.burning, hrequire]
    show (if _ then _ else _) = _
    rw [if_neg hedges, funext hfire, hbound]
    exact hfinal
  -- what is logged at the end shows in the journal only
  have hlog : (EdgeScore.logBurning (f.target g.edgeCount) b :
      Run Unit EngineError Unit).Answers () around (.ok ()) := by
    unfold EdgeScore.logBurning
    split
    · exact (Run.answers_log _ _ _).andThen (Run.answers_log _ _ _)
    · exact Run.answers_log _ _ _
  have hpool : (EdgeScore.onPool config (f.burning g config.seed)).Answers () around
      ((config.buildPool around.machine).mapError .error >>= fun _ => .ok b) := by
    rw [hburning]
    exact Run.answers_onPool config _
  refine Run.Answers.atScene fun scene _ => Run.Answers.span ?_
  rw [hrequire]
  refine (Run.answers_pure index).andThen ?_
  rw [if_neg hedges]
  -- with a pool the run goes on with what its fires have come to
  cases hbuild : config.buildPool around.machine with
  | error e =>
    rw [hbuild] at hpool
    exact hpool.bind (f := fun _ => .ok (b.hits.map Float.ofNat)) fun _ h => by cases h
  | ok =>
    rw [hbuild] at hpool
    exact Run.Answers.andThen hpool (hlog.andThen (Run.answers_pure _))

/-- **Rounds do not show, except where the run gives up.** A score asks for a share of the
edges, and the target is that share rounded up. Whatever edges the fires burn, the run
ends, and the score of an edge says how many of the first fires burnt it. These are as
many as are needed to reach the target, or else all up to the end of the first
`maxIdleRounds` idle rounds in a row. The scores of a graph are those of its fires, on
every machine that builds the pool for them. -/
theorem burnAll_sequential {spread ratio : Float} {f : ForestFire}
    (hf : ForestFire.create spread ratio = .ok f) (edgeCount bound : Nat) (fire : Nat → Array Nat)
    (hids : ∀ number, ∀ id ∈ fire number, id < bound) :
    let share := ratio * Float.ofNat edgeCount
    let target := if share.isFinite then min ⌈exactValue share⌉₊ Index.top else Index.top
    ∃ count final,
      (start bound).burnAll (f.target edgeCount) (fun number => .ok (fire number)) = .ok final ∧
      final.hits = histogram bound (burntIds fire count) ∧
      (IsLeast {k | GivesUp target fire k} count ∨
        (∀ k, ¬GivesUp target fire k) ∧ IsLeast {k | Enough target fire k} count ∧
          target ≤ final.hits.sum ∧
          ∀ last, count = last + 1 → final.hits.sum < target + (fire last).size) ∧
      ∀ (g : Graph Float) (config : RunConfig), g.hasEdgeIds = true → g.edgeCount = edgeCount →
        edgeCount ≠ 0 → g.edgeIdBound = bound →
        (∀ number, f.fire g config.seed number = .ok (fire number)) → ∀ stage : Stage Unit,
          (((EdgeScore.forestFire f).compute g config).on stage).1 =
            ((config.buildPool stage.scene.machine).mapError .error >>= fun _ =>
              .ok (final.hits.map Float.ofNat)) := by
  intro share target
  have htarget : f.target edgeCount = target := target_eq hf edgeCount
  obtain ⟨final, hfinal, count, hcounts, hend⟩ :=
    (underway_start : Underway target bound fire 0 (start bound)).burnAll
  -- every burnt id is in range, so the histogram counts all of them
  have hsum : final.hits.sum = (burntIds fire count).length := by
    rw [hcounts.hits]
    refine sum_histogram fun id hid => ?_
    obtain ⟨number, hnumber⟩ := mem_burntIds hid
    exact hids number id hnumber
  rw [← htarget] at hfinal
  refine ⟨count, final, hfinal, hcounts.hits, ?_, ?_⟩
  · -- giving up or enough, whichever comes first
    rcases hend with hgives | ⟨hnot, hleast⟩
    · exact Or.inl hgives
    · refine Or.inr ⟨hnot, hleast, ?_, fun last hlast => ?_⟩
      · rw [hsum]
        exact hleast.1
      · subst hlast
        rw [hsum]
        exact length_burntIds_lt hleast
  · rintro g config hindex rfl hedges rfl hfire stage
    exact (answers_forestFire f hindex hedges config hfire hfinal stage ⟨rfl, rfl⟩).1

/-- A share of one and a half of one edge is two edges. Two nodes with an edge between them
are burnt by the first two fires, and then the target is reached. -/
theorem burnAll_sequential_pair :
    let f : ForestFire := ⟨0.5, 1.5⟩
    let g := (Graph.empty 2 false false).run [.add 0 1 1.0, .index]
    ForestFire.create 0.5 1.5 = .ok f ∧ g.hasEdgeIds = true ∧ g.edgeCount = 1 ∧
      g.edgeIdBound = 1 ∧ ∃ fire : Nat → Array Nat, (∀ number, ∀ id ∈ fire number, id < 1) ∧
        (∀ number, f.fire g 1 number = .ok (fire number)) ∧
        (((EdgeScore.forestFire f).compute g default).on default).1 = .ok #[2.0] := by
  intro f g
  have hids : g.hasEdgeIds = true := rfl
  have hcreate : ForestFire.create 0.5 1.5 = .ok f := by
    have hspread : ((0.5 : Float) > 0.0 && (0.5 : Float) < 1.0) = true := by decide +kernel
    have hratio : ((1.5 : Float).isFinite && (1.5 : Float) > 0.0) = true := by decide +kernel
    rw [ForestFire.create, hspread, hratio]
    rfl
  choose fire hfire hbelow using fun number =>
    Fire.exists_fire f (Graph.navigable_run hids) (by decide) 1 number
  have hburnt : ∀ number < 2, (f.fire g 1 number).toOption = some #[0] := by decide +kernel
  have hfires : ∀ number < 2, fire number = #[0] := by
    intro number hlt
    have h := hburnt number hlt
    rw [hfire] at h
    exact Option.some.inj h
  -- as a double the share is exact, so it is rounded up to two
  have hshare : exactValue ((1.5 : Float) * Float.ofNat 1) = 3 / 2 := by
    show ((6755399441055744 : ℕ) * 2 ^ (-52 : ℤ) : ℚ) = 3 / 2
    norm_num
  have hfinite : ((1.5 : Float) * Float.ofNat 1).isFinite = true := by decide +kernel
  have hceil : ⌈(3 / 2 : ℚ)⌉₊ = 2 := by norm_num [Nat.ceil_eq_iff]
  have hmin : min 2 Index.top = 2 := by decide
  obtain ⟨count, final, -, hhits, hend, hcompute⟩ :=
    burnAll_sequential hcreate 1 1 fire hbelow
  rw [if_pos hfinite, hshare, hceil, hmin] at hend
  have hscores := hcompute g default hids rfl one_ne_zero rfl hfire default
  refine ⟨hcreate, hids, rfl, rfl, fire, hbelow, hfire, ?_⟩
  -- two fires are enough, and one is not
  have htwo : burntIds fire 2 = [0, 0] := by
    rw [burntIds_succ, burntIds_succ, hfires 0 (by decide), hfires 1 (by decide)]
    rfl
  have hone : burntIds fire 1 = [0] := by
    rw [burntIds_succ, hfires 0 (by decide)]
    rfl
  have henough : Enough 2 fire 2 := by
    rw [Enough, htwo]
    rfl
  have hnotEnough : ¬Enough 2 fire 1 := by
    rw [Enough, hone]
    decide
  have hcount : count = 2 := by
    rcases hend with hgives | ⟨-, hcount, -⟩
    · -- whoever gives up has seen many more fires than two
      exact absurd (henough.mono (le_trans (by decide) hgives.1.le)) hgives.1.1
    · exact hcount.unique (isLeast_enough henough hnotEnough)
  subst hcount
  have hhits : final.hits.map Float.ofNat = #[2.0] := by
    rw [hhits, htwo]
    decide +kernel
  rw [hscores, hhits]
  rfl

end GraphMeasures.Score.Burning
