import Mathlib.Data.Set.Finite.Basic

/-!
# GraphMeasures — stable order by a key

Edges are listed node by node and, at one node, in the order in which they were
added. This is a stable order by a key, and this module is about such orders.

* `buckets key n xs` — the elements with key `0`, then those with key `1`, and
  so on below `n`.
* `place key xs k` — where the element with position `k` gets to.
* `buckets_eq_mergeSort` — it is the stable sort by the key.
* `getElem?_buckets_place`, `bijOn_place` — every element gets to its place, and
  the places are the positions again.
-/

namespace GraphMeasures.StableOrder

variable {α β : Type}

/-! ## Positions after a filter -/

/-- The elements of a filtered list and their positions there: an element that
is kept gets to the position which is the number of those kept before it. -/
theorem getElem?_filter_iff {q : α → Bool} {xs : List α} {i : Nat} {x : α} :
    (xs.filter q)[i]? = some x ↔
      ∃ k, xs[k]? = some x ∧ q x = true ∧ i = (xs.take k).countP q := by
  constructor
  · intro h
    induction xs generalizing i with
    | nil => simp at h
    | cons a xs ih =>
      -- an element that is left out shifts the positions of the list only
      by_cases ha : q a = true
      · rw [List.filter_cons_of_pos ha] at h
        cases i with
        | zero =>
          obtain rfl : a = x := by simpa using h
          exact ⟨0, rfl, ha, by simp⟩
        | succ i =>
          obtain ⟨k, hk, hq, hi⟩ := ih (by simpa using h)
          exact ⟨k + 1, by simpa using hk, hq, by simp [hi, ha]⟩
      · rw [List.filter_cons_of_neg ha] at h
        obtain ⟨k, hk, hq, hi⟩ := ih h
        exact ⟨k + 1, by simpa using hk, hq, by simp [hi, ha]⟩
  · rintro ⟨k, hk, hq, rfl⟩
    obtain ⟨hlt, rfl⟩ := List.getElem?_eq_some_iff.1 hk
    have hsplit : xs.filter q = (xs.take k).filter q ++ (xs.drop k).filter q := by
      rw [← List.filter_append, List.take_append_drop]
    -- the element is the first one behind the split
    rw [hsplit, List.countP_eq_length_filter, List.getElem?_append_right (Nat.le_refl _),
      Nat.sub_self, List.drop_eq_getElem_cons hlt, List.filter_cons_of_pos hq]
    rfl

/-! ## Buckets -/

/-- The elements in the order of their keys below a bound, those with one key
in the order in which they stand. -/
def buckets (key : α → Nat) (bound : Nat) (xs : List α) : List α :=
  (List.range bound).flatMap fun b => xs.filter (key · = b)

theorem buckets_succ (key : α → Nat) (bound : Nat) (xs : List α) :
    buckets key (bound + 1) xs = buckets key bound xs ++ xs.filter (key · = bound) := by
  simp [buckets, List.range_succ]

/-- Elements may be changed before they are put into buckets or after, if the
keys are read accordingly. -/
theorem buckets_map (key : β → Nat) (bound : Nat) (f : α → β) (xs : List α) :
    buckets key bound (xs.map f) = (buckets (key ∘ f) bound xs).map f := by
  simp [buckets, List.map_flatMap, List.filter_map, Function.comp_def]

/-- In the buckets are the elements of the list whose keys are below the
bound. -/
theorem mem_buckets {key : α → Nat} {bound : Nat} {xs : List α} {x : α} :
    x ∈ buckets key bound xs ↔ x ∈ xs ∧ key x < bound := by
  simp only [buckets, List.mem_flatMap, List.mem_range, List.mem_filter, decide_eq_true_eq]
  constructor
  · rintro ⟨b, hb, hx, rfl⟩
    exact ⟨hx, hb⟩
  · rintro ⟨hx, hb⟩
    exact ⟨key x, hb, hx, rfl⟩

/-- Below the next bound are the keys below the old one and those that it is. -/
theorem countP_lt_succ (key : α → Nat) (b : Nat) (xs : List α) :
    xs.countP (key · < b + 1) = xs.countP (key · < b) + xs.countP (key · = b) := by
  induction xs with
  | nil => rfl
  | cons x xs ih =>
    simp only [List.countP_cons, ih, decide_eq_true_eq]
    split <;> split <;> split <;> omega

/-- Every element with a key below the bound is in one bucket, so the buckets
are as long as there are such elements. -/
theorem length_buckets (key : α → Nat) (bound : Nat) (xs : List α) :
    (buckets key bound xs).length = xs.countP (key · < bound) := by
  induction bound with
  | zero => simp [buckets]
  | succ bound ih =>
    rw [buckets_succ, List.length_append, ih, ← List.countP_eq_length_filter, countP_lt_succ]

/-! ## Places -/

/-- Where the element with some position gets to: behind the elements with
smaller keys and the earlier ones with its own. A position without an element
stays. -/
def place (key : α → Nat) (xs : List α) (k : Nat) : Nat :=
  match xs[k]? with
  | some x => xs.countP (key · < key x) + (xs.take k).countP (key · = key x)
  | none => k

/-- The place of an element: behind all those with smaller keys, and behind
those with its own key that come before it in the list. -/
theorem place_eq {key : α → Nat} {xs : List α} {k : Nat} {x : α} (h : xs[k]? = some x) :
    place key xs k = xs.countP (key · < key x) + (xs.take k).countP (key · = key x) := by
  rw [place, h]

/-- Only the keys decide about places. -/
theorem place_map (key : β → Nat) (f : α → β) (xs : List α) (k : Nat) :
    place key (xs.map f) k = place (key ∘ f) xs k := by
  unfold place
  rw [List.getElem?_map]
  cases xs[k]? with
  | none => rfl
  | some x => simp [← List.map_take, List.countP_map, Function.comp_def]

/-- Numbering the elements does not change their places. -/
theorem place_zipIdx (key : α → Nat) (xs : List α) (k : Nat) :
    place (key ∘ Prod.fst) xs.zipIdx k = place key xs k := by
  rw [← place_map, List.zipIdx_map_fst]

/-- Every element is found at its place. The induction is on the bound: an
element is in the last bucket or in one of those before, and its place counts
accordingly. -/
theorem getElem?_buckets_place {key : α → Nat} {bound : Nat} {xs : List α} {k : Nat} {x : α}
    (h : xs[k]? = some x) (hx : key x < bound) :
    (buckets key bound xs)[place key xs k]? = some x := by
  -- the bucket of `x` and what comes in front of it
  have hsplit : ∃ rest, buckets key bound xs =
      buckets key (key x) xs ++ (xs.filter (key · = key x) ++ rest) := by
    obtain ⟨d, rfl⟩ : ∃ d, bound = key x + 1 + d := ⟨bound - (key x + 1), by omega⟩
    refine ⟨((List.range d).map (key x + 1 + ·)).flatMap fun b => xs.filter (key · = b), ?_⟩
    rw [← List.append_assoc, ← buckets_succ, buckets, List.range_add, List.flatMap_append]
    rfl
  obtain ⟨rest, hsplit⟩ := hsplit
  have hin : (xs.filter (key · = key x))[(xs.take k).countP (key · = key x)]? = some x :=
    getElem?_filter_iff.2 ⟨k, h, by simp, rfl⟩
  rw [hsplit, place_eq h, ← length_buckets, List.getElem?_append_right (by omega),
    Nat.add_sub_cancel_left, List.getElem?_append_left (List.getElem?_eq_some_iff.1 hin).1]
  exact hin

/-- An element gets to a position of the list. -/
theorem place_lt {key : α → Nat} {xs : List α} {k : Nat} (hk : k < xs.length) :
    place key xs k < xs.length := by
  have h := getElem?_buckets_place (List.getElem?_eq_getElem hk) (Nat.lt_succ_self (key xs[k]))
  have hlt := (List.getElem?_eq_some_iff.1 h).1
  rw [length_buckets] at hlt
  exact Nat.lt_of_lt_of_le hlt List.countP_le_length

/-- No two elements get to the same place. Numbered elements are all different,
and each is found at its place. -/
theorem place_injOn (key : α → Nat) (xs : List α) :
    Set.InjOn (place key xs) (Set.Iio xs.length) := by
  intro j hj k hk h
  obtain ⟨bound, hbound⟩ : ∃ bound, key xs[j] < bound ∧ key xs[k] < bound :=
    ⟨max (key xs[j]) (key xs[k]) + 1, by omega, by omega⟩
  -- ordering the elements together with their positions keeps the positions visible
  have hfound : ∀ {i : Nat} (hi : i < xs.length), key xs[i] < bound →
      (buckets (key ∘ Prod.fst) bound xs.zipIdx)[place key xs i]? = some (xs[i], i) := by
    intro i hi hlt
    rw [← place_zipIdx]
    exact getElem?_buckets_place (by simp [hi]) hlt
  have hsame := (hfound hj hbound.1).symm.trans (h ▸ hfound hk hbound.2)
  exact congrArg Prod.snd (Option.some.inj hsame)

/-- The places are the positions again, each once: as many as there are
positions, and no two the same. -/
theorem bijOn_place (key : α → Nat) (xs : List α) :
    Set.BijOn (place key xs) (Set.Iio xs.length) (Set.Iio xs.length) := by
  have hmaps : Set.MapsTo (place key xs) (Set.Iio xs.length) (Set.Iio xs.length) :=
    fun _ hk => place_lt hk
  exact ((Set.finite_lt_nat xs.length).injOn_iff_bijOn_of_mapsTo hmaps).1 (place_injOn key xs)

/-! ## Sorting -/

/-- Smaller keys come first, and of equal keys the elements that come first in
the list. Numbering the elements makes them all different, so this order is a
strict one. -/
theorem pairwise_buckets_zipIdx (key : α → Nat) (bound : Nat) (xs : List α) :
    (buckets (key ∘ Prod.fst) bound xs.zipIdx).Pairwise
      fun x y => List.zipIdxLE (fun a b => key a ≤ key b) x y = true := by
  rw [buckets, List.pairwise_flatMap]
  constructor
  · -- inside a bucket the positions ascend
    intro b _
    have hpos : xs.zipIdx.Pairwise (fun x y => x.2 ≤ y.2) := by
      rw [← List.pairwise_map (f := Prod.snd), List.zipIdx_map_snd]
      exact List.pairwise_le_range'
    rw [List.pairwise_filter]
    refine hpos.imp fun {x y} hxy hx hy => ?_
    simp only [Function.comp_apply, decide_eq_true_eq] at hx hy
    simp [List.zipIdxLE, hx, hy, hxy]
  · -- from one bucket to a later one the keys do
    refine (List.pairwise_lt_range).imp fun {b c} hbc x hx y hy => ?_
    simp only [List.mem_filter, Function.comp_apply, decide_eq_true_eq] at hx hy
    have hxy : key x.1 ≤ key y.1 := by omega
    have hyx : ¬ key y.1 ≤ key x.1 := by omega
    simp [List.zipIdxLE, hxy, hyx]

/-- The buckets hold the elements with keys below the bound, each as often as
the list does. Every element is in the one bucket of its key. -/
theorem buckets_perm_filter (key : α → Nat) (bound : Nat) (xs : List α) :
    (buckets key bound xs).Perm (xs.filter (key · < bound)) := by
  induction bound with
  | zero => simp [buckets]
  | succ bound ih =>
    have hlt : (xs.filter (key · < bound + 1)).filter (key · < bound) =
        xs.filter (key · < bound) := by
      rw [List.filter_filter]
      refine List.filter_congr fun x _ => ?_
      rw [← Bool.decide_and, decide_eq_decide]
      omega
    have heq : (xs.filter (key · < bound + 1)).filter (fun x => !decide (key x < bound)) =
        xs.filter (key · = bound) := by
      rw [List.filter_filter]
      refine List.filter_congr fun x _ => ?_
      rw [← decide_not, ← Bool.decide_and, decide_eq_decide]
      omega
    -- the elements below the next bound, split at this one
    rw [buckets_succ]
    refine (ih.append_right _).trans ?_
    rw [← hlt, ← heq]
    exact List.filter_append_perm _ _

/-- The buckets hold what the list holds when the bound is above all keys. -/
theorem buckets_perm {key : α → Nat} {bound : Nat} {xs : List α}
    (h : ∀ x ∈ xs, key x < bound) : (buckets key bound xs).Perm xs := by
  have hall : xs.filter (key · < bound) = xs := List.filter_eq_self.2 (by simpa using h)
  simpa only [hall] using buckets_perm_filter key bound xs

/-- The buckets of all keys are the stable sort by the key. Both hold the same
numbered elements in the same order, and a list is known by these two. -/
theorem buckets_eq_mergeSort {key : α → Nat} {bound : Nat} {xs : List α}
    (h : ∀ x ∈ xs, key x < bound) :
    buckets key bound xs = xs.mergeSort (fun a b => key a ≤ key b) := by
  have hz : ∀ x ∈ xs.zipIdx, (key ∘ Prod.fst) x < bound := fun x hx =>
    h x.1 (List.fst_mem_of_mem_zipIdx hx)
  have htrans : ∀ a b c : α, decide (key a ≤ key b) = true → decide (key b ≤ key c) = true →
      decide (key a ≤ key c) = true := by
    simp only [decide_eq_true_eq]
    omega
  have htotal : ∀ a b : α, (decide (key a ≤ key b) || decide (key b ≤ key a)) = true := by
    simp only [Bool.or_eq_true, decide_eq_true_eq]
    omega
  -- with the positions the order is strict, so there is one sorted list only
  have hunique : buckets (key ∘ Prod.fst) bound xs.zipIdx =
      xs.zipIdx.mergeSort (List.zipIdxLE fun a b => key a ≤ key b) := by
    refine List.Perm.eq_of_pairwise ?_ (pairwise_buckets_zipIdx key bound xs)
      (List.pairwise_mergeSort (List.zipIdxLE_trans htrans) (List.zipIdxLE_total htotal) _)
      ((buckets_perm hz).trans (List.mergeSort_perm _ _).symm)
    intro x y hx hy hxy hyx
    -- neither is before the other, so they stand at one position
    have hpos : x.2 = y.2 := by
      simp only [List.zipIdxLE] at hxy hyx
      grind
    have hx := List.mem_zipIdx_iff_getElem?.1 (mem_buckets.1 hx).1
    have hy := List.mem_zipIdx_iff_getElem?.1 ((List.mergeSort_perm _ _).mem_iff.1 hy)
    rw [hpos, hy] at hx
    exact Prod.ext (Option.some.inj hx).symm hpos
  calc buckets key bound xs
      = buckets key bound (xs.zipIdx.map Prod.fst) := by rw [List.zipIdx_map_fst]
    _ = (buckets (key ∘ Prod.fst) bound xs.zipIdx).map Prod.fst := buckets_map ..
    _ = (xs.zipIdx.mergeSort (List.zipIdxLE fun a b => key a ≤ key b)).map Prod.fst := by
      rw [hunique]
    _ = xs.mergeSort (fun a b => key a ≤ key b) := List.mergeSort_zipIdx

end GraphMeasures.StableOrder
