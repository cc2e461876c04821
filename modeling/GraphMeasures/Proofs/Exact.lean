import Mathlib.Algebra.BigOperators.Group.List.Basic
import Mathlib.Data.Rat.Defs
import Mathlib.Algebra.Field.Rat
import GraphMeasures.Graph.Basic
import GraphMeasures.Proofs.Graph.Links

/-!
# GraphMeasures — weights in exact arithmetic

What is written for any `Scalar` can be read over the rationals, where sums do
not depend on their order. A graph of doubles is read there by giving every
weight a value: `Graph.map` does it, and the graph stays that of its links
(`map_ofLinks`).
-/

namespace GraphMeasures

/-- The rationals calculate exactly, and their only zero is neutral. -/
instance : Scalar ℚ where
  ofCount := Nat.cast
  emptySum := 0
  isZero x := decide (x = 0)

namespace Scalar

@[simp]
theorem ofCount_rat (k : Nat) : (ofCount k : ℚ) = (k : ℚ) :=
  rfl

/-- The zero of the scalars is that of the field. Here it is the sum of no
numbers as well, which over the doubles is the other zero. -/
@[simp]
theorem zero_rat : (zero : ℚ) = 0 :=
  Nat.cast_zero

@[simp]
theorem one_rat : (one : ℚ) = 1 :=
  Nat.cast_one

@[simp]
theorem isZero_rat (x : ℚ) : isZero x = decide (x = 0) :=
  rfl

/-- Sums are those of lists. The order of the terms has no say, unlike over the
doubles. -/
@[simp]
theorem sum_rat (xs : List ℚ) : sum xs = xs.sum :=
  List.sum_eq_foldl.symm

end Scalar

/-- The exact value of a double, and zero for those that have none. -/
def exactValue (x : Float) : ℚ :=
  match x.toModel.unpack with
  | .finite sign mantissa exponent _ =>
    match sign with
    | .positive => mantissa * 2 ^ exponent
    | .negative => -(mantissa * 2 ^ exponent)
  | _ => 0

/-- The link with another weight. -/
def Link.map {V W : Type} (f : W → V) (l : Link W) : Link V :=
  ⟨l.source, l.target, f l.weight⟩

namespace Graph

open Link

variable {V W : Type} {n : Nat} {weighted directed outgoing : Bool} {links : List (Link W)}
variable {ids : Nat → Option Nat} {index : Option EdgeIndex}

/-- Links with other weights have the same ends, so they stay within as many
nodes. -/
theorem Within.map (h : Within n links) (f : W → V) : Within n (links.map (Link.map f)) := by
  intro m hm
  obtain ⟨l, hl, rfl⟩ := List.mem_map.1 hm
  exact h l hl

/-- Weights play no part in where half-edges stand: a seat is counted from the
ends of the links before. -/
theorem seat_map (f : W → V) (node k : Nat) :
    seat directed outgoing (links.map (Link.map f)) node k =
      seat directed outgoing links node k := by
  rw [seat, ← List.map_take, List.countP_map]
  rfl

/-- The half-edges at a node are those of the links, also when the weights are
others. -/
theorem halves_map (f : W → V) (node : Nat) :
    halves directed outgoing (links.map (Link.map f)) ids node =
      (halves directed outgoing links ids node).map fun half =>
        { half with weight := f half.weight } := by
  rw [halves, halves, seated, seated, List.zipIdx_map, List.filter_map, List.map_map, List.map_map]
  refine List.map_congr_left fun l _ => ?_
  simp only [Function.comp_apply, Prod.map, halfOf, seat_map]
  rfl

/-- All lists of half-edges together, with other weights. -/
theorem rows_map (f : W → V) :
    rows n directed outgoing (links.map (Link.map f)) ids =
      (rows n directed outgoing links ids).map
        (·.map fun half => { half with weight := f half.weight }) := by
  rw [rows, rows, Array.map_map]
  refine congrArg (Array.map · _) (funext fun node => ?_)
  rw [halves_map, Function.comp_apply, List.map_toArray]

/-- A graph with other weights is the graph of its links with other weights. So
what is known of graphs of links is known of every graph once its weights are
given a value, and nothing about graphs has to be proved for one kind of weights
alone. -/
theorem map_ofLinks (f : W → V) :
    (ofLinks n weighted directed links ids index).map f =
      ofLinks n weighted directed (links.map (Link.map f)) ids index := by
  have hincoming : (if directed then rows n directed false links ids else #[]).map
      (·.map fun half => { half with weight := f half.weight }) =
        if directed then rows n directed false (links.map (Link.map f)) ids else #[] := by
    split
    · exact (rows_map f).symm
    · exact Array.map_empty
  simp only [Graph.map, ofLinks, hincoming, ← rows_map, List.length_map]

end Graph

end GraphMeasures
