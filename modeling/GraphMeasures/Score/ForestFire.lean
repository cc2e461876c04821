import GraphMeasures.Graph.Numbering
import GraphMeasures.Quantity
import GraphMeasures.Score.Fire

/-!
# GraphMeasures — scores from many forest fires

Fires are started until the edges they burnt, counted with repetitions, reach a
share of the number of edges; the score of an edge is the number of fires that
burnt it. Fire `i` draws from stream `i` of the run.

Fires come in rounds of `firesPerRound`. Those that come after the target is
reached are dropped, so rounds show in the scores in one case only: when
`maxIdleRounds` rounds in a row have burnt nothing, no more are started.
`burnAll` therefore ends for every sequence of fires: a round brings the target
nearer, or else the end of the idle rounds.
-/

namespace GraphMeasures.Score

/-- The number of fires that are started together. -/
def firesPerRound : Nat := 64

/-- The number of rounds in a row that may burn nothing. -/
def maxIdleRounds : Nat := 1024

/-- The edges burnt so far. -/
structure Burning where
  /-- For every edge id the number of fires that burnt it. -/
  hits : Array Nat
  /-- The length of all fires together. -/
  burnt : Nat
  fires : Nat
  /-- The number of rounds since an edge was burnt. -/
  idle : Nat
deriving Repr, DecidableEq

namespace Burning

def start (bound : Nat) : Burning :=
  ⟨Array.replicate bound 0, 0, 0, 0⟩

/-- Counts the edges of a fire. -/
def addFire (b : Burning) (ids : Array Nat) : Burning :=
  { b with
    hits := ids.foldl (fun hits id => hits.modify id (· + 1)) b.hits
    burnt := b.burnt + ids.size }

/-- Counts the edges of a fire unless the target has been reached. -/
def addFireUpTo (target : Nat) (b : Burning) (ids : Array Nat) : Burning :=
  if b.burnt < target then b.addFire ids else b

def addRound (target : Nat) (b : Burning) (fires : List (Array Nat)) : Burning :=
  let after := fires.foldl (addFireUpTo target) b
  { after with
    fires := b.fires + firesPerRound
    idle := if after.burnt = b.burnt then b.idle + 1 else 0 }

/-- Starts a round of fires. All of them burn before the first is counted. -/
def round (target : Nat) (fire : Nat → Except (Failure EngineError) (Array Nat)) (b : Burning) :
    Except (Failure EngineError) Burning := do
  return b.addRound target (← (List.range' b.fires firesPerRound).mapM fire)

/-- Counting fires does not make what is burnt less. -/
theorem burnt_le_foldl (target : Nat) (fires : List (Array Nat)) (b : Burning) :
    b.burnt ≤ (fires.foldl (addFireUpTo target) b).burnt := by
  induction fires generalizing b with
  | nil => exact Nat.le_refl _
  | cons ids fires ih =>
    refine Nat.le_trans ?_ (ih _)
    unfold addFireUpTo addFire
    split
    · exact Nat.le_add_right _ _
    · exact Nat.le_refl _

/-- A round burns something, or else it is one more idle round. One of the two
goes nearer to where the run stops, so the run comes to its end. -/
theorem addRound_progress (target : Nat) (fires : List (Array Nat)) (b : Burning) :
    b.burnt < (b.addRound target fires).burnt ∨
      (b.addRound target fires).burnt = b.burnt ∧ (b.addRound target fires).idle = b.idle + 1 := by
  have h := burnt_le_foldl target fires b
  rcases Nat.lt_or_eq_of_le h with hlt | heq
  · exact Or.inl hlt
  · exact Or.inr ⟨heq.symm, by simp [addRound, heq.symm]⟩

/-- What a round that has come to its end makes is made of the lists that its
fires have burnt. -/
theorem round_eq_ok {target : Nat} {fire : Nat → Except (Failure EngineError) (Array Nat)}
    {b next : Burning} (h : b.round target fire = .ok next) :
    ∃ fires, (List.range' b.fires firesPerRound).mapM fire = .ok fires ∧
      next = b.addRound target fires := by
  unfold round at h
  cases hf : (List.range' b.fires firesPerRound).mapM fire with
  | error failure => simp [hf, bind, Except.bind] at h
  | ok fires =>
    simp only [hf, bind, Except.bind, pure, Except.pure, Except.ok.injEq] at h
    exact ⟨fires, rfl, h.symm⟩

/-- Starts rounds until the target is reached or too many in a row were
idle. -/
def burnAll (target : Nat) (fire : Nat → Except (Failure EngineError) (Array Nat)) (b : Burning) :
    Except (Failure EngineError) Burning :=
  if b.burnt < target then
    match _h : b.round target fire with
    | .error failure => .error failure
    | .ok next => if maxIdleRounds ≤ next.idle then .ok next else burnAll target fire next
  else .ok b
termination_by (target - b.burnt, maxIdleRounds - b.idle)
decreasing_by
  obtain ⟨fires, -, rfl⟩ := round_eq_ok _h
  rcases addRound_progress target fires b with h | ⟨h, hi⟩
  · exact Prod.Lex.left _ _ (by omega)
  · rw [h, hi]
    exact Prod.Lex.right _ (by omega)

end Burning

/-! ## The score -/

structure ForestFire where
  /-- The probability that a fire goes on from a node to one more. -/
  spread : Float
  /-- How many edges to burn, as a multiple of their number. -/
  ratio : Float
deriving Repr, BEq

namespace ForestFire

/-- The score with the given parameters. The probability must lie strictly
between zero and one, the ratio must be positive and finite. -/
def create (spread ratio : Float) : Except EngineError ForestFire :=
  if !(spread > 0.0 && spread < 1.0) then
    .error (.invalidParameter "spread_prob"
      ("must lie strictly between 0 and 1 (got " ++ Decimal.plain spread ++ ")"))
  else if !(ratio.isFinite && ratio > 0.0) then
    .error (.invalidParameter "burn_ratio"
      ("must be positive and finite (got " ++ Decimal.plain ratio ++ ")"))
  else .ok ⟨spread, ratio⟩

/-- How many edges to burn. -/
def target (f : ForestFire) (edgeCount : Nat) : Nat :=
  Index.aboveFloat (f.ratio * Float.ofNat edgeCount)

/-- The edges that the fire with some number burns. -/
def fire {W : Type} (f : ForestFire) (g : Graph W) (seed : UInt64) (number : Nat) :
    Except (Failure EngineError) (Array Nat) := do
  return (← Fire.burn (.random f.spread) g (.ofStream seed (UInt64.ofNat number))).1.burnt

/-- What a run has burnt. On a graph without edges no fire is started. -/
def burning {W : Type} (f : ForestFire) (g : Graph W) (seed : UInt64) :
    Except (Failure EngineError) Burning := do
  let index ← g.requireIndex.mapError .error
  let start := Burning.start index.bound
  -- without edges there may be no node to start at
  if g.edgeCount = 0 then return start
  start.burnAll (f.target g.edgeCount) (f.fire g seed)

/-- For every edge id the number of fires that burnt its edge. -/
def scores {W : Type} (f : ForestFire) (g : Graph W) (seed : UInt64) :
    Except (Failure EngineError) (Array Float) := do
  return (← f.burning g seed).hits.map Float.ofNat

end ForestFire

end GraphMeasures.Score
