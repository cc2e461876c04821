import GraphMeasures.EngineError
import GraphMeasures.Environment
import GraphMeasures.Quantity
import GraphMeasures.Random.Generator
import GraphMeasures.Text.Character

/-!
# GraphMeasures — the settings of a run

A run of an algorithm has a seed, a number of worker threads and perhaps a tag
that its workers carry. The number of workers comes from the environment:
`parseThreads` accepts a text of blanks, an optional plus sign, decimal digits
with a value from 1 to `2 ^ 64 - 1`, and blanks. Where the environment gives none,
there is one worker for each processor of the machine. It is for the machine to
build the pool of the workers, or to refuse it.
-/

namespace GraphMeasures

/-! ## Thread counts -/

/-- The number that digits spell behind an optional plus sign. -/
def unsignedValue? : List Char → Option Nat
  | '+' :: cs => Text.decimalValue? cs
  | cs => Text.decimalValue? cs

def parseThreads (raw : String) : Except EngineError Nat :=
  match unsignedValue? (Text.trimChars raw.toList) with
  | some n => if 1 ≤ n && n ≤ Index.top then .ok n else .error (.invalidThreadCount raw)
  | none => .error (.invalidThreadCount raw)

/-! ## Settings -/

structure RunConfig where
  seed : UInt64
  /-- The number of worker threads; `none` for one for each processor. -/
  threads : Option Nat
  /-- What the workers of the run report as their owner. -/
  workerTag : Option Nat
deriving Repr, BEq, DecidableEq

/-- What code on a worker thread sees of itself. -/
structure Worker where
  name : String
  tag : Option Nat
deriving Repr, BEq, DecidableEq

namespace RunConfig

/-- The seed of a run that is given none. -/
def defaultSeed : UInt64 := 1

def ofSeed (seed : UInt64) : RunConfig :=
  ⟨seed, none, none⟩

instance : Inhabited RunConfig := ⟨ofSeed defaultSeed⟩

/-- Settings whose number of threads is given by an environment variable. -/
def ofVariable (seed : UInt64) : Variable → Except EngineError RunConfig
  | .unset => .ok (ofSeed seed)
  | .text value => do return ⟨seed, some (← parseThreads value), none⟩
  | .unreadable shown => .error (.invalidThreadCount shown)

/-- The number of workers of the run on a machine. -/
def workers (config : RunConfig) (machine : Machine) : Nat :=
  config.threads.getD machine.processors

/-- Builds the pool of the run. -/
def buildPool (config : RunConfig) (machine : Machine) : Except EngineError Unit :=
  match machine.poolRefusal (config.workers machine) with
  | some message => .error (.threadPool message)
  | none => .ok ()

/-- The worker with a number in the pool of a run. -/
def worker (config : RunConfig) (number : Nat) : Worker :=
  ⟨s!"graphkit-worker-{number}", config.workerTag⟩

/-- The generator of a random stream of the run. -/
def generator (config : RunConfig) (stream : UInt64) : Random.Generator :=
  .ofStream config.seed stream

end RunConfig

end GraphMeasures
