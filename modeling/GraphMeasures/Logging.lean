import GraphMeasures.Environment
import GraphMeasures.Journal
import GraphMeasures.Text.Character

/-!
# GraphMeasures — setting up the log of a process

A process has one place for a subscriber, which hears its events. `Setup.init`
chooses the format of the log from the environment, once: later calls answer
with the same format. A subscriber that was there before stays.
-/

namespace GraphMeasures.Logging

inductive Format where
  | human
  | json
deriving Repr, BEq, DecidableEq

def Format.name : Format → String
  | .human => "human"
  | .json => "json"

inductive LoggingError where
  | invalidUnicode
  | unsupportedFormat (provided : String)
deriving Repr, BEq, DecidableEq

def LoggingError.message : LoggingError → String
  | .invalidUnicode => "`GRAPHKIT_LOG_FORMAT` contained invalid UTF-8"
  | .unsupportedFormat provided =>
    s!"unsupported log format `{provided}`; expected `human` or `json`"

instance : ToString LoggingError := ⟨LoggingError.message⟩

/-- A text without blanks at its ends and with small ASCII letters. -/
def normalize (text : String) : String :=
  (Text.trim text).map Char.toLower

def Format.read (text : String) : Except LoggingError Format :=
  match normalize text with
  | "human" => .ok .human
  | "json" => .ok .json
  | provided => .error (.unsupportedFormat provided)

/-- The format that a variable asks for. -/
def Format.ofVariable : Variable → Except LoggingError Format
  | .unset => .ok .human
  | .text value => Format.read value
  | .unreadable _ => .error .invalidUnicode

/-- Which events a subscriber hears: all, none, or those up to a level. -/
inductive Filter where
  | all
  | nothing
  | upTo (level : Journal.Level)
deriving Repr, BEq, DecidableEq

/-- The rank of a level; events that matter more come first. -/
def rank : Journal.Level → Nat
  | .error => 0
  | .warn => 1
  | .info => 2
  | .debug => 3
  | .trace => 4

/-- Whether an event of some level passes. -/
def Filter.passes : Filter → Journal.Level → Bool
  | .all, _ => true
  | .nothing, _ => false
  | .upTo limit, level => rank level ≤ rank limit

/-- The filter that a variable asks for: the name of a level, or nothing at
all. What is not understood asks for the level `info`. -/
def Filter.ofVariable : Variable → Filter
  | .text value =>
    match value.map Char.toLower with
    | "" | "off" => .nothing
    | "error" => .upTo .error
    | "warn" => .upTo .warn
    | "debug" => .upTo .debug
    | "trace" => .upTo .trace
    | _ => .upTo .info
  | _ => .upTo .info

/-- The log of a process. -/
structure Setup where
  /-- The format, once it is chosen. -/
  format : Option Format
  /-- What the subscriber hears, once there is one. -/
  subscriber : Option Filter
deriving Repr, BEq, DecidableEq, Inhabited

namespace Setup

def initial : Setup := ⟨none, none⟩

/-- Takes the place for the subscriber if it is free. -/
def subscribe (s : Setup) (filter : Filter) : Setup :=
  { s with subscriber := s.subscriber <|> some filter }

/-- Chooses a format and sets the log up, unless that has been done. -/
def init (s : Setup) (format level : Variable) : Except LoggingError (Format × Setup) :=
  match s.format with
  | some chosen => .ok (chosen, s)
  | none => do
    let chosen ← Format.ofVariable format
    return (chosen, { s.subscribe (.ofVariable level) with format := some chosen })

/-- Whether an event of some level is heard. -/
def hears (s : Setup) (level : Journal.Level) : Bool :=
  s.subscriber.elim false (·.passes level)

end Setup

end GraphMeasures.Logging
