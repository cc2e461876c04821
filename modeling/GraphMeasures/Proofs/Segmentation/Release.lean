import GraphMeasures.Proofs.Operation
import GraphMeasures.Proofs.Reading

/-!
# GraphMeasures — segmentations are released once

A segmentation is released by whoever comes first: the holder who asks for it, or
the end of its use, be that a return or a panic that unwinds. What tells is the
journal, where every release leaves an event.

* `Run.Writes` — a run only adds to the journal, and only entries of a kind.
* `Operation.ReleasedBetween` — between two stages there was one release, and no
  output before it.
* `Segmentation.performAll` — a holder asks for this and that. `Balanced` ties the
  releases so far to whether the segmentation is still held; each request keeps it.
* `released_once` — an operation that has loaded a segmentation releases it once,
  before it writes its output; so does every holder.
-/

namespace GraphMeasures

/-! ## Entries of the journal -/

namespace Journal.Entry

/-- The event of a release. -/
def isRelease : Journal.Entry → Bool
  | .event e => e.message = some "segmentation resources released"
  | _ => false

/-- The host is asked to take an output. -/
def isOutput : Journal.Entry → Bool
  | .call c => c.method = .output || c.method = .outputScalar
  | _ => false

/-- Neither a release nor an output. -/
def IsQuiet (entry : Journal.Entry) : Prop :=
  entry.isRelease = false ∧ entry.isOutput = false

/-- Every event is quiet but the one that a release leaves. -/
theorem isQuiet_event {level : Journal.Level} {message : String} {fields : Journal.Fields}
    (h : message ≠ "segmentation resources released") :
    (Journal.Entry.event ⟨level, some message, fields⟩).IsQuiet :=
  ⟨decide_eq_false fun hsame => h (Option.some.inj hsame), rfl⟩

end Journal.Entry

open Journal (Entry)

/-- The number of releases among some entries. -/
def releases (entries : List Entry) : Nat :=
  entries.countP Entry.isRelease

theorem releases_append (first second : List Entry) :
    releases (first ++ second) = releases first + releases second :=
  List.countP_append

/-- Where no entry is a release, there is none to count. -/
theorem releases_eq_zero {entries : List Entry} (h : ∀ entry ∈ entries, entry.isRelease = false) :
    releases entries = 0 := by
  rw [releases, List.countP_eq_zero]
  intro entry hentry
  rw [h entry hentry]
  exact Bool.false_ne_true

/-! ## Runs that write -/

namespace Run

variable {σ ε ε' α β : Type} {kind : Entry → Prop}

/-- The entries of the journal, in order. -/
def timeline (stage : Stage σ) : List Entry :=
  stage.scene.journal.entries.toList

/-- From one stage to another, entries of a kind have been added to the journal. -/
def Adds (kind : Entry → Prop) (before after : List Entry) : Prop :=
  ∃ more, after = before ++ more ∧ ∀ entry ∈ more, kind entry

theorem Adds.refl (entries : List Entry) : Adds kind entries entries :=
  ⟨[], (List.append_nil _).symm, fun _ h => absurd h List.not_mem_nil⟩

/-- What is added in two parts is added together. -/
theorem Adds.trans {first second third : List Entry} (h : Adds kind first second)
    (h' : Adds kind second third) : Adds kind first third := by
  obtain ⟨more, rfl, hmore⟩ := h
  obtain ⟨more', rfl, hmore'⟩ := h'
  refine ⟨more ++ more', List.append_assoc .., fun entry hentry => ?_⟩
  rcases List.mem_append.1 hentry with hentry | hentry
  · exact hmore entry hentry
  · exact hmore' entry hentry

/-- Entries of a kind are entries of every wider kind. -/
theorem Adds.mono {kind' : Entry → Prop} {before after : List Entry}
    (h : Adds kind before after) (hkind : ∀ entry, kind entry → kind' entry) :
    Adds kind' before after := by
  obtain ⟨more, heq, hmore⟩ := h
  exact ⟨more, heq, fun entry hentry => hkind entry (hmore entry hentry)⟩

/-- The run adds entries of a kind to the journal and takes none away. -/
def Writes (kind : Entry → Prop) (run : Run σ ε α) : Prop :=
  ∀ stage : Stage σ, Adds kind (timeline stage) (timeline (run.on stage).2)

theorem writes_pure (a : α) : Writes kind (pure a : Run σ ε α) :=
  fun _ => .refl _

/-- Runs one after the other write what both of them write; if the first one
fails, the second writes nothing. -/
theorem Writes.bind {run : Run σ ε α} {rest : α → Run σ ε β} (h : Writes kind run)
    (hrest : ∀ a, Writes kind (rest a)) : Writes kind (run >>= rest) := by
  intro stage
  have hrun := h stage
  rw [on_bind]
  rcases heq : run.on stage with ⟨outcome, after⟩
  rw [heq] at hrun
  cases outcome with
  | ok a => exact hrun.trans (hrest a after)
  | error failure => exact hrun

/-- A part that is no run writes nothing. -/
theorem writes_ofExcept (wrap : ε' → ε) (x : Except ε' α) :
    Writes kind (ofExcept wrap x : Run σ ε α) := by
  intro stage
  rw [on_ofExcept]
  exact .refl _

/-- What comes after a value that is there. Only for that value has anything to
be said of the rest. -/
theorem writes_ofExcept_bind {wrap : ε' → ε} {x : Except ε' α} {rest : α → Run σ ε β}
    (hrest : ∀ a, x = .ok a → Writes kind (rest a)) :
    Writes kind (ofExcept wrap x >>= rest) := by
  cases x with
  | ok a => exact hrest a rfl
  | error e => exact fun _ => .refl _

/-- A panic is raised, where there is one, and nothing is written. -/
theorem writes_ofOutcome (thread : Containment.Thread) (x : Except (Failure ε) α) :
    Writes kind (ofOutcome thread x : Run σ ε α) := by
  rcases x with (e | payload) | a
  · exact fun _ => .refl _
  · exact fun _ => .refl _
  · exact fun _ => .refl _

/-- An event is written, and it has to be of the kind. -/
theorem writes_log {level : Journal.Level} {message : String} {fields : Journal.Fields}
    (h : kind (.event ⟨level, some message, fields⟩)) :
    Writes kind (log level message fields : Run σ ε Unit) := by
  intro stage
  refine ⟨[_], Array.toList_push, fun entry hentry => ?_⟩
  rw [List.mem_singleton.1 hentry]
  exact h

/-- What closing a span writes is quiet: at most the error that the body has
ended with, as an event without a message. -/
theorem adds_closeSpan [ToString ε] (hkind : ∀ entry : Entry, entry.IsQuiet → kind entry)
    (outcome : Except (Failure ε) α) (stage : Stage σ) :
    Adds kind (timeline stage) (timeline (withJournal (closeSpan outcome) stage)) := by
  have hclose : ∀ journal : Journal, Adds kind journal.entries.toList
      journal.closeSpan.entries.toList := by
    intro journal
    unfold Journal.closeSpan
    split
    · exact .refl _
    · refine ⟨[_], Array.toList_push, fun entry hentry => ?_⟩
      rw [List.mem_singleton.1 hentry]
      exact hkind _ ⟨rfl, rfl⟩
  rcases outcome with (e | payload) | a
  · -- the error is logged without a message
    refine Adds.trans ⟨[_], Array.toList_push, fun entry hentry => ?_⟩ (hclose _)
    rw [List.mem_singleton.1 hentry]
    exact hkind _ ⟨rfl, rfl⟩
  · exact hclose _
  · exact hclose _

/-- A span writes what its body writes, and what opening and closing it write is
quiet. -/
theorem Writes.span [ToString ε] {name : String} {fields : Journal.Fields} {body : Run σ ε α}
    (h : Writes kind body) (hkind : ∀ entry : Entry, entry.IsQuiet → kind entry) :
    Writes kind (span name fields body) := by
  intro stage
  rw [on_span]
  exact (h (withJournal (·.openSpan name fields) stage)).trans (adds_closeSpan hkind _ _)

/-- Errors in other words are written when they are logged, and not here. -/
theorem Writes.mapError {wrap : ε' → ε} {run : Run σ ε' α} (h : Writes kind run) :
    Writes kind (Run.mapError wrap run) := by
  intro stage
  rw [on_mapError]
  exact h stage

/-- A run that owns nothing writes to the journal that the larger run has. -/
theorem Writes.lift {run : Run Unit ε α} (h : Writes kind run) :
    Writes kind (Run.lift run : Run σ ε α) := by
  intro stage
  rw [on_lift]
  exact h ⟨stage.scene, ()⟩

end Run

/-! ## Quiet runs -/

/-- A question writes the call, and its answer nothing, whether the name is
known or not. -/
theorem Host.writes_ask {α : Type} {method : Journal.Method} {name : String}
    {read : Accessor → String → Except AccessError α}
    (h : (Entry.call ⟨method, name⟩).IsQuiet) : (ask method name read).Writes Entry.IsQuiet := by
  have hnote : (noteCall method name).Writes Entry.IsQuiet := by
    intro stage
    refine ⟨[_], Array.toList_push, fun entry hentry => ?_⟩
    rw [List.mem_singleton.1 hentry]
    exact h
  refine hnote.bind fun _ => ?_
  intro stage
  simp only [Run.on_bind, Run.on_get]
  exact Run.writes_ofExcept _ _ stage

namespace Run

variable {σ : Type}

/-- Loading a graph is quiet. -/
theorem writes_loadGraph (vertices : VertexSet) (edges : EdgeBundle) (weights : Option Attribute)
    (directed : Bool) :
    (loadGraph vertices edges weights directed : Run σ ConversionError (Graph Float)).Writes
      Entry.IsQuiet := by
  refine Writes.span ?_ fun _ h => h
  refine (writes_ofExcept _ _).bind fun g => ?_
  refine (writes_log (Entry.isQuiet_event (by decide))).bind fun _ => ?_
  exact (writes_log (Entry.isQuiet_event (by decide))).bind fun _ => writes_pure g

/-- Loading a partition is quiet, also where it tells of vertices without a
segment. -/
theorem writes_loadPartition (vertices segments : VertexSet) (belongsTo : EdgeBundle) :
    (loadPartition vertices segments belongsTo : Run σ ConversionError Partition).Writes
      Entry.IsQuiet := by
  refine Writes.span ?_ fun _ h => h
  refine (writes_ofExcept _ _).bind fun state => ?_
  obtain ⟨p, next⟩ := state
  by_cases hnext : segments.size < next
  · simp only [if_pos hnext]
    exact (writes_log (Entry.isQuiet_event (by decide))).bind fun _ => writes_pure p
  · simp only [if_neg hnext]
    exact writes_pure p

end Run

/-- The measures of a registry may write events of their own, but the events of a
release are not theirs, and they have no part in calls to the host. -/
def Registry.Discreet (registry : QualityRegistry) : Prop :=
  ∀ name options measure, registry.build name options = .ok measure →
    ∀ p g, (measure.compute p g).Writes Entry.IsQuiet

/-- A measure that only computes writes nothing. -/
theorem QualityMeasure.writes_ofFunction (name : String)
    (f : Partition → Graph Float → Except (Failure EngineError) Float) (p : Partition)
    (g : Graph Float) : ((ofFunction name f).compute p g).Writes Entry.IsQuiet := by
  intro stage
  exact Run.writes_ofOutcome stage.scene.thread (f p g) stage

namespace Segmentation

variable {σ ε : Type}

/-- Loading a segmentation is quiet, so there is no release before there is
something to be released. -/
theorem writes_load : load.Writes Entry.IsQuiet := by
  refine Run.Writes.span ?_ fun _ h => h
  refine (Host.writes_ask ⟨rfl, rfl⟩).bind fun op => ?_
  refine (Host.writes_ask ⟨rfl, rfl⟩).bind fun options => ?_
  refine (Run.writes_ofExcept _ _).bind fun directed => ?_
  refine (Host.writes_ask ⟨rfl, rfl⟩).bind fun vertices => ?_
  refine (Host.writes_ask ⟨rfl, rfl⟩).bind fun edges => ?_
  refine (Host.writes_ask ⟨rfl, rfl⟩).bind fun weights => ?_
  refine (Host.writes_ask ⟨rfl, rfl⟩).bind fun segments => ?_
  refine (Host.writes_ask ⟨rfl, rfl⟩).bind fun belongsTo => ?_
  refine (Run.writes_loadGraph vertices edges weights directed).mapError.bind fun g => ?_
  refine (Run.writes_loadPartition vertices segments belongsTo).mapError.bind fun p => ?_
  exact (Run.writes_log (Entry.isQuiet_event (by decide))).bind fun _ => Run.writes_pure _

/-- Asking for the quality is quiet, if the measures are. -/
theorem writes_quality {registry : QualityRegistry} (h : registry.Discreet) (s : Segmentation) :
    (s.quality registry : Run σ OperationError Float).Writes Entry.IsQuiet := by
  refine Run.writes_ofExcept_bind fun measure hmeasure => ?_
  refine (Run.writes_ofExcept _ _).bind fun held => ?_
  obtain ⟨g, p⟩ := held
  exact (h _ _ measure hmeasure p g).lift.mapError

/-! ## What a holder asks for -/

/-- What can be asked of a segmentation. -/
inductive Request where
  | graph
  | partition
  | quality (registry : QualityRegistry)
  | isLive
  | release

inductive Answer where
  | graph (outcome : Except OperationError (Graph Float))
  | partition (outcome : Except OperationError Partition)
  /-- A panic of the measure is an answer too, whether or not the holder goes on
  after it. -/
  | quality (outcome : Except (Failure OperationError) Float)
  | isLive (live : Bool)
  | release (released : Bool)

/-- Answers a request. -/
def perform (s : Segmentation) : Request → Run σ ε (Answer × Segmentation)
  | .graph => pure (.graph s.graph, s)
  | .partition => pure (.partition s.partition, s)
  | .quality registry => do
    let outcome ← Run.attempt (s.quality registry)
    return (.quality outcome, s)
  | .isLive => pure (.isLive s.isLive, s)
  | .release => do
    let (released, s) ← s.release
    return (.release released, s)

/-- Answers requests one after the other. -/
def performAll (s : Segmentation) : List Request → Run σ ε (List Answer × Segmentation)
  | [] => pure ([], s)
  | request :: rest => do
    let (answer, s) ← s.perform request
    let (answers, s) ← s.performAll rest
    return (answer :: answers, s)

/-- The end of the use of a segmentation: what is still held is released, and the
holder ends as it was about to, be it with a panic. -/
def leave {α : Type} (s : Segmentation) (ending : Except (Failure ε) α) : Run σ ε α := do
  let _ ← s.release
  Run.resume ending

/-- The measures that are asked for write no release of their own. -/
def Request.Discreet : Request → Prop
  | .quality registry => registry.Discreet
  | _ => True

/-- What a request is answered with while a segmentation is held, and when it is
held no more. -/
def Answer.Fits (live : Bool) : Request → Answer → Prop
  | .graph, .graph outcome =>
    if live then ∃ g, outcome = .ok g else outcome = .error .resourcesReleased
  | .partition, .partition outcome =>
    if live then ∃ p, outcome = .ok p else outcome = .error .resourcesReleased
  | .quality _, .quality outcome => live = false → ∀ x, outcome ≠ .ok x
  | .isLive, .isLive answer => answer = live
  | .release, .release released => released = live
  | _, _ => False

/-- Between two stages there were as many releases as there are segmentations
held no more. -/
def Balanced (before : Segmentation) (stage : Stage σ) (after : Segmentation) (next : Stage σ) :
    Prop :=
  ∃ more, Run.timeline next = Run.timeline stage ++ more ∧
    releases more + after.isLive.toNat = before.isLive.toNat

/-- What is balanced in two parts is balanced together: what the first part
released is not held at the beginning of the second. -/
theorem Balanced.trans {s t u : Segmentation} {first second third : Stage σ}
    (h : Balanced s first t second) (h' : Balanced t second u third) :
    Balanced s first u third := by
  obtain ⟨more, heq, hbalance⟩ := h
  obtain ⟨more', heq', hbalance'⟩ := h'
  refine ⟨more ++ more', ?_, ?_⟩
  · rw [heq', heq, List.append_assoc]
  · rw [releases_append]
    omega

/-- Whoever writes nothing of a release leaves the balance as it is. -/
theorem balanced_of_adds {s : Segmentation} {stage next : Stage σ}
    (h : Run.Adds Entry.IsQuiet (Run.timeline stage) (Run.timeline next)) :
    Balanced s stage s next := by
  obtain ⟨more, heq, hmore⟩ := h
  refine ⟨more, heq, ?_⟩
  rw [releases_eq_zero fun entry hentry => (hmore entry hentry).1, Nat.zero_add]

/-- A release leaves an event if there is something to release. Either way
nothing is held afterwards, so the balance is kept: a second release leaves no
second event. -/
theorem on_release (s : Segmentation) (stage : Stage σ) :
    ∃ after, (s.release : Run σ ε (Bool × Segmentation)).on stage =
      (.ok (s.isLive, s.released), after) ∧ Balanced s stage s.released after := by
  unfold release
  by_cases hlive : s.isLive = true
  · rw [if_pos hlive]
    refine ⟨_, rfl, [_], Array.toList_push, ?_⟩
    rw [hlive]
    rfl
  · rw [Bool.not_eq_true] at hlive
    simp only [hlive, Bool.false_eq_true, if_false]
    refine ⟨stage, rfl, [], (List.append_nil _).symm, ?_⟩
    rw [hlive]
    rfl

/-- What has been released has no quality, whatever measure the registry would
build: there is neither a graph nor a partition to hand to it. -/
theorem quality_ne_ok {s : Segmentation} (h : s.isLive = false) (registry : QualityRegistry)
    (stage : Stage σ) (x : Float) :
    ((s.quality registry : Run σ OperationError Float).on stage).1 ≠ .ok x := by
  have hheld : s.held = .error .resourcesReleased := by
    unfold held
    rw [Option.isSome_eq_false_iff.1 h |> Option.isNone_iff_eq_none.1]
  unfold quality
  cases registry.build s.op s.options with
  | error e => simp [Except.mapError]
  | ok measure => simp [Except.mapError, hheld]

/-- **One request.** It is answered as the state of the segmentation asks for,
and keeps the balance: the releases so far, and one more if something is held,
stay the same. -/
theorem performed {request : Request} (h : request.Discreet) (s : Segmentation)
    (stage : Stage σ) :
    ∃ answer t after, (s.perform request : Run σ ε _).on stage = (.ok (answer, t), after) ∧
      answer.Fits s.isLive request ∧ Balanced s stage t after := by
  cases request with
  | graph =>
    refine ⟨_, _, _, rfl, ?_, balanced_of_adds (.refl _)⟩
    obtain ⟨op, options, _ | ⟨g, p⟩⟩ := s
    · rfl
    · -- a graph that is still held is the one that is answered with
      exact ⟨g, rfl⟩
  | partition =>
    refine ⟨_, _, _, rfl, ?_, balanced_of_adds (.refl _)⟩
    obtain ⟨op, options, _ | ⟨g, p⟩⟩ := s
    · rfl
    · exact ⟨p, rfl⟩
  | quality registry =>
    refine ⟨_, _, _, rfl, fun hlive x => ?_, balanced_of_adds ?_⟩
    · exact quality_ne_ok hlive registry stage x
    · exact writes_quality h s stage
  | isLive => exact ⟨_, _, _, rfl, rfl, balanced_of_adds (.refl _)⟩
  | release =>
    obtain ⟨after, hafter, hbalanced⟩ := s.on_release (ε := ε) stage
    refine ⟨.release s.isLive, s.released, after, ?_, rfl, hbalanced⟩
    rw [perform, Run.on_bind, hafter]
    rfl

/-- All requests, by induction on their list: none is left without an answer,
and the balance is kept from the first of them to the last. -/
theorem performedAll {requests : List Request} (h : ∀ request ∈ requests, request.Discreet)
    (s : Segmentation) (stage : Stage σ) :
    ∃ answers t after, (s.performAll requests : Run σ ε _).on stage =
      (.ok (answers, t), after) ∧ Balanced s stage t after := by
  -- along the requests; what each of them releases is what it no longer holds
  induction requests generalizing s stage with
  | nil => exact ⟨[], s, stage, rfl, balanced_of_adds (.refl _)⟩
  | cons request rest ih =>
    obtain ⟨answer, t, mid, hmid, -, hfirst⟩ :=
      performed (ε := ε) (h request List.mem_cons_self) s stage
    obtain ⟨answers, u, after, hafter, hrest⟩ :=
      ih (fun other hother => h other (List.mem_cons_of_mem _ hother)) t mid
    refine ⟨answer :: answers, u, after, ?_, hfirst.trans hrest⟩
    rw [performAll, Run.on_bind, hmid]
    show Run.on (t.performAll rest >>= _) mid = _
    rw [Run.on_bind, hafter]
    rfl

/-- A segmentation that was held is held still if nothing was released. -/
theorem isLive_eq_of_balance {t : Segmentation} {made : List Entry}
    (h : releases made + t.isLive.toNat = true.toNat) :
    t.isLive = decide (releases made = 0) := by
  cases hlive : t.isLive <;> rw [hlive] at h <;> simp only [Bool.toNat_false, Bool.toNat_true] at h
  · exact (decide_eq_false (by omega)).symm
  · exact (decide_eq_true (by omega)).symm

/-- Nothing is held when the use of a segmentation has ended, in whatever way it
ends. -/
theorem on_leave {α : Type} (s : Segmentation) (ending : Except (Failure ε) α) (stage : Stage σ) :
    ∃ after, (s.leave ending : Run σ ε α).on stage = (ending, after) ∧
      Balanced s stage s.released after := by
  obtain ⟨after, hafter, hbalanced⟩ := s.on_release (ε := ε) stage
  refine ⟨after, ?_, hbalanced⟩
  rw [leave, Run.on_bind, hafter]
  exact Run.on_resume ending after

end Segmentation

/-! ## The operation -/

namespace Run

/-- A contained run is its body between the opening and the closing of a
scope. -/
theorem on_contain {σ α : Type} (operation : String) (body : Run σ OperationError α)
    (stage : Stage σ) :
    (contain operation body).on stage =
      (closeScope (stage.scene.scopes.enter stage.scene.thread).1 (body.on (opened stage)).1 >>=
        settle operation (body.on (opened stage)).1).on (body.on (opened stage)).2 := by
  rfl

/-- Containment writes how the operation has ended, and nothing else: quiet
entries at the end of the log, and the caller's state as the operation left
it. -/
theorem adds_contain {σ α : Type} (operation : String) (body : Run σ OperationError α)
    (stage : Stage σ) :
    Adds Entry.IsQuiet (timeline (body.on (opened stage)).2)
      (timeline ((contain operation body).on stage).2) ∧
    ((contain operation body).on stage).2.own = (body.on (opened stage)).2.own := by
  rw [on_contain]
  rcases body.on (opened stage) with ⟨(e | payload) | a, after⟩
  · refine ⟨⟨[_], Array.toList_push, fun entry hentry => ?_⟩, rfl⟩
    rw [List.mem_singleton.1 hentry]
    exact Entry.isQuiet_event (by decide)
  · refine ⟨⟨[_], Array.toList_push, fun entry hentry => ?_⟩, rfl⟩
    rw [List.mem_singleton.1 hentry]
    exact Entry.isQuiet_event (by decide)
  · exact ⟨.refl _, rfl⟩

end Run

namespace Operation

/-- From one stage to another there was one release, no output before it, and
nothing was written without a call. -/
structure ReleasedBetween (stage after : Stage Host) : Prop where
  timeline : ∃ told event rest, Run.timeline after = Run.timeline stage ++ (told ++ event :: rest) ∧
    (∀ entry ∈ told, entry.IsQuiet) ∧ event.isRelease = true ∧ event.isOutput = false ∧
    (∀ entry ∈ rest, entry.isRelease = false) ∧
    (after.own ≠ stage.own → Entry.call ⟨.outputScalar, "sc"⟩ ∈ rest)

/-- Quiet entries may come before, as long as the host is the same; they release
nothing and write nothing. -/
theorem ReleasedBetween.before {first stage after : Stage Host} (h : ReleasedBetween stage after)
    (hadds : Run.Adds Entry.IsQuiet (Run.timeline first) (Run.timeline stage))
    (hown : stage.own = first.own) : ReleasedBetween first after := by
  obtain ⟨told, event, rest, heq, htold, hevent, hinput, hrest, hcall⟩ := h.timeline
  obtain ⟨more, hstage, hmore⟩ := hadds
  refine ⟨more ++ told, event, rest, ?_, fun entry hentry => ?_, hevent, hinput, hrest, ?_⟩
  · rw [heq, hstage]
    simp only [List.append_assoc]
  · rcases List.mem_append.1 hentry with hentry | hentry
    · exact hmore entry hentry
    · exact htold entry hentry
  · rw [← hown]
    exact hcall

/-- Other entries may come behind, if none of them is a release and the host is
still the same at the end. -/
theorem ReleasedBetween.after {stage after last : Stage Host} (h : ReleasedBetween stage after)
    (hadds : Run.Adds (fun entry => entry.isRelease = false) (Run.timeline after)
      (Run.timeline last)) (hown : last.own = after.own) : ReleasedBetween stage last := by
  obtain ⟨told, event, rest, heq, htold, hevent, hinput, hrest, hcall⟩ := h.timeline
  obtain ⟨more, hlast, hmore⟩ := hadds
  refine ⟨told, event, rest ++ more, ?_, htold, hevent, hinput, fun entry hentry => ?_, ?_⟩
  · rw [hlast, heq]
    simp only [List.append_assoc, List.cons_append]
  · rcases List.mem_append.1 hentry with hentry | hentry
    · exact hrest entry hentry
    · exact hmore entry hentry
  · rw [hown]
    exact fun hchanged => List.mem_append_left _ (hcall hchanged)

/-- An output is called for before it is written. -/
theorem outputScalar_writes (name : String) (x : Float) (stage : Stage Host) :
    Run.timeline ((Host.outputScalar name x).on stage).2 =
      Run.timeline stage ++ [.call ⟨.outputScalar, name⟩] := by
  simp only [Host.outputScalar, Host.noteCall, Host.write, Run.on_bind, Run.on_modifyJournal,
    Run.on_get]
  split <;> exact Array.toList_push

/-- A loaded segmentation is released when its measure has ended, and before
that end is made known. The measure may have failed or panicked: its outcome is
kept meanwhile. -/
theorem releasedBetween_finish {registry : QualityRegistry} (h : registry.Discreet)
    {s : Segmentation} (hlive : s.isLive = true) (stage : Stage Host) :
    ReleasedBetween stage ((do
      let outcome ← Run.attempt (s.quality registry)
      let _ ← s.release
      let value ← Run.resume outcome
      Host.outputScalar "sc" value : Host.Action Unit).on stage).2 := by
  have hquality := Segmentation.writes_quality h s stage
  -- the measure has no access to the writing half of the host
  have hown : ((s.quality registry : Host.Action Float).on stage).2.own = stage.own :=
    (s.reads_quality registry).own_eq rfl
  simp only [Run.on_bind, Run.on_attempt]
  rcases hq : (s.quality registry : Host.Action Float).on stage with ⟨outcome, mid⟩
  rw [hq] at hquality hown
  obtain ⟨told, htimeline, htold⟩ := hquality
  obtain ⟨event, hevent⟩ : ∃ event : Entry, event = .event ⟨.debug,
    some "segmentation resources released", [("op", .text s.op)]⟩ := ⟨_, rfl⟩
  have hrelease : (s.release : Host.Action (Bool × Segmentation)).on mid =
      (.ok (s.isLive, s.released), Run.withJournal (·.write event) mid) := by
    rw [Segmentation.release, if_pos hlive, hevent]
    rfl
  have hreleased : Run.timeline (Run.withJournal (·.write event) mid) =
      Run.timeline stage ++ (told ++ [event]) := by
    rw [← List.append_assoc, ← htimeline]
    exact Array.toList_push
  have hkinds : event.isRelease = true ∧ event.isOutput = false := by
    rw [hevent]
    exact ⟨rfl, rfl⟩
  -- whatever the measure ended with, the release comes next, and the output last
  simp only [hrelease, Run.on_resume]
  cases outcome with
  | error failure =>
    -- a failure is raised again after the release: nothing is written
    exact ⟨told, event, [], hreleased, htold, hkinds.1, hkinds.2,
      fun _ hentry => absurd hentry List.not_mem_nil, fun hchanged => absurd hown hchanged⟩
  | ok x =>
    -- a value is written after the release, by one call
    refine ⟨told, event, [.call ⟨.outputScalar, "sc"⟩], ?_, htold, hkinds.1, hkinds.2,
      fun entry hentry => ?_, fun _ => List.mem_singleton_self _⟩
    · rw [outputScalar_writes, hreleased]
      simp only [List.append_assoc, List.cons_append, List.nil_append]
    · rw [List.mem_singleton.1 hentry]
      rfl

/-- What the operation does with a segmentation that is loaded, and that it does
nothing without one: no release, no output, and nothing else that a host would
keep. -/
theorem segmentationScalar_cases {registry : QualityRegistry} (h : registry.Discreet)
    (stage : Stage Host) :
    (∃ s, Segmentation.described stage.own.accessor = .ok s ∧
      ReleasedBetween stage ((segmentationScalar registry).on stage).2) ∨
    ∃ failure, Segmentation.described stage.own.accessor = .error failure ∧
      Run.Adds Entry.IsQuiet (Run.timeline stage)
        (Run.timeline ((segmentationScalar registry).on stage).2) ∧
      ((segmentationScalar registry).on stage).2.own = stage.own := by
  -- the segmentation is loaded inside the span of the operation
  rw [segmentationScalar, Run.on_span]
  obtain ⟨inner, hinner⟩ : ∃ inner, inner =
    Run.withJournal (·.openSpan "adapter.segmentation_scalar" []) stage := ⟨_, rfl⟩
  have hown : inner.own = stage.own := by rw [hinner]; rfl
  have htimeline : Run.timeline inner = Run.timeline stage := by rw [hinner]; rfl
  rw [← hinner, Run.on_bind]
  obtain ⟨houtcome, hloadedOwn⟩ := Segmentation.on_load inner
  rw [hown] at houtcome hloadedOwn
  have hwrites := Segmentation.writes_load inner
  have hloaded := Segmentation.reads_load inner hown
  rcases hload : Segmentation.load.on inner with ⟨outcome, mid⟩
  rw [hload] at houtcome hloadedOwn hwrites hloaded
  rw [htimeline] at hwrites
  cases outcome with
  | error failure =>
    refine Or.inr ⟨failure, houtcome.symm, ?_, hloadedOwn⟩
    exact hwrites.trans (Run.adds_closeSpan (fun _ hquiet => hquiet) _ _)
  | ok s =>
    refine Or.inl ⟨s, houtcome.symm, ?_⟩
    have hlive : s.isLive = true := by
      obtain ⟨g, p, hresources, -⟩ := hloaded.2.resources
      rw [Segmentation.isLive, hresources]
      rfl
    have hfinished := (releasedBetween_finish h hlive mid).before hwrites hloadedOwn
    exact hfinished.after (Run.adds_closeSpan (fun _ hquiet => hquiet.1) _ _) rfl

/-- What was told has the one release, before any output, and a call where
something was written. An entry that is an output cannot stand in front of the
release, because everything there is quiet. -/
theorem ReleasedBetween.once {stage after : Stage Host} (h : ReleasedBetween stage after) :
    ∃ more, Run.timeline after = Run.timeline stage ++ more ∧ releases more = 1 ∧
      (∀ earlier output later, more = earlier ++ output :: later → output.isOutput = true →
        releases earlier = 1) ∧
      (after.own ≠ stage.own → Entry.call ⟨.outputScalar, "sc"⟩ ∈ more) := by
  obtain ⟨told, event, rest, heq, htold, hrelease, hinput, hrest, hcall⟩ := h.timeline
  -- `told` is from before the release and `rest` from behind it
  have hbefore : releases told = 0 := releases_eq_zero fun entry hentry => (htold entry hentry).1
  have hfrom : ∀ later, (∀ entry ∈ later, entry.isRelease = false) →
      releases (event :: later) = 1 := by
    intro later hlater
    rw [releases, List.countP_cons_of_pos hrelease, ← releases, releases_eq_zero hlater]
  refine ⟨_, heq, ?_, fun earlier output later hsplit houtput => ?_, fun hchanged => ?_⟩
  · -- the part up to the release has none, and what follows has this one
    rw [releases_append, hbefore, hfrom rest hrest]
  · have hne : event ≠ output := by
      rintro rfl
      exact absurd (houtput.symm.trans hinput) (by decide)
    -- the output lies behind the release or before it
    rcases List.append_eq_append_iff.1 hsplit with ⟨middle, rfl, hparts⟩ | ⟨middle, rfl, hparts⟩
    · cases middle with
      | nil => exact absurd (List.cons.inj hparts).1 hne
      | cons first middle =>
        obtain ⟨rfl, rfl⟩ := List.cons.inj hparts
        rw [releases_append, hbefore,
          hfrom middle fun entry hentry => hrest entry (List.mem_append_left _ hentry)]
    · -- the output would have been told before the release
      cases middle with
      | nil => exact absurd (List.cons.inj hparts).1.symm hne
      | cons first middle =>
        obtain ⟨rfl, -⟩ := List.cons.inj hparts
        have hquiet := htold output (List.mem_append_right _ List.mem_cons_self)
        exact absurd (houtput.symm.trans hquiet.2) (by decide)
  · exact List.mem_append_right _ (List.mem_cons_of_mem _ (hcall hchanged))

end Operation

/-- **Segmentations are released once.** An operation with whatever measures,
which may fail and panic, has released its segmentation once when it ends, if it
could load one, and else never; and the release comes before the output. Whoever
holds a segmentation and asks for whatever he likes, until he is done or a panic
unwinds, releases it once too: the first release that is asked for finds it held,
all later ones do not, and after it graph, partition and quality are refused. -/
theorem released_once {σ ε : Type} :
    (∀ (name : String) (registry : QualityRegistry) (stage : Stage Host), registry.Discreet →
      ∃ outcome after more,
        (Run.contain name (Operation.segmentationScalar registry)).on stage = (outcome, after) ∧
        Run.timeline after = Run.timeline stage ++ more ∧
        releases more = (if (Segmentation.load.on stage).1.isOk then 1 else 0) ∧
        (∀ earlier output later, more = earlier ++ output :: later → output.isOutput = true →
          releases earlier = 1) ∧
        (after.own ≠ stage.own → Entry.call ⟨.outputScalar, "sc"⟩ ∈ more)) ∧
    ∀ (s : Segmentation) (requests : List Segmentation.Request) (stage : Stage σ),
      s.isLive = true → (∀ request ∈ requests, request.Discreet) →
      ∃ answers t mid made,
        (s.performAll requests : Run σ ε _).on stage = (.ok (answers, t), mid) ∧
        Run.timeline mid = Run.timeline stage ++ made ∧
        (∀ (α : Type) (ending : Except (Failure ε) α), ∃ after more,
          (t.leave ending : Run σ ε α).on mid = (ending, after) ∧
          Run.timeline after = Run.timeline mid ++ more ∧ releases (made ++ more) = 1) ∧
        ∀ next : Segmentation.Request, next.Discreet → ∃ answer u after,
          (t.perform next : Run σ ε _).on mid = (.ok (answer, u), after) ∧
          answer.Fits (decide (releases made = 0)) next := by
  refine ⟨fun name registry stage h => ?_, fun s requests stage hlive h => ?_⟩
  · obtain ⟨hsettled, hown⟩ := Run.adds_contain name (Operation.segmentationScalar registry) stage
    obtain ⟨houtcome, -⟩ := Segmentation.on_load stage
    rcases hrun : (Run.contain name (Operation.segmentationScalar registry)).on stage with
      ⟨outcome, after⟩
    rw [hrun] at hsettled hown
    refine ⟨outcome, after, ?_⟩
    rcases Operation.segmentationScalar_cases h (Run.opened stage) with
      ⟨s, hs, hreleased⟩ | ⟨failure, hfailure, hadds, hsame⟩
    · -- the segmentation is loaded: what contains the operation only adds at the end
      rw [show Segmentation.described stage.own.accessor = .ok s from hs] at houtcome
      obtain ⟨more, heq, honce, hbefore, hcall⟩ :=
        (hreleased.after (hsettled.mono fun _ hquiet => hquiet.1) hown).once
      rw [houtcome]
      exact ⟨more, rfl, heq, honce, hbefore, hcall⟩
    · -- without a segmentation there is nothing to release, and nothing is written
      rw [show Segmentation.described stage.own.accessor = .error failure from hfailure] at houtcome
      obtain ⟨more, heq, hmore⟩ := hadds.trans hsettled
      refine ⟨more, rfl, heq, ?_, fun earlier output later hsplit houtput => ?_, fun hchanged => ?_⟩
      · rw [houtcome, releases_eq_zero fun entry hentry => (hmore entry hentry).1]
        rfl
      · have hquiet := hmore output (hsplit ▸ List.mem_append_right _ List.mem_cons_self)
        exact absurd (houtput.symm.trans hquiet.2) (by decide)
      · exact absurd (hown.trans hsame) hchanged
  · obtain ⟨answers, t, mid, hperformed, made, hmade, hbalance⟩ :=
      Segmentation.performedAll (ε := ε) h s stage
    rw [hlive] at hbalance
    refine ⟨answers, t, mid, made, hperformed, hmade, fun α ending => ?_, fun next hnext => ?_⟩
    · -- what is still held is released now, and what was released before is not held
      obtain ⟨after, hafter, more, hmore, hlast⟩ := t.on_leave ending mid
      refine ⟨after, more, hafter, hmore, ?_⟩
      rw [releases_append]
      simp only [Segmentation.released, Segmentation.isLive, Option.isSome_none,
        Bool.toNat_false, Bool.toNat_true] at hlast hbalance
      omega
    · obtain ⟨answer, u, after, hafter, hfits, -⟩ :=
        Segmentation.performed (ε := ε) hnext t mid
      refine ⟨answer, u, after, hafter, ?_⟩
      rw [← Segmentation.isLive_eq_of_balance hbalance]
      exact hfits

/-- A registry with a measure that panics. -/
def explodingRegistry : QualityRegistry :=
  (Registry.empty "quality measure").register "Exploding" fun _ =>
    .ok (.ofFunction "Exploding" fun _ _ => .error (.panic (.text "boom")))

/-- A measure that panics at once writes nothing before. -/
theorem discreet_exploding : explodingRegistry.Discreet := by
  have hbuilds : explodingRegistry.Builds fun measure =>
      ∀ p g, (measure.compute p g).Writes Entry.IsQuiet :=
    (Registry.builds_empty _).register _ fun _ => QualityMeasure.writes_ofFunction _ _
  intro name options measure hmeasure
  have hpost := hbuilds name options
  rw [hmeasure] at hpost
  exact hpost

/-- The panic of a measure releases the segmentation on its way, in the operation
and under a holder who asks for the measure, goes on, and ends with a panic. -/
theorem released_once_exploding :
    let inputs := (((∅ : Std.TreeMap String Entity).insert "vs" (.vertexSet ⟨0⟩)).insert "es"
      (.edgeBundle ⟨#[]⟩)).insert "segments" (.vertexSet ⟨0⟩) |>.insert "belongsTo"
      (.edgeBundle ⟨#[]⟩)
    let stage : Stage Host :=
      ⟨default, ⟨⟨inputs, (∅ : Std.TreeMap String String).insert "op" "Exploding", ∅⟩, ∅⟩⟩
    let s : Segmentation := ⟨"Exploding", .empty, some (default, .unassigned 0)⟩
    explodingRegistry.Discreet ∧ s.isLive = true ∧
      (∃ outcome after more,
        (Run.contain "scalar" (Operation.segmentationScalar explodingRegistry)).on stage =
          (outcome, after) ∧
        Run.timeline after = Run.timeline stage ++ more ∧ releases more = 1) ∧
      ∃ answers t mid after,
        (s.performAll [.quality explodingRegistry] : Run Host OperationError _).on stage =
          (.ok (answers, t), mid) ∧
        (t.leave (.error (.panic (.text "boom"))) : Host.Action Unit).on mid =
          (.error (.panic (.text "boom")), after) ∧
        ∃ more, Run.timeline after = Run.timeline stage ++ more ∧ releases more = 1 := by
  intro inputs stage s
  have hlive : s.isLive = true := rfl
  have hloaded : (Segmentation.load.on stage).1.isOk = true := by decide +kernel
  refine ⟨discreet_exploding, hlive, ?_, ?_⟩
  · obtain ⟨outcome, after, more, hrun, heq, honce, -⟩ :=
      (released_once (σ := Host) (ε := OperationError)).1 "scalar" explodingRegistry stage
        discreet_exploding
    rw [if_pos hloaded] at honce
    exact ⟨outcome, after, more, hrun, heq, honce⟩
  · obtain ⟨answers, t, mid, made, hperformed, hmade, hleave, -⟩ :=
      (released_once (σ := Host) (ε := OperationError)).2 s [.quality explodingRegistry] stage hlive
        fun request hrequest => by
          rw [List.mem_singleton.1 hrequest]
          exact discreet_exploding
    obtain ⟨after, more, hafter, hmore, honce⟩ :=
      hleave Unit (.error (.panic (.text "boom")))
    refine ⟨answers, t, mid, after, hperformed, hafter, made ++ more, ?_, honce⟩
    rw [hmore, hmade, List.append_assoc]

end GraphMeasures
