import GraphMeasures.Containment.Lemmas
import GraphMeasures.Containment.Script
import GraphMeasures.Run.Lemmas

/-!
# GraphMeasures — panics that were caught before

A panic that arrives at the end of a scope may have been raised on a thread that
the scope knows nothing of. Then the slot still has the record of a panic caught
before, and only the messages tell the two apart.

* `Inside` — what the slot of a scope has after a number of panics.
* `contain_history` — a fault has the trace of its own panic, or none, or that of
  the last panic tracked before, if this has the same message.
* `contain_history_same_message` — the third case is possible.
-/

namespace GraphMeasures.Containment

/-! ## Histories of a scope -/

/-- Who raises a panic. -/
inductive Raiser where
  /-- The thread that has the scope open. -/
  | scopeThread
  /-- A worker with the scope as its tag, or without one. -/
  | worker (tagged : Bool)
  | otherThread

/-- A panic that arrives inside a scope. -/
structure Arrival where
  raiser : Raiser
  payload : Payload

namespace Arrival

/-- The scope makes a record of the panic. -/
def IsTracked (a : Arrival) : Prop :=
  match a.raiser with
  | .scopeThread => True
  | .worker tagged => tagged = true
  | .otherThread => False

/-- The step of a script that makes the panic arrive. -/
def step {α : Type} (a : Arrival) : Step α :=
  match a.raiser with
  | .scopeThread => .panic a.payload
  | .worker tagged => .workerPanic a.payload tagged
  | .otherThread => .threadPanic a.payload

end Arrival

/-- Panics are caught one after the other, and then one is not. -/
def Script.history {α : Type} (swallowed : List Arrival) (last : Arrival) : Script α :=
  swallowed.map (fun a => .catching [a.step]) ++ [last.step]

/-- The record is that of the last tracked panic, if there is one. The raises are
numbered from `first` on. -/
def LastTracked (first : Nat) (arrivals : List Arrival) : Option Record → Prop
  | none => ∀ a ∈ arrivals, ¬a.IsTracked
  | some record => ∃ before a after, arrivals = before ++ a :: after ∧ a.IsTracked ∧
      (∀ later ∈ after, ¬later.IsTracked) ∧ record = ⟨a.payload.message, first + before.length⟩

/-- A tracked panic that comes last is the last one tracked. -/
theorem lastTracked_concat {a : Arrival} (first : Nat) (arrivals : List Arrival) (h : a.IsTracked) :
    LastTracked first (arrivals ++ [a]) (some ⟨a.payload.message, first + arrivals.length⟩) :=
  ⟨arrivals, a, [], rfl, h, fun _ hlater => absurd hlater List.not_mem_nil, rfl⟩

/-- A panic that is not tracked changes nothing about which tracked one was the
last. It comes behind all others, and whatever was tracked before it still is
the last. -/
theorem LastTracked.concat {first : Nat} {arrivals : List Arrival} {slot : Option Record}
    {a : Arrival} (h : LastTracked first arrivals slot) (ha : ¬a.IsTracked) :
    LastTracked first (arrivals ++ [a]) slot := by
  -- what comes last is not tracked, so it leaves the record as it was
  cases slot with
  | none =>
    intro other hother
    rcases List.mem_append.1 hother with hother | hother
    · exact h other hother
    · rw [List.mem_singleton.1 hother]
      exact ha
  | some record =>
    obtain ⟨before, tracked, after, rfl, htracked, hafter, hrecord⟩ := h
    refine ⟨before, tracked, after ++ [a], by simp, htracked, fun later hlater => ?_, hrecord⟩
    rcases List.mem_append.1 hlater with hlater | hlater
    · exact hafter later hlater
    · rw [List.mem_singleton.1 hlater]
      exact ha

/-! ## What the slot has -/

variable {σ α : Type} {id : ScopeId} {first : Nat} {arrivals : List Arrival}

/-- A run is in a scope after some panics, the raises of which are numbered from
`first` on. -/
structure Inside (id : ScopeId) (first : Nat) (arrivals : List Arrival) (stage : Stage σ) :
    Prop where
  scope : stage.scene.thread.scope = some id
  raises : stage.scene.scopes.raises = first + arrivals.length
  slot : ∃ slot, stage.scene.scopes.slots[id]? = some slot ∧ LastTracked first arrivals slot

/-- A scope that was just opened has seen no panics. -/
theorem inside_opened (stage : Stage σ) :
    Inside stage.scene.scopes.next stage.scene.scopes.raises [] (Run.opened stage) := by
  refine ⟨rfl, rfl, none, ?_, fun a ha => absurd ha List.not_mem_nil⟩
  have hslot := stage.scene.scopes.slot_enter stage.scene.thread stage.scene.scopes.next
  rw [if_pos rfl] at hslot
  exact hslot

/-- The thread that a panic is raised on. -/
def Arrival.thread (a : Arrival) (own : Thread) : Thread :=
  match a.raiser with
  | .scopeThread => own
  | .worker tagged => .worker (if tagged then own.scope else none)
  | .otherThread => .plain

/-- A tracked panic is raised on a thread that belongs to the scope, and any
other on one that belongs to none. -/
theorem Arrival.owner_thread (a : Arrival) {own : Thread} (h : own.scope = some id) :
    a.IsTracked ∧ (a.thread own).owner = some id ∨ ¬a.IsTracked ∧ (a.thread own).owner = none := by
  rcases a with ⟨_ | tagged | _, payload⟩
  · exact Or.inl ⟨trivial, Thread.owner_eq_some_iff.2 (Or.inl h)⟩
  · cases tagged with
    | true => exact Or.inl ⟨rfl, Thread.owner_eq_some_iff.2 (Or.inr ⟨rfl, h⟩)⟩
    | false => exact Or.inr ⟨Bool.false_ne_true, rfl⟩
  · exact Or.inr ⟨not_false, rfl⟩

/-- The stage after a panic was raised. -/
def Arrival.on (a : Arrival) (stage : Stage σ) : Stage σ :=
  { stage with scene := { stage.scene with
      scopes := stage.scene.scopes.raise (a.thread stage.scene.thread) a.payload } }

/-- A tracked panic leaves its record, and another one leaves the slot as it
is. -/
theorem Inside.slot_on {stage : Stage σ} (h : Inside id first arrivals stage) (a : Arrival) :
    a.IsTracked ∧ (a.on stage).scene.scopes.slots[id]? =
        some (some ⟨a.payload.message, first + arrivals.length⟩) ∨
      ¬a.IsTracked ∧ (a.on stage).scene.scopes.slots[id]? = stage.scene.scopes.slots[id]? := by
  have hslot : (a.on stage).scene.scopes.slots[id]? = _ :=
    Scopes.slot_raise (a.thread stage.scene.thread) a.payload id
  -- what is tracked is what belongs to the scope, whichever thread raises it
  rcases a.owner_thread h.scope with ⟨htracked, howner⟩ | ⟨huntracked, howner⟩
  · obtain ⟨slot, hopen, -⟩ := h.slot
    rw [if_pos ⟨howner, Scopes.mem_slots_iff.2 ⟨slot, hopen⟩⟩, h.raises] at hslot
    exact Or.inl ⟨htracked, hslot⟩
  · rw [howner, if_neg fun hboth => nomatch hboth.1] at hslot
    exact Or.inr ⟨huntracked, hslot⟩

/-- After one more panic the slot has what there is of the last one tracked: the
panic itself if it is tracked, and otherwise what the slot had before. -/
theorem Inside.on {stage : Stage σ} (h : Inside id first arrivals stage) (a : Arrival) :
    Inside id first (arrivals ++ [a]) (a.on stage) := by
  refine ⟨h.scope, ?_, ?_⟩
  · show (stage.scene.scopes.raise _ _).raises = _
    rw [Scopes.raises_raise, h.raises, List.length_append, List.length_singleton, Nat.add_assoc]
  · rcases h.slot_on a with ⟨htracked, hslot⟩ | ⟨huntracked, hslot⟩
    · exact ⟨_, hslot, lastTracked_concat first arrivals htracked⟩
    · obtain ⟨slot, hopen, hlast⟩ := h.slot
      exact ⟨slot, hslot.trans hopen, hlast.concat huntracked⟩

/-! ## Scripts of panics -/

variable [Inhabited α]

/-- A script that raises a panic ends with it, and what comes behind is not
run. -/
theorem Arrival.run_step (a : Arrival) (stage : Stage (Array (Observation α))) (rest : Script α) :
    (Script.run (a.step :: rest)).on stage = (.error (.panic a.payload), a.on stage) := by
  rcases a with ⟨_ | tagged | _, payload⟩
  · simp [Script.run, Script.runStep, Arrival.step, Arrival.on, Arrival.thread]
  · simp [Script.run, Script.runStep, Script.workerTag, Arrival.step, Arrival.on, Arrival.thread]
  · simp [Script.run, Script.runStep, Arrival.step, Arrival.on, Arrival.thread]

/-- A panic that is caught is noted, and the script goes on from where it was
raised. -/
theorem Arrival.run_catching (a : Arrival) (stage : Stage (Array (Observation α)))
    (rest : Script α) :
    (Script.run (.catching [a.step] :: rest)).on stage =
      (Script.run rest).on
        { a.on stage with own := stage.own.push (.caught (.error (.panic a.payload))) } := by
  rw [Script.run]
  simp only [Script.runStep, Script.see, Run.on_bind, Run.on_attempt, Run.on_modify, Run.on_pure,
    a.run_step]
  rfl

/-- A panic that is caught leaves behind what the scope has of it. So when the
last panic arrives, the scope has seen all the others. The induction is on
those. -/
theorem Inside.run_history {stage : Stage (Array (Observation α))}
    (h : Inside id first arrivals stage) (swallowed : List Arrival) (last : Arrival) :
    ∃ before : Stage (Array (Observation α)), Inside id first (arrivals ++ swallowed) before ∧
      (Script.run (Script.history swallowed last)).on stage =
        (.error (.panic last.payload), last.on before) := by
  induction swallowed generalizing arrivals stage with
  | nil => exact ⟨stage, (List.append_nil arrivals).symm ▸ h, last.run_step stage []⟩
  | cons a swallowed ih =>
    -- that a panic is caught is seen by the script and not by the scope
    have hcaught : Inside id first (arrivals ++ [a])
        { a.on stage with own := stage.own.push (.caught (.error (.panic a.payload))) } :=
      ⟨(h.on a).scope, (h.on a).raises, (h.on a).slot⟩
    obtain ⟨before, hinside, hrun⟩ := ih hcaught
    rw [List.append_assoc, List.singleton_append] at hinside
    exact ⟨before, hinside, (a.run_catching stage (Script.history swallowed last)).trans hrun⟩

/-! ## The trace of a fault -/

/-- The panic caught at a position is the last one that was tracked, and it has
the message of the one that arrives in the end. -/
def MistakenFor (swallowed : List Arrival) (last : Arrival) (position : Nat) : Prop :=
  ∃ before a after, swallowed = before ++ a :: after ∧ a.IsTracked ∧
    (∀ later ∈ after, ¬later.IsTracked) ∧ a.payload.message = last.payload.message ∧
    position = before.length

/-- Behind the last tracked panic there is no other that is tracked. Two ways to
split the history at its last tracked panic are therefore the same. -/
theorem eq_of_last_tracked {more after after' : List Arrival} {a a' : Arrival}
    (h : a :: after = more ++ a' :: after') (ha' : a'.IsTracked)
    (hafter : ∀ later ∈ after, ¬later.IsTracked) : a = a' := by
  cases more with
  | nil => exact (List.cons.inj h).1
  | cons head more =>
    have hmem : a' ∈ after := by
      rw [(List.cons.inj h).2]
      exact List.mem_append_right _ List.mem_cons_self
    exact absurd ha' (hafter a' hmem)

/-- A list has one last tracked panic. Of two splittings of the list one is not
longer in front, and the two cases are the same. -/
theorem last_tracked_unique {before before' after after' : List Arrival} {a a' : Arrival}
    (h : before ++ a :: after = before' ++ a' :: after') (ha : a.IsTracked) (ha' : a'.IsTracked)
    (hafter : ∀ later ∈ after, ¬later.IsTracked) (hafter' : ∀ later ∈ after', ¬later.IsTracked) :
    a = a' := by
  -- one of the two lists before begins with the other
  rcases List.append_eq_append_iff.1 h with ⟨more, -, hmore⟩ | ⟨more, -, hmore⟩
  · exact eq_of_last_tracked hmore ha' hafter
  · exact (eq_of_last_tracked hmore ha hafter').symm

/-- What is found in the slot for a message: the trace of the last tracked
panic, if it has this message, and otherwise nothing. That the two panics are
different does not show, because only their texts are compared. -/
theorem LastTracked.takeTrace {scopes : Scopes} {slot : Option Record}
    (h : LastTracked first arrivals slot) (hopen : scopes.slots[id]? = some slot) (last : Arrival) :
    (scopes.takeTrace id last.payload.message).1 = none ∧
        (∀ position, ¬MistakenFor arrivals last position) ∨
      ∃ position, MistakenFor arrivals last position ∧
        (scopes.takeTrace id last.payload.message).1 = some (first + position) := by
  -- a trace is found only in a record with this message
  have hfound : ∀ {trace}, (scopes.takeTrace id last.payload.message).1 = some trace →
      ∃ record, slot = some record ∧ record.message = last.payload.message := by
    intro trace htaken
    obtain ⟨record, hrecord, hmessage, -⟩ := Scopes.takeTrace_eq_some_iff.1 htaken
    rw [hopen] at hrecord
    exact ⟨record, Option.some.inj hrecord, hmessage⟩
  cases slot with
  | none =>
    refine Or.inl ⟨Option.eq_none_iff_forall_ne_some.2 fun trace htaken => ?_, ?_⟩
    · obtain ⟨record, hnone, -⟩ := hfound htaken
      cases hnone
    · rintro position ⟨before, a, after, rfl, htracked, -⟩
      exact h a (List.mem_append_right _ List.mem_cons_self) htracked
  | some record =>
    obtain ⟨before, a, after, hsplit, htracked, hafter, rfl⟩ := h
    by_cases hmessage : a.payload.message = last.payload.message
    · exact Or.inr ⟨before.length, ⟨before, a, after, hsplit, htracked, hafter, hmessage, rfl⟩,
        Scopes.takeTrace_eq_some_iff.2 ⟨_, hopen, hmessage, rfl⟩⟩
    · refine Or.inl ⟨Option.eq_none_iff_forall_ne_some.2 fun trace htaken => ?_, ?_⟩
      · obtain ⟨record, hsome, hsame⟩ := hfound htaken
        cases hsome
        exact hmessage hsame
      · rintro position ⟨before', a', after', hsplit', htracked', hafter', hsame, -⟩
        have heq : a = a' :=
          last_tracked_unique (hsplit.symm.trans hsplit') htracked htracked' hafter hafter'
        exact hmessage (heq ▸ hsame)

/-- **A fault's trace is that of its own panic, except by mistake.** After panics
that were caught, one that the scope tracks becomes a fault with its own trace. One
that it does not track becomes a fault without a trace, unless the last panic
tracked before has the same message: then the fault has the trace of that one. -/
theorem contain_history (operation : String) (swallowed : List Arrival) (last : Arrival)
    (stage : Stage (Array (Observation α))) :
    ∃ backtrace,
      ((Run.contain operation (Script.run (Script.history swallowed last))).on stage).1 =
        .error (.error (.fault operation last.payload.message backtrace)) ∧
      (last.IsTracked ∧
          backtrace = .captured (stage.scene.scopes.raises + swallowed.length) ∨
        ¬last.IsTracked ∧ backtrace = .unavailable ∧
          (∀ position, ¬MistakenFor swallowed last position) ∨
        ¬last.IsTracked ∧ ∃ position, MistakenFor swallowed last position ∧
          backtrace = .captured (stage.scene.scopes.raises + position)) := by
  obtain ⟨before, hinside, hrun⟩ := (inside_opened stage).run_history swallowed last
  rw [List.nil_append] at hinside
  refine ⟨_, Run.on_contain_of_panic operation hrun, ?_⟩
  -- a tracked panic replaces the record; any other finds what is there
  rcases hinside.slot_on last with ⟨htracked, hslot⟩ | ⟨huntracked, hslot⟩
  · refine Or.inl ⟨htracked, ?_⟩
    rw [Scopes.takeTrace_eq_some_iff.2 ⟨_, hslot, rfl, rfl⟩]
    rfl
  · -- the slot still has what the panics before left in it
    obtain ⟨slot, hopen, hlast⟩ := hinside.slot
    rcases hlast.takeTrace (hslot.trans hopen) last with
      ⟨hnone, hright⟩ | ⟨position, hmistaken, htaken⟩
    · rw [hnone]
      exact Or.inr (Or.inl ⟨huntracked, rfl, hright⟩)
    · rw [htaken]
      exact Or.inr (Or.inr ⟨huntracked, position, hmistaken, rfl⟩)

/-- **The mistake is possible.** A panic is caught, another thread panics with
the same message, and the fault has the trace of the first one. -/
theorem contain_history_same_message :
    ¬∀ (operation : String) (swallowed : List Arrival) (last : Arrival)
        (stage : Stage (Array (Observation String))) (backtrace : Backtrace),
      ((Run.contain operation (Script.run (Script.history swallowed last))).on stage).1 =
          .error (.error (.fault operation last.payload.message backtrace)) →
        backtrace = .captured (stage.scene.scopes.raises + swallowed.length) ∨
          backtrace = .unavailable := by
  intro h
  rcases h "op" [⟨.scopeThread, .text "x"⟩] ⟨.otherThread, .text "x"⟩ ⟨default, #[]⟩
    (.captured 0) rfl with hown | hunavailable
  · exact absurd (Backtrace.captured.inj hown) Nat.zero_ne_one
  · cases hunavailable

end GraphMeasures.Containment
