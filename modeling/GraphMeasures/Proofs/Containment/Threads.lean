import Mathlib.Logic.Function.Basic
import Mathlib.Logic.Relation
import GraphMeasures.Containment.Lemmas

/-!
# GraphMeasures — many threads and their scopes

The scopes are shared by all threads, and the steps of the threads come in any
order. A `System` has any number of threads, each with the scopes that it has
opened and not closed. A thread closes the innermost of them first; if a panic
has arrived there, it takes the trace before.

* `System.Step` — one step of one thread.
* `System.Consistent` — what holds in every state that steps lead to
  (`Consistent.step`): the open slots are those of the open scopes, no two scopes
  have one id, the scope of a thread is the innermost one that it has open, and a
  record was made by a panic that belongs to its scope.
-/

namespace GraphMeasures.Containment

/-- A thread and the scopes that it has opened and not closed. -/
structure Caller where
  thread : Thread
  /-- The innermost scope comes first. -/
  guards : List Guard
  /-- The trace was taken out of the innermost scope, which is closed next. -/
  closing : Bool

/-- All threads, which are known by numbers, and what they have done. -/
structure System where
  scopes : Scopes
  callers : Nat → Caller
  /-- The ids of all scopes opened so far. -/
  opened : List ScopeId
  /-- The panics raised so far, each with its thread as it was then. -/
  raised : List (Thread × Payload)

namespace System

/-! ## Steps -/

/-- Threads with no scope, each with the tag that it was started with. -/
def initial (tags : Nat → Option ScopeId) : System :=
  ⟨.initial, fun t => ⟨.worker (tags t), [], false⟩, [], []⟩

/-- A thread opens a scope. -/
def enter (s : System) (t : Nat) : System :=
  let (guard, thread, scopes) := s.scopes.enter (s.callers t).thread
  { s with
    scopes
    callers := Function.update s.callers t ⟨thread, guard :: (s.callers t).guards, false⟩
    opened := s.opened ++ [guard.id] }

/-- A panic is raised on a thread. -/
def raise (s : System) (t : Nat) (payload : Payload) : System :=
  { s with
    scopes := s.scopes.raise (s.callers t).thread payload
    raised := s.raised ++ [((s.callers t).thread, payload)] }

/-- A thread takes the trace of a panic that has arrived at its innermost
scope. -/
def takeTrace (s : System) (t : Nat) (guard : Guard) (message : String) : System :=
  { s with
    scopes := (s.scopes.takeTrace guard.id message).2
    callers := Function.update s.callers t { s.callers t with closing := true } }

/-- A thread closes its innermost scope. -/
def leave (s : System) (t : Nat) (guard : Guard) (rest : List Guard) : System :=
  let (thread, scopes) := s.scopes.leave (s.callers t).thread guard
  { s with
    scopes
    callers := Function.update s.callers t ⟨thread, rest, false⟩ }

/-- One step of some thread. -/
inductive Step (s : System) : System → Prop where
  | enter (t : Nat) (h : (s.callers t).closing = false) : Step s (s.enter t)
  | raise (t : Nat) (payload : Payload) : Step s (s.raise t payload)
  | takeTrace (t : Nat) (guard : Guard) (rest : List Guard) (message : String)
      (h : (s.callers t).guards = guard :: rest) (hclosing : (s.callers t).closing = false) :
      Step s (s.takeTrace t guard message)
  | leave (t : Nat) (guard : Guard) (rest : List Guard)
      (h : (s.callers t).guards = guard :: rest) : Step s (s.leave t guard rest)

/-- Any number of steps of any threads. -/
abbrev Reaches : System → System → Prop :=
  Relation.ReflTransGen Step

/-! ## What every state has -/

/-- The scopes of a thread lie in each other, and the first of them is the one
given. -/
def Nested : Option ScopeId → List Guard → Prop
  | scope, [] => scope = none
  | scope, guard :: rest => scope = some guard.id ∧ Nested guard.outer rest

/-- A thread is in the scope that it opened last and has not closed. -/
theorem Nested.scope_eq {scope : Option ScopeId} {guards : List Guard} (h : Nested scope guards) :
    scope = guards.head?.map (·.id) := by
  cases guards with
  | nil => exact h
  | cons guard rest => exact h.1

/-- The record was made of a panic that belongs to the scope. -/
def MadeIn (raised : List (Thread × Payload)) (id : ScopeId) (record : Record) : Prop :=
  ∃ thread payload, raised[record.trace]? = some (thread, payload) ∧ thread.owner = some id ∧
    record.message = payload.message

/-- What a panic has left stays made by it when other panics follow. -/
theorem MadeIn.append {raised : List (Thread × Payload)} {id : ScopeId} {record : Record}
    (h : MadeIn raised id record) (more : List (Thread × Payload)) :
    MadeIn (raised ++ more) id record := by
  obtain ⟨thread, payload, hraised, howner, hmessage⟩ := h
  refine ⟨thread, payload, ?_, howner, hmessage⟩
  rw [List.getElem?_append_left (List.getElem?_eq_some_iff.1 hraised).1, hraised]

structure Consistent (s : System) : Prop where
  fresh : ∀ id ∈ s.opened, id < s.scopes.next
  distinct : s.opened.Nodup
  guarded : ∀ t, ∀ guard ∈ (s.callers t).guards, guard.id ∈ s.opened
  /-- No scope is open on two threads. -/
  single : ∀ t u, ∀ guard ∈ (s.callers t).guards, ∀ other ∈ (s.callers u).guards,
    guard.id = other.id → t = u
  /-- No scope is open twice on a thread. -/
  once : ∀ t, ((s.callers t).guards.map (·.id)).Nodup
  nested : ∀ t, Nested (s.callers t).thread.scope (s.callers t).guards
  slots : ∀ id, id ∈ s.scopes.slots ↔ ∃ t, ∃ guard ∈ (s.callers t).guards, guard.id = id
  numbered : s.scopes.raises = s.raised.length
  recorded : ∀ id record, s.scopes.slots[id]? = some (some record) → MadeIn s.raised id record

/-- At first no scope is open, no thread is in one, and nothing is recorded.
Only the tags may be anything, since nobody has been given a scope that a tag
could name. -/
theorem consistent_initial (tags : Nat → Option ScopeId) : (initial tags).Consistent where
  -- nothing has been opened or raised, so there is nothing to keep in order
  fresh id hid := absurd hid List.not_mem_nil
  distinct := List.nodup_nil
  guarded t guard hguard := absurd hguard List.not_mem_nil
  single t u guard hguard := absurd hguard List.not_mem_nil
  once t := List.nodup_nil
  nested t := rfl
  slots id := by
    refine ⟨fun h => absurd h Std.TreeMap.not_mem_emptyc, ?_⟩
    rintro ⟨t, guard, hguard, -⟩
    exact absurd hguard List.not_mem_nil
  numbered := rfl
  recorded id record h := by
    have hempty : (∅ : Std.TreeMap ScopeId (Option Record))[id]? = none :=
      Std.TreeMap.getElem?_emptyc
    exact absurd (hempty.symm.trans h) (by simp)

namespace Consistent

variable {s s' : System}

/-! ## Opening a scope -/

/-- Opening a scope puts its guard in front of those of the thread, and leaves
the other threads alone. -/
theorem guards_enter (s : System) (t u : Nat) :
    ((s.enter t).callers u).guards =
      if u = t then ⟨s.scopes.next, (s.callers t).thread.scope⟩ :: (s.callers t).guards
      else (s.callers u).guards := by
  simp only [System.enter, Scopes.enter, Function.update_apply]
  split <;> rfl

/-- Opening a scope makes an empty slot. -/
theorem slot_enter (s : System) (t : Nat) (id : ScopeId) :
    (s.enter t).scopes.slots[id]? =
      if id = s.scopes.next then some none else s.scopes.slots[id]? :=
  Scopes.slot_enter (s.callers t).thread id

/-- The guards of the thread that enters are the old ones and the new one, which
has the next number; those of all other threads are what they were. -/
theorem mem_guards_enter {t u : Nat} {guard : Guard} :
    guard ∈ ((s.enter t).callers u).guards ↔
      u = t ∧ guard = ⟨s.scopes.next, (s.callers t).thread.scope⟩ ∨
        guard ∈ (s.callers u).guards := by
  rw [guards_enter]
  split
  · next h =>
    subst h
    rw [List.mem_cons]
    simp
  · next h => simp [h]

/-- Scopes that are open have ids below the next one, so the next one is new. -/
theorem lt_next (h : s.Consistent) {t : Nat} {guard : Guard}
    (hguard : guard ∈ (s.callers t).guards) :
    guard.id < s.scopes.next :=
  h.fresh _ (h.guarded t guard hguard)

/-- Opening a scope keeps the order. Its number is a new one, so it is in no
list yet; it becomes the innermost scope of the thread that opens it, and its
slot starts empty. -/
theorem enter (h : s.Consistent) (t : Nat) : (s.enter t).Consistent where
  fresh id hid := by
    show id < s.scopes.next + 1
    rcases List.mem_append.1 hid with hid | hid
    · exact Nat.lt_succ_of_lt (h.fresh id hid)
    · rw [List.mem_singleton.1 hid]
      exact Nat.lt_succ_self _
  distinct := by
    refine List.nodup_append.2 ⟨h.distinct, by simp, fun id hid other hother => ?_⟩
    rw [List.mem_singleton.1 hother]
    exact Nat.ne_of_lt (h.fresh id hid)
  guarded u guard hguard := by
    rcases mem_guards_enter.1 hguard with ⟨-, rfl⟩ | hguard
    · exact List.mem_append_right _ (List.mem_singleton_self _)
    · exact List.mem_append_left _ (h.guarded u guard hguard)
  single u v guard hguard other hother heq := by
    -- the new id is none of those given before
    rcases mem_guards_enter.1 hguard with ⟨hu, hnew⟩ | hold
    · rcases mem_guards_enter.1 hother with ⟨hv, -⟩ | hold
      · rw [hu, hv]
      · rw [hnew] at heq
        exact absurd heq (Nat.ne_of_gt (h.lt_next hold))
    · rcases mem_guards_enter.1 hother with ⟨-, hnew⟩ | hold'
      · rw [hnew] at heq
        exact absurd heq (Nat.ne_of_lt (h.lt_next hold))
      · exact h.single u v guard hold other hold' heq
  once u := by
    rw [guards_enter]
    split
    · refine List.nodup_cons.2 ⟨fun hmem => ?_, h.once t⟩
      obtain ⟨guard, hguard, hid⟩ := List.mem_map.1 hmem
      exact absurd hid (Nat.ne_of_lt (h.lt_next hguard))
    · exact h.once u
  nested u := by
    simp only [System.enter, Scopes.enter, Function.update_apply]
    split
    · exact ⟨rfl, h.nested t⟩
    · exact h.nested u
  slots id := by
    refine (Scopes.mem_slots_enter (s.callers t).thread).trans ?_
    rw [h.slots]
    constructor
    · rintro (hnew | ⟨u, guard, hguard, heq⟩)
      · exact ⟨t, _, mem_guards_enter.2 (Or.inl ⟨rfl, rfl⟩), hnew.symm⟩
      · exact ⟨u, guard, mem_guards_enter.2 (Or.inr hguard), heq⟩
    · rintro ⟨u, guard, hguard, heq⟩
      rcases mem_guards_enter.1 hguard with ⟨-, rfl⟩ | hold
      · exact Or.inl heq.symm
      · exact Or.inr ⟨u, guard, hold, heq⟩
  numbered := h.numbered
  recorded id record hrecord :=
    h.recorded id record (Scopes.record_of_enter (s.callers t).thread hrecord)

/-! ## Raising a panic -/

/-- A panic is recorded for the scope that its thread belongs to. -/
theorem slot_raise (s : System) (t : Nat) (payload : Payload) (id : ScopeId) :
    (s.raise t payload).scopes.slots[id]? =
      if (s.callers t).thread.owner = some id ∧ id ∈ s.scopes.slots then
        some (some ⟨payload.message, s.scopes.raises⟩)
      else s.scopes.slots[id]? :=
  Scopes.slot_raise _ _ _

/-- Raising a panic keeps the order. It changes one slot at most, that of the
scope that the thread belongs to, and the record that is put there has the
number of the panic. -/
theorem raise (h : s.Consistent) (t : Nat) (payload : Payload) :
    (s.raise t payload).Consistent where
  fresh id hid := (Scopes.next_raise _ _).symm ▸ h.fresh id hid
  distinct := h.distinct
  guarded := h.guarded
  single := h.single
  once := h.once
  nested := h.nested
  slots id := Scopes.mem_slots_raise.trans (h.slots id)
  numbered := by
    show (s.scopes.raise _ _).raises = (s.raised ++ [_]).length
    rw [Scopes.raises_raise, h.numbered, List.length_append, List.length_singleton]
  recorded id record hrecord := by
    rw [slot_raise] at hrecord
    by_cases hid : (s.callers t).thread.owner = some id ∧ id ∈ s.scopes.slots
    · -- the record is the one just made, and its number is that of the last raise
      rw [if_pos hid] at hrecord
      obtain rfl := Option.some.inj (Option.some.inj hrecord)
      refine ⟨(s.callers t).thread, payload, ?_, hid.1, rfl⟩
      show (s.raised ++ [_])[s.scopes.raises]? = _
      rw [h.numbered, List.getElem?_concat_length]
    · rw [if_neg hid] at hrecord
      exact (h.recorded id record hrecord).append _

/-! ## Taking a trace -/

theorem slot_takeTrace (s : System) (t : Nat) (guard : Guard) (message : String) (id : ScopeId) :
    (s.takeTrace t guard message).scopes.slots[id]? =
      if id = guard.id ∧ guard.id ∈ s.scopes.slots then some none else s.scopes.slots[id]? :=
  Scopes.slot_takeTrace _ _ _

/-- Taking a trace leaves the threads where they are. -/
theorem thread_takeTrace (s : System) (t : Nat) (guard : Guard) (message : String) (u : Nat) :
    ((s.takeTrace t guard message).callers u).thread = (s.callers u).thread := by
  simp only [System.takeTrace, Function.update_apply]
  split
  · next h => rw [h]
  · rfl

/-- Taking a trace closes no scope. -/
theorem guards_takeTrace (s : System) (t : Nat) (guard : Guard) (message : String) (u : Nat) :
    ((s.takeTrace t guard message).callers u).guards = (s.callers u).guards := by
  simp only [System.takeTrace, Function.update_apply]
  split
  · next h => rw [h]
  · rfl

/-- Taking a trace out of a slot keeps the order. The slot is emptied, but it
stays, since its scope is still open; guards and threads are as before. -/
theorem takeTrace (h : s.Consistent) (t : Nat) (guard : Guard) (message : String) :
    (s.takeTrace t guard message).Consistent where
  -- nothing is opened or closed: only the record in the slot is taken out
  fresh id hid := (Scopes.next_takeTrace _ _).symm ▸ h.fresh id hid
  distinct := h.distinct
  guarded u other hother := h.guarded u other (guards_takeTrace s t guard message u ▸ hother)
  single u v other hother another hanother :=
    h.single u v other (guards_takeTrace s t guard message u ▸ hother) another
      (guards_takeTrace s t guard message v ▸ hanother)
  once u := by
    rw [guards_takeTrace]
    exact h.once u
  nested u := by
    rw [guards_takeTrace, thread_takeTrace]
    exact h.nested u
  slots id := by
    simp only [guards_takeTrace]
    exact Scopes.mem_slots_takeTrace.trans (h.slots id)
  numbered := (Scopes.raises_takeTrace _ _).trans h.numbered
  recorded id record hrecord := h.recorded id record (Scopes.record_of_takeTrace hrecord)

/-! ## Closing a scope -/

theorem slot_leave (s : System) (t : Nat) (guard : Guard) (rest : List Guard) (id : ScopeId) :
    (s.leave t guard rest).scopes.slots[id]? =
      if id = guard.id then none else s.scopes.slots[id]? :=
  Scopes.slot_leave (s.callers t).thread guard id

/-- Closing a scope takes the guard in front from its thread. -/
theorem guards_leave (s : System) (t : Nat) (guard : Guard) (rest : List Guard) (u : Nat) :
    ((s.leave t guard rest).callers u).guards = if u = t then rest else (s.callers u).guards := by
  simp only [System.leave, Scopes.leave, Function.update_apply]
  split <;> rfl

/-- The scopes that are left are the others. No other thread has a guard for the
scope that is closed, and its own thread has none either, since ids are used
once. -/
theorem mem_guards_leave (h : s.Consistent) {t u : Nat} {guard other : Guard} {rest : List Guard}
    (hguards : (s.callers t).guards = guard :: rest) :
    other ∈ ((s.leave t guard rest).callers u).guards ↔
      other ∈ (s.callers u).guards ∧ other.id ≠ guard.id := by
  have hguard : guard ∈ (s.callers t).guards := by
    rw [hguards]
    exact List.mem_cons_self
  rw [guards_leave]
  -- the closing thread loses the guard on top; no other thread has one with this number
  by_cases hu : u = t
  · subst hu
    have honce := h.once u
    rw [hguards, List.map_cons, List.nodup_cons] at honce
    rw [if_pos rfl, hguards, List.mem_cons]
    constructor
    · intro hrest
      exact ⟨Or.inr hrest, fun heq => honce.1 (heq ▸ List.mem_map_of_mem hrest)⟩
    · rintro ⟨rfl | hrest, hne⟩
      · exact absurd rfl hne
      · exact hrest
  · rw [if_neg hu]
    refine ⟨fun hother => ⟨hother, fun heq => hu ?_⟩, fun hother => hother.1⟩
    exact h.single u t other hother guard hguard heq

/-- Closing the innermost scope of a thread keeps the order. The guard on top
goes, and with it the slot of its number; the scope around it is the innermost
one again. -/
theorem leave (h : s.Consistent) {t : Nat} {guard : Guard} {rest : List Guard}
    (hguards : (s.callers t).guards = guard :: rest) : (s.leave t guard rest).Consistent where
  fresh := h.fresh
  distinct := h.distinct
  guarded u other hother := h.guarded u other ((h.mem_guards_leave hguards).1 hother).1
  single u v other hother another hanother :=
    h.single u v other ((h.mem_guards_leave hguards).1 hother).1 another
      ((h.mem_guards_leave hguards).1 hanother).1
  once u := by
    rw [guards_leave]
    split
    · have honce := h.once t
      rw [hguards] at honce
      exact (List.nodup_cons.1 honce).2
    · exact h.once u
  nested u := by
    simp only [System.leave, Scopes.leave, Function.update_apply]
    split
    · -- the scope around the closed one is the innermost one now
      have hnested := h.nested t
      rw [hguards] at hnested
      exact hnested.2
    · exact h.nested u
  slots id := by
    simp only [h.mem_guards_leave hguards]
    refine (Scopes.mem_slots_leave (s.callers t).thread).trans ?_
    rw [h.slots]
    constructor
    · rintro ⟨hne, u, other, hother, heq⟩
      exact ⟨u, other, ⟨hother, fun hclosed => hne (heq.symm.trans hclosed)⟩, heq⟩
    · rintro ⟨u, other, ⟨hother, hne⟩, heq⟩
      exact ⟨fun hclosed => hne (heq.trans hclosed), u, other, hother, heq⟩
  numbered := h.numbered
  recorded id record hrecord :=
    h.recorded id record (Scopes.record_of_leave (s.callers t).thread hrecord)

/-! ## All steps -/

/-- Whatever a thread does next keeps what every state has. -/
theorem step (h : s.Consistent) (hstep : Step s s') : s'.Consistent := by
  cases hstep with
  | enter t _ => exact h.enter t
  | raise t payload => exact h.raise t payload
  | takeTrace t guard rest message _ _ => exact h.takeTrace t guard message
  | leave t guard rest hguards => exact h.leave hguards

/-- So every state that can be reached has it, by induction on the steps. -/
theorem reaches (h : s.Consistent) (hreach : Reaches s s') : s'.Consistent := by
  induction hreach with
  | refl => exact h
  | tail _ hstep ih => exact ih.step hstep

end Consistent

end System

end GraphMeasures.Containment
