import GraphMeasures.Containment.Scopes

/-!
# GraphMeasures — what happens to the slots

What every step of a thread does to the slot of a scope. `s.slots[id]?` is
nothing when the scope is not open.

* `slot_enter`, `slot_leave` — a slot is there from the opening of its scope to
  its closing, and other steps neither make nor drop one (`mem_slots_raise`,
  `mem_slots_takeTrace`).
* `slot_raise` — a panic changes the slot of the open scope that it belongs to.
* `takeTrace_eq_some_iff`, `slot_takeTrace` — a trace is taken for one message only, and
  the slot is empty after it.
* `record_of_enter` and its like — no record comes from anything but a panic.
-/

namespace GraphMeasures.Containment

/-- A thread belongs to the scope that it is in, and only where it is in none,
to that of its tag. -/
theorem Thread.owner_eq_some_iff {thread : Thread} {id : ScopeId} :
    thread.owner = some id ↔
      thread.scope = some id ∨ thread.scope = none ∧ thread.workerTag = some id := by
  unfold Thread.owner
  cases thread.scope <;> simp

namespace Scopes

variable {s : Scopes}

/-- A scope is open exactly if there is a slot for it, with a record or
without. -/
theorem mem_slots_iff {id : ScopeId} : id ∈ s.slots ↔ ∃ slot, s.slots[id]? = some slot := by
  rw [Std.TreeMap.mem_iff_isSome_getElem?, Option.isSome_iff_exists]

/-- Writing to one slot leaves the others as they are. -/
theorem getElem?_insert_slot (slots : Std.TreeMap ScopeId (Option Record)) (id other : ScopeId)
    (slot : Option Record) :
    (slots.insert id slot)[other]? = if other = id then some slot else slots[other]? := by
  rw [Std.TreeMap.getElem?_insert]
  simp only [Nat.compare_eq_eq, @eq_comm _ id]

/-! ## Opening and closing -/

/-- A scope is opened with an empty slot, and what the other scopes have
stays. -/
theorem slot_enter (thread : Thread) (id : ScopeId) :
    (s.enter thread).2.2.slots[id]? = if id = s.next then some none else s.slots[id]? :=
  getElem?_insert_slot _ _ _ _

/-- Opening a scope makes one more that is open, and it is none of the old ones
as long as ids go up. -/
theorem mem_slots_enter (thread : Thread) {id : ScopeId} :
    id ∈ (s.enter thread).2.2.slots ↔ id = s.next ∨ id ∈ s.slots := by
  show id ∈ s.slots.insert s.next none ↔ _
  rw [Std.TreeMap.mem_insert, Nat.compare_eq_eq, @eq_comm _ s.next]

/-- Closing a scope takes its slot away, record and all, and no other. -/
theorem slot_leave (thread : Thread) (guard : Guard) (id : ScopeId) :
    (s.leave thread guard).2.slots[id]? = if id = guard.id then none else s.slots[id]? := by
  show (s.slots.erase guard.id)[id]? = _
  rw [Std.TreeMap.getElem?_erase]
  simp only [Nat.compare_eq_eq, @eq_comm _ guard.id]

/-- Closing a scope leaves all others open. -/
theorem mem_slots_leave (thread : Thread) {guard : Guard} {id : ScopeId} :
    id ∈ (s.leave thread guard).2.slots ↔ id ≠ guard.id ∧ id ∈ s.slots := by
  show id ∈ s.slots.erase guard.id ↔ _
  rw [Std.TreeMap.mem_erase, Ne, Nat.compare_eq_eq, @eq_comm _ guard.id]

/-! ## Panics -/

/-- A panic has a slot to go to if its thread belongs to a scope that is still
open. -/
theorem ownerSlot?_eq_some_iff {thread : Thread} {id : ScopeId} :
    s.ownerSlot? thread = some id ↔ thread.owner = some id ∧ id ∈ s.slots := by
  rw [ownerSlot?, Option.filter_eq_some_iff, Std.TreeMap.contains_iff_mem]

/-- A panic is recorded in the slot of the scope that its thread belongs to,
over what was recorded there before, and in no other slot. If that scope is
closed by now, or the thread belongs to none, it is forwarded and no slot
changes. -/
theorem slot_raise (thread : Thread) (payload : Payload) (id : ScopeId) :
    (s.raise thread payload).slots[id]? =
      if thread.owner = some id ∧ id ∈ s.slots then some (some ⟨payload.message, s.raises⟩)
      else s.slots[id]? := by
  simp only [← ownerSlot?_eq_some_iff]
  unfold raise
  cases s.ownerSlot? thread with
  | none => rfl
  | some owner =>
    show (s.slots.insert owner _)[id]? = _
    rw [getElem?_insert_slot]
    simp only [Option.some.injEq, @eq_comm _ owner]

/-- A panic opens no scope and closes none. -/
theorem mem_slots_raise {thread : Thread} {payload : Payload} {id : ScopeId} :
    id ∈ (s.raise thread payload).slots ↔ id ∈ s.slots := by
  rw [mem_slots_iff, slot_raise]
  by_cases howner : thread.owner = some id ∧ id ∈ s.slots
  · rw [if_pos howner]
    exact ⟨fun _ => howner.2, fun _ => ⟨_, rfl⟩⟩
  · rw [if_neg howner, mem_slots_iff]

@[simp]
theorem next_raise (thread : Thread) (payload : Payload) :
    (s.raise thread payload).next = s.next := by
  unfold raise
  split <;> rfl

/-- Panics are counted, whether or not they are recorded, and the count tells
the traces apart. -/
@[simp]
theorem raises_raise (thread : Thread) (payload : Payload) :
    (s.raise thread payload).raises = s.raises + 1 := by
  unfold raise
  split <;> rfl

/-! ## Traces -/

/-- A trace is taken where there is a record with the same message. The message
is all that is looked at: a record of another panic with these words is taken as
well. -/
theorem takeTrace_eq_some_iff {id : ScopeId} {message : String} {trace : Nat} :
    (s.takeTrace id message).1 = some trace ↔
      ∃ record, s.slots[id]? = some (some record) ∧ record.message = message ∧
        record.trace = trace := by
  unfold takeTrace
  cases hslot : s.slots[id]? with
  | none => simp
  | some slot => simp [and_assoc]

/-- Taking a trace empties the slot, whether there was a record with the message
or one with another; the slots of other scopes stay. A slot that is not there is
not made, so afterwards the same scopes are open as before. -/
theorem slot_takeTrace (id : ScopeId) (message : String) (other : ScopeId) :
    (s.takeTrace id message).2.slots[other]? =
      if other = id ∧ id ∈ s.slots then some none else s.slots[other]? := by
  unfold takeTrace
  -- there is a slot to be emptied, or nothing happens
  cases hslot : s.slots[id]? with
  | none =>
    have hclosed : ¬id ∈ s.slots := fun hmem => by
      obtain ⟨slot, hsome⟩ := mem_slots_iff.1 hmem
      rw [hslot] at hsome
      cases hsome
    rw [if_neg fun h => hclosed h.2]
  | some slot =>
    show (s.slots.insert id none)[other]? = _
    rw [getElem?_insert_slot]
    simp only [mem_slots_iff.2 ⟨slot, hslot⟩, and_true]

/-- The scope stays open. -/
theorem mem_slots_takeTrace {id other : ScopeId} {message : String} :
    other ∈ (s.takeTrace id message).2.slots ↔ other ∈ s.slots := by
  rw [mem_slots_iff, slot_takeTrace]
  by_cases hid : other = id ∧ id ∈ s.slots
  · rw [if_pos hid]
    exact ⟨fun _ => hid.1 ▸ hid.2, fun _ => ⟨_, rfl⟩⟩
  · rw [if_neg hid, mem_slots_iff]

@[simp]
theorem next_takeTrace (id : ScopeId) (message : String) :
    (s.takeTrace id message).2.next = s.next := by
  unfold takeTrace
  split <;> rfl

/-- Taking a trace is not a panic. -/
@[simp]
theorem raises_takeTrace (id : ScopeId) (message : String) :
    (s.takeTrace id message).2.raises = s.raises := by
  unfold takeTrace
  split <;> rfl

/-! ## Records

Only a panic makes a record, so what is in a slot after another step was there
before. -/

variable {id : ScopeId} {record : Record}

/-- Opening a scope makes no records: one that is there was there before. -/
theorem record_of_enter (thread : Thread)
    (h : (s.enter thread).2.2.slots[id]? = some (some record)) :
    s.slots[id]? = some (some record) := by
  rw [slot_enter] at h
  split at h
  · cases h
  · exact h

/-- Taking a trace makes no records. -/
theorem record_of_takeTrace {other : ScopeId} {message : String}
    (h : (s.takeTrace other message).2.slots[id]? = some (some record)) :
    s.slots[id]? = some (some record) := by
  rw [slot_takeTrace] at h
  split at h
  · cases h
  · exact h

/-- Closing a scope makes no records. -/
theorem record_of_leave (thread : Thread) {guard : Guard}
    (h : (s.leave thread guard).2.slots[id]? = some (some record)) :
    s.slots[id]? = some (some record) := by
  rw [slot_leave] at h
  split at h
  · cases h
  · exact h

end Scopes

end GraphMeasures.Containment
