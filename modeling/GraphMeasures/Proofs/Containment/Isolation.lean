import Mathlib.Data.List.Nodup
import GraphMeasures.Proofs.Containment.Threads
import GraphMeasures.Run.Lemmas

/-!
# GraphMeasures — scopes of different threads do not mix

What a thread finds in the slot of its scope depends on the panics that belong to
the scope, and on nothing that other threads do in theirs.

* `Latest` — a slot has the record of the last panic that belongs to its scope.
* `Kept.reaches` — this holds of a scope from its opening until its trace is taken, in
  whatever order the threads take their steps.
* `scopes_isolated` — the state of the scopes in every order of steps, and the
  fault that the only panic of a scope becomes.
-/

namespace GraphMeasures.Containment.System

variable {s s' e : System} {id : ScopeId} {first : Nat} {raised : List (Thread × Payload)}

/-! ## The last record of a scope -/

/-- The panic with some number belongs to the scope. -/
def BelongsTo (raised : List (Thread × Payload)) (id : ScopeId) (number : Nat) : Prop :=
  ∃ thread payload, raised[number]? = some (thread, payload) ∧ thread.owner = some id

/-- The slot has the record of the last panic that belongs to the scope, of those
from `first` on. -/
def Latest (raised : List (Thread × Payload)) (id : ScopeId) (first : Nat) : Option Record → Prop
  | none => ∀ number, first ≤ number → ¬BelongsTo raised id number
  | some record => first ≤ record.trace ∧ MadeIn raised id record ∧
      ∀ number, record.trace < number → ¬BelongsTo raised id number

/-- When one more panic is raised, a panic that belongs to a scope is one of the
earlier ones or the last one; the last one has the number of panics before
it. -/
theorem belongsTo_concat {thread : Thread} {payload : Payload} {number : Nat}
    (h : BelongsTo (raised ++ [(thread, payload)]) id number) :
    BelongsTo raised id number ∨ number = raised.length ∧ thread.owner = some id := by
  obtain ⟨raiser, message, hraised, howner⟩ := h
  rcases Nat.lt_trichotomy number raised.length with hlt | heq | hgt
  · rw [List.getElem?_append_left hlt] at hraised
    exact Or.inl ⟨raiser, message, hraised, howner⟩
  · rw [heq, List.getElem?_concat_length] at hraised
    obtain ⟨rfl, rfl⟩ := Prod.mk.inj (Option.some.inj hraised)
    exact Or.inr ⟨heq, howner⟩
  · rw [List.getElem?_eq_none (by rw [List.length_append, List.length_singleton]; omega)] at hraised
    cases hraised

/-- A panic that belongs elsewhere does not count: the latest of the scope's own
panics is the same as before, whatever the text of the other one. -/
theorem Latest.concat_of_ne {slot : Option Record} {thread : Thread} {payload : Payload}
    (h : Latest raised id first slot) (hne : thread.owner ≠ some id) :
    Latest (raised ++ [(thread, payload)]) id first slot := by
  -- nothing new belongs to the scope
  have hold : ∀ number, BelongsTo (raised ++ [(thread, payload)]) id number →
      BelongsTo raised id number := fun number hnumber =>
    (belongsTo_concat hnumber).resolve_right fun hnew => hne hnew.2
  cases slot with
  | none => exact fun number hfirst hnumber => h number hfirst (hold number hnumber)
  | some record =>
    obtain ⟨hfirst, hmade, hlast⟩ := h
    exact ⟨hfirst, hmade.append _, fun number hlt hnumber => hlast number hlt (hold number hnumber)⟩

/-- A panic that belongs to the scope is the latest one from then on, with its
own text and the number that it was raised under. -/
theorem latest_concat (thread : Thread) (payload : Payload) (hfirst : first ≤ raised.length)
    (howner : thread.owner = some id) :
    Latest (raised ++ [(thread, payload)]) id first (some ⟨payload.message, raised.length⟩) := by
  refine ⟨hfirst, ⟨thread, payload, List.getElem?_concat_length, howner, rfl⟩,
    fun number hlt h => ?_⟩
  obtain ⟨raiser, message, hraised, -⟩ := h
  have hlength := (List.getElem?_eq_some_iff.1 hraised).1
  rw [List.length_append, List.length_singleton] at hlength
  have hlt : raised.length < number := hlt
  omega

/-- Where only one panic belongs to the scope, the record is the one of that
panic. The latest of the scope's own panics can be no other, and there is a
latest one, because this one was raised. -/
theorem Latest.eq_of_single {slot : Option Record} {thread : Thread} {payload : Payload}
    {number : Nat} (h : Latest raised id first slot) (hfirst : first ≤ number)
    (hraised : raised[number]? = some (thread, payload)) (howner : thread.owner = some id)
    (hsingle : ∀ other, first ≤ other → BelongsTo raised id other → other = number) :
    slot = some ⟨payload.message, number⟩ := by
  cases slot with
  | none => exact absurd ⟨thread, payload, hraised, howner⟩ (h number hfirst)
  | some record =>
    obtain ⟨hfrom, ⟨raiser, raisedPayload, hrecord, hbelongs, hmessage⟩, -⟩ := h
    have hnumber : record.trace = number :=
      hsingle record.trace hfrom ⟨raiser, raisedPayload, hrecord, hbelongs⟩
    rw [hnumber, hraised] at hrecord
    obtain ⟨-, rfl⟩ := Prod.mk.inj (Option.some.inj hrecord)
    rw [← hmessage, ← hnumber]

/-! ## From the opening of a scope to the taking of its trace -/

/-- The thread has the scope open, and its trace was not taken yet. -/
def Pending (s : System) (t : Nat) (guard : Guard) : Prop :=
  guard ∈ (s.callers t).guards ∧
    ((s.callers t).closing = true → (s.callers t).guards.head? ≠ some guard)

/-- The slot of a scope has the last record of those made since the scope was
opened. -/
def Kept (s : System) (id : ScopeId) (first : Nat) : Prop :=
  id ∈ s.opened ∧ first ≤ s.raised.length ∧
    ∃ slot, s.scopes.slots[id]? = some slot ∧ Latest s.raised id first slot

/-- The slot of a scope that was just opened has the last record made since,
which is none. -/
theorem kept_enter (s : System) (t : Nat) :
    Kept (s.enter t) s.scopes.next s.raised.length := by
  refine ⟨List.mem_append_right _ (List.mem_singleton_self _), Nat.le_refl _, none, ?_, ?_⟩
  · rw [Consistent.slot_enter, if_pos rfl]
  · rintro number hfirst ⟨thread, payload, hraised, -⟩
    have hlt := (List.getElem?_eq_some_iff.1 hraised).1
    exact absurd hlt (Nat.not_lt_of_le hfirst)

/-- A step that leaves the slot as it is, and raises no panic, leaves the last
record. -/
theorem Kept.of_slot_eq (h : Kept s id first) (hopened : id ∈ s'.opened)
    (hraised : s'.raised = s.raised) (hslot : s'.scopes.slots[id]? = s.scopes.slots[id]?) :
    Kept s' id first := by
  obtain ⟨-, hfirst, slot, hsome, hlatest⟩ := h
  exact ⟨hopened, hraised ▸ hfirst, slot, hslot.trans hsome, hraised ▸ hlatest⟩

variable {t : Nat} {guard : Guard}

/-- Only the thread itself takes a trace out of a scope that it has open.
Another thread has no guard with this number, and the thread itself would be
closing the scope. -/
theorem Pending.ne_of_takeTrace (h : s.Consistent) {u : Nat} {other : Guard} {rest : List Guard}
    {message : String} (hguards : (s.callers u).guards = other :: rest)
    (hpending : Pending (s.takeTrace u other message) t guard) : guard.id ≠ other.id := by
  intro heq
  obtain ⟨hguard, hclosing⟩ := hpending
  rw [Consistent.guards_takeTrace] at hguard hclosing
  have hother : other ∈ (s.callers u).guards := by
    rw [hguards]
    exact List.mem_cons_self
  -- the number of a guard tells which thread holds it, so it would be the closing one
  obtain rfl := h.single t u guard hguard other hother heq
  have hsame : guard = other := List.inj_on_of_nodup_map (h.once t) hguard hother heq
  refine hclosing ?_ ?_
  · simp [System.takeTrace]
  · rw [hguards, hsame]
    rfl

/-- Whether a thread has a scope open and pending is a matter of that thread
alone. -/
theorem Pending.of_same_caller (hpending : Pending s' t guard) (h : s'.callers t = s.callers t) :
    Pending s t guard := by
  unfold Pending at hpending ⊢
  rwa [h] at hpending

/-- A guard that is pending after a step and was opened before was pending
before the step as well. Steps open scopes with new numbers only, and close the
guard on top. -/
theorem Pending.of_step (h : s.Consistent) (hopened : guard.id ∈ s.opened) (hstep : Step s s')
    (hpending : Pending s' t guard) : Pending s t guard := by
  cases hstep with
  | enter u hgo =>
    by_cases hu : t = u
    · subst hu
      refine ⟨?_, fun hclosing => absurd (hgo.symm.trans hclosing) (by decide)⟩
      -- the scope just opened is another one
      rcases Consistent.mem_guards_enter.1 hpending.1 with ⟨-, hnew⟩ | hguard
      · rw [hnew] at hopened
        exact absurd (h.fresh _ hopened) (Nat.lt_irrefl _)
      · exact hguard
    · exact hpending.of_same_caller (Function.update_of_ne hu _ _)
  | raise u payload => exact hpending
  | takeTrace u other rest message hguards hgo =>
    by_cases hu : t = u
    · subst hu
      refine ⟨?_, fun hclosing => absurd (hgo.symm.trans hclosing) (by decide)⟩
      exact Consistent.guards_takeTrace s t other message t ▸ hpending.1
    · exact hpending.of_same_caller (Function.update_of_ne hu _ _)
  | leave u other rest hguards =>
    by_cases hu : t = u
    · subst hu
      obtain ⟨hguard, hne⟩ := (h.mem_guards_leave hguards).1 hpending.1
      refine ⟨hguard, fun _ hhead => ?_⟩
      -- the innermost scope of the thread is the one that is closed
      rw [hguards] at hhead
      exact hne (congrArg Guard.id (Option.some.inj hhead)).symm
    · exact hpending.of_same_caller (Function.update_of_ne hu _ _)

/-- Whoever takes a step, the slot has the last record after it, if its scope is
still open and its trace was not taken. The cases are the steps: other scopes
are opened, closed and emptied without touching the slot, and a panic comes to
it exactly if it belongs to the scope. -/
theorem Kept.step (h : s.Consistent) (hkept : Kept s guard.id first) (hstep : Step s s')
    (hpending : Pending s' t guard) : Kept s' guard.id first := by
  -- only a raise and the steps at the scope itself could change its record
  cases hstep with
  | enter u hgo =>
    refine hkept.of_slot_eq (List.mem_append_left _ hkept.1) rfl ?_
    rw [Consistent.slot_enter, if_neg (Nat.ne_of_lt (h.fresh _ hkept.1))]
  | raise u payload =>
    obtain ⟨hopened, hfirst, slot, hslot, hlatest⟩ := hkept
    have hlength : first ≤ (s.raise u payload).raised.length := by
      show first ≤ (s.raised ++ [_]).length
      rw [List.length_append]
      omega
    refine ⟨hopened, hlength, ?_⟩
    rw [Consistent.slot_raise]
    by_cases howner : (s.callers u).thread.owner = some guard.id
    · -- the panic belongs to the scope, so its record takes the place of the one before
      rw [if_pos ⟨howner, Scopes.mem_slots_iff.2 ⟨slot, hslot⟩⟩]
      refine ⟨_, rfl, ?_⟩
      rw [h.numbered]
      exact latest_concat _ payload hfirst howner
    · rw [if_neg fun hboth => howner hboth.1]
      exact ⟨slot, hslot, hlatest.concat_of_ne howner⟩
  | takeTrace u other rest message hguards hgo =>
    refine hkept.of_slot_eq hkept.1 rfl ?_
    have hne := hpending.ne_of_takeTrace h hguards
    rw [Consistent.slot_takeTrace, if_neg fun hboth => hne hboth.1]
  | leave u other rest hguards =>
    refine hkept.of_slot_eq hkept.1 rfl ?_
    have hne := ((h.mem_guards_leave hguards).1 hpending.1).2
    rw [Consistent.slot_leave, if_neg hne]

/-- Scopes that were opened stay in the list of those that ever were, so that a
number is never given out again. -/
theorem opened_subset (hreach : Reaches s e) : s.opened ⊆ e.opened := by
  induction hreach with
  | refl => exact List.Subset.refl _
  | tail _ hstep ih =>
    cases hstep with
    | enter t _ => exact fun id hid => List.mem_append_left _ (ih hid)
    | raise t payload => exact ih
    | takeTrace t guard rest message _ _ => exact ih
    | leave t guard rest _ => exact ih

/-- A scope's slot has the last record made since the scope was opened. The
induction is on the steps, from their end: what is pending then was pending at
every step before. -/
theorem Kept.reaches (h : s.Consistent) (hkept : Kept s guard.id first) (hreach : Reaches s e)
    (hpending : Pending e t guard) : Kept e guard.id first := by
  -- a scope that is pending in the end was pending all the way, so each step keeps the slot
  induction hreach with
  | refl => exact hkept
  | tail hbefore hstep ih =>
    have hconsistent := h.reaches hbefore
    have hopened := opened_subset hbefore hkept.1
    exact (ih (hpending.of_step hconsistent hopened hstep)).step hconsistent hstep hpending

/-! ## Contained runs on a thread -/

variable {σ α : Type}

/-- A run is contained on a thread. It starts in the state `s`, and when its body
has ended the state is `e`: between them the threads take any steps, and the
thread closes what it has opened inside. -/
structure Spans (s e : System) (t : Nat) (stage after : Stage σ) : Prop where
  scopes : stage.scene.scopes = s.scopes
  thread : stage.scene.thread = (s.callers t).thread
  reaches : Reaches (s.enter t) e
  guards : (e.callers t).guards = ((s.enter t).callers t).guards
  going : (e.callers t).closing = false
  scopesAfter : after.scene.scopes = e.scopes

/-- Of the panics raised since the state `s` one belongs to the scope. -/
structure OnlyRaise (s e : System) (id : ScopeId) (number : Nat) (payload : Payload) : Prop where
  since : s.raised.length ≤ number
  raised : ∃ thread, e.raised[number]? = some (thread, payload) ∧ thread.owner = some id
  only : ∀ other, s.raised.length ≤ other → BelongsTo e.raised id other → other = number

/-- The only panic that belongs to the scope of a contained run becomes a fault
with its own trace. What other threads have raised in the meantime has gone to
the slots of their own scopes, even if it bears the same text. -/
theorem contain_of_onlyRaise (h : s.Consistent) (operation : String)
    {body : Run σ OperationError α} {stage after : Stage σ} {t number : Nat} {payload : Payload}
    (hspans : Spans s e t stage after)
    (hbody : body.on (Run.opened stage) = (.error (.panic payload), after))
    (honly : OnlyRaise s e s.scopes.next number payload) :
    ((Run.contain operation body).on stage).1 =
      .error (.error (.fault operation payload.message (.captured number))) := by
  have hpending : Pending e t ⟨s.scopes.next, (s.callers t).thread.scope⟩ := by
    refine ⟨?_, fun hclosing => absurd (hspans.going.symm.trans hclosing) (by decide)⟩
    rw [hspans.guards]
    exact Consistent.mem_guards_enter.2 (Or.inl ⟨rfl, rfl⟩)
  obtain ⟨-, -, slot, hslot, hlatest⟩ :=
    (kept_enter s t).reaches (h.enter t) hspans.reaches hpending
  -- the slot has the record of that panic, so the messages agree
  obtain ⟨thread, hraised, howner⟩ := honly.raised
  obtain rfl := hlatest.eq_of_single honly.since hraised howner honly.only
  have htrace : (e.scopes.takeTrace s.scopes.next payload.message).1 = some number :=
    Scopes.takeTrace_eq_some_iff.2 ⟨_, hslot, rfl, rfl⟩
  rw [Run.on_contain_of_panic operation hbody, hspans.scopes, hspans.scopesAfter, htrace]
  rfl

/-- **Scopes of different threads do not mix.** In whatever order threads with any
tags take their steps: the slots that there are belong to the scopes that are open;
ids are never given twice; the present scope of a thread is the innermost one that
it has open, so it is the same again when the same scopes are open again, and after
every contained run; and a record was made by a panic of a thread that was in the
scope, or that was in none and worked for it. So the only panic that belongs to
the scope of a contained run, and that the run ends with, becomes a fault with its
own trace, whatever else is going on. -/
theorem scopes_isolated (tags : Nat → Option ScopeId) (s : System)
    (hreach : Reaches (initial tags) s) :
    (∀ id, id ∈ s.scopes.slots ↔ ∃ t, ∃ guard ∈ (s.callers t).guards, guard.id = id) ∧
    (s.opened.Nodup ∧ (∀ t, ∀ guard ∈ (s.callers t).guards, guard.id ∈ s.opened) ∧
      ∀ t u, ∀ guard ∈ (s.callers t).guards, ∀ other ∈ (s.callers u).guards,
        guard.id = other.id → t = u ∧ guard = other) ∧
    (∀ t, (s.callers t).thread.scope = (s.callers t).guards.head?.map (·.id)) ∧
    (∀ t e, Reaches s e → (e.callers t).guards = (s.callers t).guards →
      (e.callers t).thread.scope = (s.callers t).thread.scope) ∧
    (∀ (σ α : Type) (operation : String) (body : Run σ OperationError α) (stage : Stage σ),
      ((Run.contain operation body).on stage).2.scene.thread.scope = stage.scene.thread.scope) ∧
    (∀ (id : ScopeId) (record : Record), s.scopes.slots[id]? = some (some record) →
      ∃ thread payload, s.raised[record.trace]? = some (thread, payload) ∧
        record.message = payload.message ∧
        (thread.scope = some id ∨ thread.scope = none ∧ thread.workerTag = some id)) ∧
    ∀ (σ α : Type) (operation : String) (body : Run σ OperationError α) (stage after : Stage σ)
      (t : Nat) (e : System) (number : Nat) (payload : Payload), Spans s e t stage after →
      body.on (Run.opened stage) = (.error (.panic payload), after) →
      OnlyRaise s e s.scopes.next number payload →
      ((Run.contain operation body).on stage).1 =
        .error (.error (.fault operation payload.message (.captured number))) := by
  have h := (consistent_initial tags).reaches hreach
  -- the scope of a thread is that of the guard on top
  have hscope : ∀ {x : System}, x.Consistent → ∀ t, (x.callers t).thread.scope =
      (x.callers t).guards.head?.map (·.id) := fun hx t => (hx.nested t).scope_eq
  refine ⟨h.slots, ⟨h.distinct, h.guarded, ?_⟩, hscope h, fun t e hon hguards => ?_, ?_, ?_, ?_⟩
  · intro t u guard hguard other hother heq
    obtain rfl := h.single t u guard hguard other hother heq
    exact ⟨rfl, List.inj_on_of_nodup_map (h.once t) hguard hother heq⟩
  · rw [hscope (h.reaches hon), hscope h, hguards]
  · exact fun σ α operation body stage => Run.scope_contain operation body stage
  · intro id record hrecord
    obtain ⟨thread, payload, hraised, howner, hmessage⟩ := h.recorded id record hrecord
    exact ⟨thread, payload, hraised, hmessage, Thread.owner_eq_some_iff.1 howner⟩
  · exact fun σ α operation body stage after t e number payload hspans hbody honly =>
      contain_of_onlyRaise h operation hspans hbody honly

/-- While the thread 0 is in its scope 2, its worker panics, and so does the thread
2 in its scope 1, with the same message. The worker's trace is the one with
number 1. -/
theorem scopes_isolated_worker :
    let tags : Nat → Option ScopeId := fun t => if t = 1 then some 2 else none
    let s := (initial tags).enter 2
    let e := (((s.enter 0).raise 2 (.text "boom")).raise 1 (.text "boom")).takeTrace 2
      ⟨1, none⟩ "boom"
    let body : Run Unit OperationError Unit := do
      Run.modifyScene fun scene => { scene with scopes := e.scopes }
      Run.unwind (.text "boom")
    let stage : Stage Unit := ⟨⟨.plain, s.scopes, default, default⟩, ()⟩
    Reaches (initial tags) s ∧
      ((Run.contain "work" body).on stage).1 =
        .error (.error (.fault "work" "boom" (.captured 1))) := by
  intro tags s e body stage
  have hreach : Reaches (initial tags) s := .single (.enter 2 rfl)
  have hspans : Spans s e 0 stage ⟨{ (Run.opened stage).scene with scopes := e.scopes }, ()⟩ := by
    refine ⟨rfl, rfl, ?_, rfl, rfl, rfl⟩
    have hother : Reaches (s.enter 0) ((s.enter 0).raise 2 (.text "boom")) :=
      .single (.raise 2 (.text "boom"))
    have hworker := hother.tail (.raise 1 (.text "boom"))
    exact hworker.tail (.takeTrace 2 ⟨1, none⟩ [] "boom" rfl rfl)
  -- both panics have the same text, but only the worker's is one of the scope's
  have honly : OnlyRaise s e s.scopes.next 1 (.text "boom") := by
    have hraised : e.raised =
        [(⟨some 1, none⟩, .text "boom"), (⟨none, some 2⟩, .text "boom")] := rfl
    refine ⟨Nat.zero_le _, ⟨_, rfl, rfl⟩, ?_⟩
    rintro other - ⟨thread, payload, hother, howner⟩
    rw [hraised] at hother
    match other with
    | 0 =>
      obtain ⟨rfl, -⟩ := Prod.mk.inj (Option.some.inj hother)
      exact absurd howner (by decide)
    | 1 => rfl
    | other + 2 => cases hother
  obtain ⟨-, -, -, -, -, -, hfault⟩ := scopes_isolated tags s hreach
  exact ⟨hreach, hfault Unit Unit "work" body stage _ 0 e 1 (.text "boom") hspans rfl honly⟩

end GraphMeasures.Containment.System
