import Mathlib.Data.List.Induction
import GraphMeasures.Run.Lemmas

/-!
# GraphMeasures — how computations end

`Ends post bad x` says that `x` is a value with the property `post` or an error
with the property `bad`, and `Run.Keeps` says the same of a run, on whatever
stage it is started: its own state keeps an invariant, and it does not end with
a panic. There is one rule for every operation from which computations are put
together, so what is known of the parts is known of the whole.

A walk along a list that stops at the first fault ends with the error of the first
position that is at fault (`foldlM_earliest`).
-/

namespace GraphMeasures

variable {ε ε' α β : Type}

/-! ## Outcomes -/

/-- Of two computations one after the other both have to end with a value, and
the second starts from the value of the first. -/
theorem bind_eq_ok_iff {x : Except ε α} {f : α → Except ε β} {b : β} :
    x >>= f = .ok b ↔ ∃ a, x = .ok a ∧ f a = .ok b := by
  cases x with
  | error e => simp [bind, Except.bind]
  | ok a => simp [bind, Except.bind]

/-- Wording errors anew does not make a value of an error, nor the other way
round. -/
theorem mapError_eq_ok_iff {x : Except ε α} {wrap : ε → ε'} {a : α} :
    x.mapError wrap = .ok a ↔ x = .ok a := by
  cases x with
  | error e =>
    constructor
    · intro h
      cases h
    · intro h
      cases h
  | ok b =>
    constructor
    · intro h
      rw [Except.ok.inj h]
    · intro h
      rw [Except.ok.inj h]
      rfl

/-- An outcome is a value exactly if this value is left when errors are
forgotten. -/
theorem toOption_eq_some_iff {x : Except ε α} {a : α} : x.toOption = some a ↔ x = .ok a := by
  cases x with
  | error e => simp [Except.toOption]
  | ok b => simp [Except.toOption]

/-- An outcome that is known to be a value is that of some value. -/
theorem exists_ok_of_isOk {x : Except ε α} (h : x.isOk = true) : ∃ a, x = .ok a := by
  cases x with
  | error e => exact absurd h Bool.false_ne_true
  | ok a => exact ⟨a, rfl⟩

/-- Ends with a value that has one property or an error that has another. -/
def Ends (post : α → Prop) (bad : ε → Prop) : Except ε α → Prop
  | .ok a => post a
  | .error e => bad e

/-- No error has this property. -/
def Never (_ : ε) : Prop :=
  False

namespace Ends

variable {post post' : α → Prop} {next : β → Prop} {bad bad' : ε → Prop} {x : Except ε α}

/-- Less may be said of the values and more be allowed of the errors. -/
theorem mono (h : Ends post bad x) (hpost : ∀ a, post a → post' a) (hbad : ∀ e, bad e → bad' e) :
    Ends post' bad' x := by
  cases x with
  | ok a => exact hpost a h
  | error e => exact hbad e h

/-- Two computations end well if the first does, and the second does for each
value that the first can come to. Errors of both are of the same kind. -/
theorem bind {f : α → Except ε β} (h : Ends post bad x) (hf : ∀ a, post a → Ends next bad (f a)) :
    Ends next bad (x >>= f) := by
  cases x with
  | ok a => exact hf a h
  | error e => exact h

/-- Errors that are worded anew are of a kind if their new words are. -/
theorem mapError {wrap : ε → ε'} {bad : ε' → Prop} (h : Ends post (fun e => bad (wrap e)) x) :
    Ends post bad (x.mapError wrap) := by
  cases x with
  | ok a => exact h
  | error e => exact h

/-- A loop keeps what each of its steps keeps: the invariant holds after the
loop if it does before, and an error of the loop is that of a step. -/
theorem foldlM {f : α → β → Except ε α} {xs : List β} {a : α} (h : post a)
    (hf : ∀ a, post a → ∀ b ∈ xs, Ends post bad (f a b)) : Ends post bad (xs.foldlM f a) := by
  induction xs generalizing a with
  | nil => exact h
  | cons b xs ih =>
    rw [List.foldlM_cons]
    refine (hf a h b List.mem_cons_self).bind fun a' ha' => ?_
    exact ih ha' fun a ha c hc => hf a ha c (List.mem_cons_of_mem _ hc)

/-- All values of a list have what each of them has, and an error is that of the
first element that fails, so it is one that a single element can have. -/
theorem mapM {f : β → Except ε α} {xs : List β} (hf : ∀ b ∈ xs, Ends post bad (f b)) :
    Ends (fun as => ∀ a ∈ as, post a) bad (xs.mapM f) := by
  induction xs with
  | nil =>
    rw [List.mapM_nil]
    exact fun a ha => absurd ha List.not_mem_nil
  | cons b xs ih =>
    rw [List.mapM_cons]
    refine (hf b List.mem_cons_self).bind fun a ha => ?_
    refine (ih fun c hc => hf c (List.mem_cons_of_mem _ hc)).bind fun as has => ?_
    intro c hc
    rcases List.mem_cons.1 hc with rfl | hc
    · exact ha
    · exact has c hc

end Ends

/-! ## The first fault -/

/-- The first position of a list where something is wrong, and what it is. -/
structure Earliest (xs : List β) (wrong : Nat → β → ε → Prop) (i : Nat) (e : ε) : Prop where
  before : ∀ j < i, ∀ x, xs[j]? = some x → ∀ cause, ¬ wrong j x cause
  found : ∃ x, xs[i]? = some x ∧ wrong i x e

/-- If only one thing can be wrong at a position, only one comes first. Of two
positions that are both said to be the first, neither can be before the
other. -/
theorem Earliest.unique {xs : List β} {wrong : Nat → β → ε → Prop} {i j : Nat} {e cause : ε}
    (hwrong : ∀ i x e cause, wrong i x e → wrong i x cause → e = cause)
    (h : Earliest xs wrong i e) (h' : Earliest xs wrong j cause) : e = cause := by
  obtain ⟨x, hx, he⟩ := h.found
  obtain ⟨y, hy, hcause⟩ := h'.found
  rcases Nat.lt_trichotomy i j with hlt | rfl | hlt
  · exact absurd he (h'.before i hlt x hx e)
  · obtain rfl := Option.some.inj (hx.symm.trans hy)
    exact hwrong i x e cause he hcause
  · exact absurd hcause (h.before j hlt y hy cause)

/-- A walk along a list that is told the positions, and at each of them fails
for what is wrong there or keeps an invariant. It fails for the first fault in
the list, and if there is none, it comes to the end and the invariant holds
there. So what is said of one step is enough to know of which row an error
speaks. -/
theorem foldlM_earliest {step : α → β × Nat → Except ε α} {xs : List β} {a : α}
    (good : Nat → α → Prop) (wrong : Nat → β → ε → Prop) (h : good 0 a)
    (hstep : ∀ i x a, xs[i]? = some x → good i a →
      (∃ e, wrong i x e ∧ step a (x, i) = .error e) ∨
        (∀ e, ¬ wrong i x e) ∧ ∃ next, step a (x, i) = .ok next ∧ good (i + 1) next) :
    (∃ i e, Earliest xs wrong i e ∧ xs.zipIdx.foldlM step a = .error e) ∨
      (∀ i x, xs[i]? = some x → ∀ e, ¬ wrong i x e) ∧
        ∃ last, xs.zipIdx.foldlM step a = .ok last ∧ good xs.length last := by
  -- from the end of the list, so that the positions in front stay what they are
  induction xs using List.reverseRecOn with
  | nil => exact Or.inr ⟨fun i x hx => absurd hx (by simp), a, rfl, h⟩
  | append_singleton xs x ih =>
    have hzip : (xs ++ [x]).zipIdx = xs.zipIdx ++ [(x, xs.length)] := by
      rw [List.zipIdx_append, Nat.zero_add]
      rfl
    have hfront : ∀ i y, xs[i]? = some y → (xs ++ [x])[i]? = some y := fun i y hy => by
      rw [List.getElem?_append_left (List.getElem?_eq_some_iff.1 hy).1, hy]
    rw [hzip, List.foldlM_append]
    rcases ih fun i y a hy => hstep i y a (hfront i y hy) with
      ⟨i, e, ⟨hbefore, y, hy, hwrong⟩, herror⟩ | ⟨hnone, mid, hmid, hgood⟩
    · refine Or.inl ⟨i, e, ⟨fun j hj z hz => ?_, y, hfront i y hy, hwrong⟩, ?_⟩
      · have hlt : j < xs.length := Nat.lt_trans hj (List.getElem?_eq_some_iff.1 hy).1
        exact hbefore j hj z (by rwa [List.getElem?_append_left hlt] at hz)
      · rw [herror]
        rfl
    · -- nothing is wrong in front of the last position
      have hbefore : ∀ j < xs.length, ∀ z, (xs ++ [x])[j]? = some z → ∀ e, ¬ wrong j z e :=
        fun j hj z hz => hnone j z (by rwa [List.getElem?_append_left hj] at hz)
      rw [hmid]
      rcases hstep xs.length x mid List.getElem?_concat_length hgood with
        ⟨e, hwrong, herror⟩ | ⟨hpassed, next, hnext, hnextGood⟩
      · refine Or.inl ⟨xs.length, e, ⟨hbefore, x, List.getElem?_concat_length, hwrong⟩, ?_⟩
        show (step mid (x, xs.length) >>= pure) = _
        rw [herror]
        rfl
      · rw [List.length_append, List.length_singleton]
        refine Or.inr ⟨fun i y hy => ?_, next, ?_, hnextGood⟩
        · have hi : i < xs.length + 1 := by simpa using (List.getElem?_eq_some_iff.1 hy).1
          rcases Nat.lt_or_eq_of_le (Nat.le_of_lt_succ hi) with hlt | rfl
          · exact hbefore i hlt y hy
          · obtain rfl := Option.some.inj (List.getElem?_concat_length.symm.trans hy)
            exact hpassed
        · show (step mid (x, xs.length) >>= pure) = _
          rw [hnext]
          rfl

/-! ## Runs -/

/-- The failure is an error with a property, and no panic. -/
def Failure.Is (good : ε → Prop) : Failure ε → Prop
  | .error e => good e
  | .panic _ => False

namespace Run

variable {σ : Type} {inv : σ → Prop} {post : α → Prop} {next : β → Prop} {good : ε → Prop}

/-- The run keeps an invariant of its own state, and ends with a value that has
one property or an error that has another. -/
def Keeps (inv : σ → Prop) (post : α → Prop) (good : ε → Prop) (run : Run σ ε α) : Prop :=
  ∀ stage : Stage σ, inv stage.own →
    inv (run.on stage).2.own ∧ Ends post (Failure.Is good) (run.on stage).1

/-- A value keeps everything. -/
theorem keeps_pure {a : α} (h : post a) : Keeps inv post good (pure a : Run σ ε α) := by
  intro stage hinv
  rw [on_pure]
  exact ⟨hinv, h⟩

theorem keeps_fail {e : ε} (h : good e) : Keeps inv post good (fail e : Run σ ε α) := by
  intro stage hinv
  rw [on_fail]
  exact ⟨hinv, h⟩

/-- Runs one after the other keep what both keep, and the second may rely on
what the first says of its value. -/
theorem Keeps.bind {run : Run σ ε α} {rest : α → Run σ ε β} (h : Keeps inv post good run)
    (hrest : ∀ a, post a → Keeps inv next good (rest a)) :
    Keeps inv next good (run >>= rest) := by
  intro stage hinv
  obtain ⟨hafter, hends⟩ := h stage hinv
  rw [on_bind]
  -- the rest starts on the stage that the first run leaves
  rcases hrun : run.on stage with ⟨outcome, after⟩
  rw [hrun] at hafter hends
  cases outcome with
  | ok a => exact hrest a hends after hafter
  | error failure => exact ⟨hafter, hends⟩

/-- Less may be said of the value and more be allowed of the errors. The
invariant is the same on both sides, because it is assumed of the stage as well
as shown of it. -/
theorem Keeps.mono {post' : α → Prop} {good' : ε → Prop} {run : Run σ ε α}
    (h : Keeps inv post good run) (hpost : ∀ a, post a → post' a) (hgood : ∀ e, good e → good' e) :
    Keeps inv post' good' run := by
  intro stage hinv
  obtain ⟨hafter, hends⟩ := h stage hinv
  refine ⟨hafter, hends.mono hpost fun failure hfailure => ?_⟩
  cases failure with
  | error e => exact hgood e hfailure
  | panic payload => exact hfailure

/-- A part that is no run has no say in the state. Its errors count as worded
anew. -/
theorem keeps_ofExcept {wrap : ε' → ε} {x : Except ε' α}
    (h : Ends post (fun e => good (wrap e)) x) : Keeps inv post good (ofExcept wrap x : Run σ ε α) := by
  cases x with
  | ok a => exact keeps_pure h
  | error e => exact keeps_fail h

/-- What has ended on another thread ends here in the same way. There is no
panic to be raised, since a kind of errors allows for none. -/
theorem keeps_ofOutcome {thread : Containment.Thread} {x : Except (Failure ε) α}
    (h : Ends post (Failure.Is good) x) : Keeps inv post good (ofOutcome thread x : Run σ ε α) := by
  cases x with
  | ok a => exact keeps_pure h
  | error failure =>
    cases failure with
    | error e => exact keeps_fail h
    | panic payload => exact h.elim

theorem keeps_scene : Keeps inv (fun _ => True) good (scene : Run σ ε Scene) := by
  intro stage hinv
  rw [on_scene]
  exact ⟨hinv, trivial⟩

/-- The scene is not part of what is kept, so it may be changed at will. -/
theorem keeps_modifyScene (f : Scene → Scene) :
    Keeps inv (fun _ => True) good (modifyScene f : Run σ ε Unit) := by
  intro stage hinv
  rw [on_modifyScene]
  exact ⟨hinv, trivial⟩

/-- What is written to the journal does not show in the state. -/
theorem keeps_modifyJournal (f : Journal → Journal) :
    Keeps inv (fun _ => True) good (modifyJournal f : Run σ ε Unit) :=
  keeps_modifyScene _

theorem keeps_log (level : Journal.Level) (message : String) (fields : Journal.Fields) :
    Keeps inv (fun _ => True) good (log level message fields : Run σ ε Unit) :=
  keeps_modifyJournal _

theorem keeps_record (name : String) (value : Journal.Value) :
    Keeps inv (fun _ => True) good (record name value : Run σ ε Unit) :=
  keeps_modifyJournal _

/-- A span keeps what its body keeps. -/
theorem Keeps.span [ToString ε] {name : String} {fields : Journal.Fields} {body : Run σ ε α}
    (h : Keeps inv post good body) : Keeps inv post good (span name fields body) := by
  intro stage hinv
  rw [on_span]
  exact h _ hinv

/-- Errors may be worded anew, if the new words are of the kind that is asked
for. -/
theorem Keeps.mapError {wrap : ε' → ε} {run : Run σ ε' α}
    (h : Keeps inv post (fun e => good (wrap e)) run) :
    Keeps inv post good (mapError wrap run) := by
  intro stage hinv
  obtain ⟨hafter, hends⟩ := h stage hinv
  rw [on_mapError]
  refine ⟨hafter, Ends.mapError (hends.mono (fun _ ha => ha) fun failure hfailure => ?_)⟩
  cases failure with
  | error e => exact hfailure
  | panic payload => exact hfailure

/-- A run without a state of its own leaves every state as it is. -/
theorem Keeps.lift {run : Run Unit ε α} (h : Keeps (fun _ => True) post good run) :
    Keeps inv post good (lift run : Run σ ε α) := by
  intro stage hinv
  rw [on_lift]
  exact ⟨hinv, (h _ trivial).2⟩

/-- An attempt succeeds, with an outcome that is one of those which the run may
have. -/
theorem Keeps.attempt {run : Run σ ε α} {good' : ε' → Prop} (h : Keeps inv post good run) :
    Keeps inv (Ends post (Failure.Is good)) good' (attempt run : Run σ ε' _) := by
  intro stage hinv
  rw [on_attempt]
  exact h stage hinv

/-- An outcome that was kept is resumed without changing the state. -/
theorem keeps_resume {outcome : Except (Failure ε) α} (h : Ends post (Failure.Is good) outcome) :
    Keeps inv post good (resume outcome : Run σ ε α) := by
  intro stage hinv
  rw [on_resume]
  exact ⟨hinv, h⟩

/-- Containment does not show when there is nothing to contain: a run that does
not panic ends as it would have ended on its own, and there is no fault among
its errors. -/
theorem Keeps.contain {good : OperationError → Prop} {operation : String}
    {body : Run σ OperationError α} (h : Keeps inv post good body) :
    Keeps inv post good (contain operation body) := by
  have hsettle : ∀ (outcome : Except (Failure OperationError) α) (trace : Option Nat),
      Ends post (Failure.Is good) outcome → Keeps inv post good (settle operation outcome trace) := by
    intro outcome trace houtcome
    cases outcome with
    | ok a => exact keeps_pure houtcome
    | error failure =>
      cases failure with
      | error e => exact (keeps_modifyJournal _).bind fun _ _ => keeps_fail houtcome
      | panic payload => exact houtcome.elim
  have hopen : Keeps inv (fun _ => True) good (openScope : Run σ OperationError Containment.Guard) :=
    keeps_scene.bind fun _ _ => (keeps_modifyScene _).bind fun _ _ => keeps_pure trivial
  have hclose : ∀ guard (outcome : Except (Failure OperationError) α),
      Keeps inv (fun _ => True) good (closeScope guard outcome : Run σ OperationError (Option Nat)) :=
    fun _ _ => keeps_scene.bind fun _ _ => (keeps_modifyScene _).bind fun _ _ => keeps_pure trivial
  -- no panic reaches the end of the scope
  refine hopen.bind fun guard _ => ?_
  refine h.attempt.bind fun outcome houtcome => ?_
  exact (hclose guard outcome).bind fun trace _ => hsettle outcome trace houtcome

end Run

end GraphMeasures
