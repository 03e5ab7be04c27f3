import Heterodyne.Count
import Heterodyne.Log
/-!
# Runs

A run computes a value, or stops, and in both cases leaves the events it has told so far. Whether
diagnostic events are told is asked of the reader of the log, at the start.

* `bind_log`: the log of a run that goes on is the log of its parts in order.
* `attempt_refused`, `attempt_faulted`: a refusal can be caught and a fault cannot.
-/

namespace Heterodyne

/-- Why a run stops. -/
inductive Stop (α : Type) where
  | refused (cause : Refusal α)
  | faulted (fault : Fault)

/-- What a run leaves. -/
structure Outcome (α β : Type) where
  result : Except (Stop α) β
  log : List (Event α)

/-- A computation with a log, given whether diagnostic events are told. -/
def Run (α β : Type) : Type := (diagnostics : Bool) → Outcome α β

namespace Run

variable {α β γ δ : Type}

/-- The run that has a value and tells nothing. -/
protected def pure (b : β) : Run α β := fun _ => ⟨.ok b, []⟩

/-- Goes on with the value of a run, and tells what the second run tells after the first. -/
protected def bind (run : Run α β) (next : β → Run α γ) : Run α γ := fun diagnostics =>
  match run diagnostics with
  | ⟨.error stop, log⟩ => ⟨.error stop, log⟩
  | ⟨.ok b, log⟩ =>
    let rest := next b diagnostics
    ⟨rest.result, log ++ rest.log⟩

instance : Monad (Run α) where
  pure := Run.pure
  bind := Run.bind

/-- A pure run tells nothing. -/
theorem pure_apply (b : β) (d : Bool) : (pure b : Run α β) d = ⟨.ok b, []⟩ := rfl

/-- A run that has a value goes on with it, and both logs are kept in order. -/
theorem bind_ok {run : Run α β} {d : Bool} {b : β} {log : List (Event α)}
    (h : run d = ⟨.ok b, log⟩) (next : β → Run α γ) :
    (run >>= next) d = ⟨(next b d).result, log ++ (next b d).log⟩ := by
  show Run.bind run next d = _
  simp [Run.bind, h]

/-- A run that stops does not go on. -/
theorem bind_error {run : Run α β} {d : Bool} {stop : Stop α} {log : List (Event α)}
    (h : run d = ⟨.error stop, log⟩) (next : β → Run α γ) :
    (run >>= next) d = ⟨.error stop, log⟩ := by
  show Run.bind run next d = _
  simp [Run.bind, h]

/-- The log of a run that goes on is the log of its parts in order. -/
theorem bind_log {run : Run α β} {d : Bool} {b : β} (h : (run d).result = .ok b)
    (next : β → Run α γ) : ((run >>= next) d).log = (run d).log ++ (next b d).log := by
  rw [bind_ok (show run d = ⟨.ok b, (run d).log⟩ by rw [← h])]

/-- Going on with nothing changes nothing. -/
theorem id_map_apply (run : Run α β) (d : Bool) : Run.bind run Run.pure d = run d := by
  cases h : run d with
  | mk result log => cases result <;> simp [Run.bind, Run.pure, h]

/-- Going on from a pure run is to go on from its value. -/
theorem pure_bind_apply (b : β) (next : β → Run α γ) (d : Bool) :
    Run.bind (Run.pure b) next d = next b d := by
  simp [Run.bind, Run.pure]

/-- Three runs in a row need no brackets. -/
theorem bind_assoc_apply (run : Run α β) (next : β → Run α γ) (last : γ → Run α δ) (d : Bool) :
    Run.bind (Run.bind run next) last d = Run.bind run (fun b => Run.bind (next b) last) d := by
  cases h : run d with
  | mk result log =>
    cases result with
    | error stop => simp [Run.bind, h]
    | ok b =>
      cases h' : next b d with
      | mk result' log' => cases result' <;> simp [Run.bind, h, h']

instance : LawfulMonad (Run α) :=
  LawfulMonad.mk' (Run α)
    (fun run => funext (id_map_apply run))
    (fun b next => funext (pure_bind_apply b next))
    (fun run next last => funext (bind_assoc_apply run next last))

/-! ## Stopping and telling -/

/-- Stops for a cause. -/
def refuse (cause : Refusal α) : Run α β := fun _ => ⟨.error (.refused cause), []⟩

/-- The value of a check that may refuse. -/
def ofCheck : Except (Refusal α) β → Run α β
  | .ok b => pure b
  | .error cause => refuse cause

/-- The value of checked arithmetic on counts. -/
def ofCount : Except Fault β → Run α β
  | .ok b => pure b
  | .error fault => fun _ => ⟨.error (.faulted fault), []⟩

/-- Tells events, the diagnostic ones only on request. -/
def tellAll (events : List (Event α)) : Run α Unit := fun diagnostics =>
  ⟨.ok (), events.filter fun e => diagnostics || !e.isDiagnostic⟩

/-- Tells one event. -/
def tell (event : Event α) : Run α Unit := tellAll [event]

/-- On request all events are told. -/
theorem tellAll_log_true (events : List (Event α)) : (tellAll events true).log = events := by
  simp [tellAll]

/-- Without request the diagnostic events are left out. -/
theorem tellAll_log_false (events : List (Event α)) :
    (tellAll events false).log = events.filter fun e => !e.isDiagnostic := by
  simp [tellAll]

/-- Runs to the end or to a refusal, which becomes a value; a fault still stops the run. -/
def attempt (run : Run α β) : Run α (Except (Refusal α) β) := fun diagnostics =>
  match run diagnostics with
  | ⟨.ok b, log⟩ => ⟨.ok (.ok b), log⟩
  | ⟨.error (.refused cause), log⟩ => ⟨.ok (.error cause), log⟩
  | ⟨.error (.faulted fault), log⟩ => ⟨.error (.faulted fault), log⟩

/-- A refusal becomes a value, and the log is kept. -/
theorem attempt_refused {run : Run α β} {d : Bool} {cause : Refusal α} {log : List (Event α)}
    (h : run d = ⟨.error (.refused cause), log⟩) :
    attempt run d = ⟨.ok (.error cause), log⟩ := by
  simp [attempt, h]

/-- A fault is not caught. -/
theorem attempt_faulted {run : Run α β} {d : Bool} {fault : Fault} {log : List (Event α)}
    (h : run d = ⟨.error (.faulted fault), log⟩) :
    attempt run d = ⟨.error (.faulted fault), log⟩ := by
  simp [attempt, h]

end Run

end Heterodyne
