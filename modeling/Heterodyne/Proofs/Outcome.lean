import Heterodyne.Proofs.Count
import Heterodyne.Run
/-!
# Outcomes of runs

A run yields a value, refuses for a cause, or faults. Each way of putting runs together is
described by how its outcome comes about from the outcomes of its parts; the log has no influence.

* `yields_bind`, `refuses_bind`, `faults_bind`: the outcome of a run that goes on.
* `breaksOff_bind`: where a run that goes on breaks off.
* `yields_attempt`: an attempt yields exactly what the run yields or refuses for.
-/

namespace Heterodyne

/-- Checks in a row pass if all of them do. -/
theorem check_bind_eq_ok {ε β γ : Type} {check : Except ε β} {next : β → Except ε γ} {c : γ} :
    (check >>= next) = .ok c ↔ ∃ b, check = .ok b ∧ next b = .ok c := by
  cases check <;> simp [bind, Except.bind]

/-- A check without a value is passed, and then the next one. -/
theorem check_then_eq_ok {ε γ : Type} {check : Except ε Unit} {next : Unit → Except ε γ} {c : γ} :
    (check >>= next) = .ok c ↔ check = .ok () ∧ next () = .ok c := by
  cases check <;> simp [bind, Except.bind]

/-- Checks in a row fail as the first one does that fails. -/
theorem check_bind_eq_error {ε β γ : Type} {check : Except ε β} {next : β → Except ε γ} {e : ε} :
    (check >>= next) = .error e ↔ check = .error e ∨ ∃ b, check = .ok b ∧ next b = .error e := by
  cases check <;> simp [bind, Except.bind]

namespace Run

variable {α β γ : Type}

/-- The run has a value. -/
def Yields (run : Run α β) (d : Bool) (b : β) : Prop := (run d).result = .ok b

/-- The run stops for a cause. -/
def Refuses (run : Run α β) (d : Bool) (cause : Refusal α) : Prop :=
  (run d).result = .error (.refused cause)

/-- The run breaks off with a fault. -/
def Faults (run : Run α β) (d : Bool) (fault : Fault) : Prop :=
  (run d).result = .error (.faulted fault)

/-! ## The three outcomes -/

/-- A run has one of the three outcomes. -/
theorem outcome (run : Run α β) (d : Bool) :
    (∃ b, run.Yields d b) ∨ (∃ cause, run.Refuses d cause) ∨ ∃ fault, run.Faults d fault := by
  unfold Yields Refuses Faults
  rcases (run d).result with (cause | fault) | b
  · exact .inr (.inl ⟨cause, rfl⟩)
  · exact .inr (.inr ⟨fault, rfl⟩)
  · exact .inl ⟨b, rfl⟩

/-- A run yields the value that its result shows, of which a part may be told. -/
theorem exists_yields_of_toOption {run : Run α β} {d : Bool} {part : β → γ} {c : γ}
    (h : (run d).result.toOption.map part = some c) : ∃ b, run.Yields d b ∧ part b = c := by
  unfold Yields
  cases hr : (run d).result with
  | ok b =>
    rw [hr] at h
    exact ⟨b, rfl, Option.some.inj h⟩
  | error stop =>
    rw [hr] at h
    cases h

/-- A run has at most one value. -/
theorem Yields.unique {run : Run α β} {d : Bool} {b c : β} (hb : run.Yields d b)
    (hc : run.Yields d c) : b = c :=
  Except.ok.inj (hb.symm.trans hc)

/-- A run that yields a value does not refuse. -/
theorem Yields.not_refuses {run : Run α β} {d : Bool} {b : β} (h : run.Yields d b)
    (cause : Refusal α) : ¬ run.Refuses d cause := by
  intro hr
  cases h.symm.trans hr

/-- A run that yields a value does not fault. -/
theorem Yields.not_faults {run : Run α β} {d : Bool} {b : β} (h : run.Yields d b)
    (fault : Fault) : ¬ run.Faults d fault := by
  intro hf
  cases h.symm.trans hf

/-- A run refuses for at most one cause. -/
theorem Refuses.unique {run : Run α β} {d : Bool} {cause cause' : Refusal α}
    (h : run.Refuses d cause) (h' : run.Refuses d cause') : cause = cause' :=
  Stop.refused.inj (Except.error.inj (h.symm.trans h'))

/-- A run that refuses does not fault. -/
theorem Refuses.not_faults {run : Run α β} {d : Bool} {cause : Refusal α}
    (h : run.Refuses d cause) (fault : Fault) : ¬ run.Faults d fault := by
  intro hf
  cases h.symm.trans hf

/-! ## Going on -/

/-- The outcome of going on is that of the first run, unless it has a value. -/
theorem result_bind (run : Run α β) (next : β → Run α γ) (d : Bool) :
    ((run >>= next) d).result = (run d).result.bind fun b => (next b d).result := by
  rcases h : run d with ⟨stop | b, log⟩
  · rw [bind_error h]
    rfl
  · rw [bind_ok h]
    rfl

/-- A run that goes on has a value if both of its parts have. -/
theorem yields_bind {run : Run α β} {next : β → Run α γ} {d : Bool} {c : γ} :
    (run >>= next).Yields d c ↔ ∃ b, run.Yields d b ∧ (next b).Yields d c := by
  unfold Yields
  rw [result_bind]
  cases (run d).result <;> simp [Except.bind]

/-- A run that goes on refuses if its first part does, or the second one after a value. -/
theorem refuses_bind {run : Run α β} {next : β → Run α γ} {d : Bool} {cause : Refusal α} :
    (run >>= next).Refuses d cause ↔
      run.Refuses d cause ∨ ∃ b, run.Yields d b ∧ (next b).Refuses d cause := by
  unfold Yields Refuses
  rw [result_bind]
  cases (run d).result <;> simp [Except.bind]

/-- A run that goes on faults if its first part does, or the second one after a value. -/
theorem faults_bind {run : Run α β} {next : β → Run α γ} {d : Bool} {fault : Fault} :
    (run >>= next).Faults d fault ↔
      run.Faults d fault ∨ ∃ b, run.Yields d b ∧ (next b).Faults d fault := by
  unfold Yields Faults
  rw [result_bind]
  cases (run d).result <;> simp [Except.bind]

/-- Applying a function to the value of a run is applying it to its outcome. -/
theorem result_map (f : β → γ) (run : Run α β) (d : Bool) :
    ((f <$> run) d).result = (run d).result.map f := by
  rw [map_eq_pure_bind, result_bind]
  cases (run d).result <;> rfl

/-- Applying a function to the value of a run tells nothing. -/
theorem log_map (f : β → γ) (run : Run α β) (d : Bool) : ((f <$> run) d).log = (run d).log := by
  rw [map_eq_pure_bind]
  rcases h : run d with ⟨stop | b, log⟩
  · rw [bind_error h]
  · rw [bind_ok h, pure_apply, List.append_nil]

/-! ## Runs of the same course -/

section SameCourse

variable {run : Run α γ} {other : Run α β} {f : β → γ} {d : Bool}

/-- A run with the mapped result of another one yields the mapped value. -/
theorem yields_of_result_eq_map (h : (run d).result = (other d).result.map f) {c : γ} :
    run.Yields d c ↔ ∃ b, other.Yields d b ∧ f b = c := by
  unfold Yields
  rw [h]
  cases (other d).result <;> simp [Except.map]

/-- A run with the mapped result of another one refuses for the same causes. -/
theorem refuses_of_result_eq_map (h : (run d).result = (other d).result.map f)
    {cause : Refusal α} : run.Refuses d cause ↔ other.Refuses d cause := by
  unfold Refuses
  rw [h]
  cases (other d).result <;> simp [Except.map]

/-- A run with the mapped result of another one breaks off with the same faults. -/
theorem faults_of_result_eq_map (h : (run d).result = (other d).result.map f) {fault : Fault} :
    run.Faults d fault ↔ other.Faults d fault := by
  unfold Faults
  rw [h]
  cases (other d).result <;> simp [Except.map]

end SameCourse

/-! ## Single steps -/

section Steps

variable {d : Bool} {b c : β} {cause cause' : Refusal α} {fault fault' : Fault}

@[simp] theorem yields_pure : (pure b : Run α β).Yields d c ↔ b = c := by
  simp [Yields, pure_apply]

@[simp] theorem not_refuses_pure : ¬ (pure b : Run α β).Refuses d cause := by
  simp [Refuses, pure_apply]

@[simp] theorem not_faults_pure : ¬ (pure b : Run α β).Faults d fault := by
  simp [Faults, pure_apply]

@[simp] theorem not_yields_refuse : ¬ (refuse cause : Run α β).Yields d b := by
  simp [Yields, refuse]

@[simp] theorem refuses_refuse : (refuse cause : Run α β).Refuses d cause' ↔ cause = cause' := by
  simp [Refuses, refuse]

@[simp] theorem not_faults_refuse : ¬ (refuse cause : Run α β).Faults d fault := by
  simp [Faults, refuse]

@[simp] theorem yields_ofCheck {check : Except (Refusal α) β} :
    (ofCheck check).Yields d b ↔ check = .ok b := by
  cases check <;> simp [ofCheck]

@[simp] theorem refuses_ofCheck {check : Except (Refusal α) β} :
    (ofCheck check).Refuses d cause ↔ check = .error cause := by
  cases check <;> simp [ofCheck]

@[simp] theorem not_faults_ofCheck {check : Except (Refusal α) β} :
    ¬ (ofCheck check).Faults d fault := by
  cases check <;> simp [ofCheck]

@[simp] theorem yields_ofCount {count : Except Fault β} :
    (ofCount count : Run α β).Yields d b ↔ count = .ok b := by
  cases count <;> simp [ofCount, Yields, pure_apply]

@[simp] theorem not_refuses_ofCount {count : Except Fault β} :
    ¬ (ofCount count : Run α β).Refuses d cause := by
  cases count <;> simp [ofCount, Refuses, pure_apply]

@[simp] theorem faults_ofCount {count : Except Fault β} :
    (ofCount count : Run α β).Faults d fault ↔ count = .error fault := by
  cases count <;> simp [ofCount, Faults, pure_apply]

@[simp] theorem yields_tellAll {events : List (Event α)} {u : Unit} :
    (tellAll events).Yields d u := rfl

@[simp] theorem not_refuses_tellAll {events : List (Event α)} :
    ¬ (tellAll events).Refuses d cause := by
  simp [tellAll, Refuses]

@[simp] theorem not_faults_tellAll {events : List (Event α)} :
    ¬ (tellAll events).Faults d fault := by
  simp [tellAll, Faults]

@[simp] theorem yields_tell {event : Event α} {u : Unit} : (tell event).Yields d u := rfl

@[simp] theorem not_refuses_tell {event : Event α} : ¬ (tell event).Refuses d cause :=
  not_refuses_tellAll

@[simp] theorem not_faults_tell {event : Event α} : ¬ (tell event).Faults d fault :=
  not_faults_tellAll

end Steps

/-! ## Breaking off -/

section BreakingOff

variable {run : Run α β} {next : β → Run α γ} {d : Bool} {b : β} {cause : Refusal α}

/-- The run breaks off, with some fault. -/
def BreaksOff (run : Run α β) (d : Bool) : Prop := ∃ fault, run.Faults d fault

/-- A run that yields a value does not break off. -/
theorem Yields.not_breaksOff (h : run.Yields d b) : ¬ run.BreaksOff d := by
  rintro ⟨fault, hf⟩
  exact h.not_faults fault hf

/-- A run that does not break off yields a value or refuses. -/
theorem yields_or_refuses (h : ¬ run.BreaksOff d) :
    (∃ b, run.Yields d b) ∨ ∃ cause, run.Refuses d cause := by
  rcases run.outcome d with hb | hc | hf
  · exact .inl hb
  · exact .inr hc
  · exact absurd hf h

/-- A run that goes on breaks off if its first part does, or the second one after a value. -/
theorem breaksOff_bind :
    (run >>= next).BreaksOff d ↔ run.BreaksOff d ∨ ∃ b, run.Yields d b ∧ (next b).BreaksOff d := by
  unfold BreaksOff
  simp only [faults_bind, exists_or]
  refine or_congr_right ?_
  constructor
  · rintro ⟨fault, b, hb, hf⟩
    exact ⟨b, hb, fault, hf⟩
  · rintro ⟨b, hb, fault, hf⟩
    exact ⟨fault, b, hb, hf⟩

@[simp] theorem not_breaksOff_pure : ¬ (pure b : Run α β).BreaksOff d := by
  simp [BreaksOff]

@[simp] theorem not_breaksOff_refuse : ¬ (refuse cause : Run α β).BreaksOff d := by
  simp [BreaksOff]

@[simp] theorem not_breaksOff_ofCheck {check : Except (Refusal α) β} :
    ¬ (ofCheck check).BreaksOff d := by
  simp [BreaksOff]

@[simp] theorem breaksOff_ofCount {count : Except Fault β} :
    (ofCount count : Run α β).BreaksOff d ↔ Count.Fails count := by
  simp [BreaksOff, Count.Fails]

@[simp] theorem not_breaksOff_tellAll {events : List (Event α)} :
    ¬ (tellAll events).BreaksOff d := by
  simp [BreaksOff]

@[simp] theorem not_breaksOff_tell {event : Event α} : ¬ (tell event).BreaksOff d := by
  simp [BreaksOff]

end BreakingOff

/-! ## Attempts -/

/-- What a run settles for: its value, or the cause for which it refuses. -/
def Settles (run : Run α β) (d : Bool) : Except (Refusal α) β → Prop
  | .ok b => run.Yields d b
  | .error cause => run.Refuses d cause

/-- An attempt yields what the run settles for. -/
@[simp] theorem yields_attempt {run : Run α β} {d : Bool} {e : Except (Refusal α) β} :
    run.attempt.Yields d e ↔ run.Settles d e := by
  rcases h : run d with ⟨(cause | fault) | b, log⟩ <;> cases e <;>
    simp [attempt, Settles, Yields, Refuses, h]

/-- An attempt never refuses. -/
@[simp] theorem not_refuses_attempt {run : Run α β} {d : Bool} {cause : Refusal α} :
    ¬ run.attempt.Refuses d cause := by
  rcases h : run d with ⟨(cause | fault) | b, log⟩ <;> simp [attempt, Refuses, h]

/-- An attempt breaks off as the run does. -/
@[simp] theorem breaksOff_attempt {run : Run α β} {d : Bool} :
    run.attempt.BreaksOff d ↔ run.BreaksOff d := by
  unfold BreaksOff
  rcases h : run d with ⟨(cause | fault') | b, log⟩ <;> simp [attempt, Faults, h]

/-- A run settles for something unless it breaks off. -/
theorem exists_settles_iff {run : Run α β} {d : Bool} :
    (∃ e, run.Settles d e) ↔ ¬ run.BreaksOff d := by
  constructor
  · rintro ⟨b | cause, h⟩ ⟨fault, hf⟩
    · exact Refuses.not_faults h fault hf
    · exact Yields.not_faults h fault hf
  · intro h
    rcases yields_or_refuses h with ⟨b, hb⟩ | ⟨cause, hc⟩
    · exact ⟨.ok b, hb⟩
    · exact ⟨.error cause, hc⟩

end Run

end Heterodyne
