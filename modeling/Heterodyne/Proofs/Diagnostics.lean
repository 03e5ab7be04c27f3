import Heterodyne.Instrument
import Heterodyne.Proofs.Outcome
/-!
# Diagnostic events

Whether diagnostic events are asked for has no influence on what is configured, refused or broken
off. It has none on the other events either: the log that is told without being asked is the log
that is told on request, less its diagnostic events. The level of an event does not tell which is
the case, since diagnostic events share theirs with others.

* `indifferent_bind`, `indifferent_tellAll`, `indifferent_attempt`: the steps of runs.
* `indifferent_configure`, `indifferent_configureFrom`: runs over one and over many observations.
* `configure_indifferent`: what is told of an instrument at work.
-/

namespace Heterodyne

/-! ## Records -/

/-- What is written of an event: how much it matters, where it arises, and its wording. -/
structure Record where
  level : Level
  origin : Origin
  message : String
deriving DecidableEq

/-- The record of an event. -/
def Event.record (e : Event Binary64) : Record := ⟨e.level, e.origin, e.message⟩

variable {α β γ : Type}

/-- The events of a log that are told in any case. -/
def plainEvents (log : List (Event α)) : List (Event α) := log.filter fun e => !e.isDiagnostic

/-- The events of a log that are told in any case are those of its parts in order. -/
theorem plainEvents_append (log more : List (Event α)) :
    plainEvents (log ++ more) = plainEvents log ++ plainEvents more :=
  List.filter_append log more

/-- Events that are told in any case stay. -/
theorem plainEvents_plainEvents (log : List (Event α)) :
    plainEvents (plainEvents log) = plainEvents log := by
  unfold plainEvents
  rw [List.filter_filter]
  simp only [Bool.and_self]

/-! ## Steps -/

namespace Run

/-- Whether diagnostic events are asked for has no influence on a run, but that they are told. -/
structure Indifferent (run : Run α β) : Prop where
  result_eq : (run true).result = (run false).result
  log_eq : (run false).log = plainEvents (run true).log

section Steps

variable {run : Run α β} {next : β → Run α γ}

/-- A run that does not ask tells no diagnostic event. -/
theorem indifferent_of_eq {outcome : Outcome α β} (h : ∀ d, run d = outcome)
    (hlog : outcome.log = []) : run.Indifferent := by
  constructor
  · rw [h, h]
  · rw [h, h, hlog]
    rfl

theorem indifferent_pure (b : β) : (pure b : Run α β).Indifferent :=
  indifferent_of_eq (pure_apply b) rfl

theorem indifferent_refuse (cause : Refusal α) : (refuse cause : Run α β).Indifferent :=
  indifferent_of_eq (fun _ => rfl) rfl

theorem indifferent_ofCheck (check : Except (Refusal α) β) : (ofCheck check).Indifferent := by
  cases check with
  | ok b => exact indifferent_pure b
  | error cause => exact indifferent_refuse cause

theorem indifferent_ofCount (count : Except Fault β) : (ofCount count : Run α β).Indifferent := by
  cases count with
  | ok b => exact indifferent_pure b
  | error fault => exact indifferent_of_eq (fun _ => rfl) rfl

/-- Events are told all on request, and otherwise those that are not diagnostic. -/
theorem indifferent_tellAll (events : List (Event α)) : (tellAll events).Indifferent := by
  constructor
  · rfl
  · rw [tellAll_log_true, tellAll_log_false]
    rfl

theorem indifferent_tell (event : Event α) : (tell event).Indifferent := indifferent_tellAll [event]

/-- A run goes on alike if its first part runs alike, and its second one behind any value. -/
theorem indifferent_bind (h : run.Indifferent) (hnext : ∀ b, (next b).Indifferent) :
    (run >>= next).Indifferent := by
  obtain ⟨hresult, hlog⟩ := h
  rcases htold : run true with ⟨stop | b, told⟩ <;>
    rcases hquiet : run false with ⟨stop' | b', quiet⟩
  all_goals
    rw [htold, hquiet] at hresult hlog
    cases hresult
  · -- both stop at the same place
    constructor
    · rw [bind_error htold, bind_error hquiet]
    · rw [bind_error htold, bind_error hquiet]
      exact hlog
  · -- both go on with the same value
    constructor
    · rw [bind_ok htold, bind_ok hquiet]
      exact (hnext b).result_eq
    · rw [bind_ok htold, bind_ok hquiet]
      dsimp only at hlog ⊢
      rw [plainEvents_append, hlog, (hnext b).log_eq]

/-- Of two runs that run alike, either one may be chosen beforehand. -/
theorem indifferent_ite {c : Prop} [Decidable c] {other : Run α β} (h : run.Indifferent)
    (hother : other.Indifferent) : (if c then run else other).Indifferent := by
  split
  · exact h
  · exact hother

/-- An attempt is made alike if the run is made alike. -/
theorem indifferent_attempt (h : run.Indifferent) : run.attempt.Indifferent := by
  have hattempt (d : Bool) : run.attempt d = ⟨match (run d).result with
      | .ok b => .ok (.ok b)
      | .error (.refused cause) => .ok (.error cause)
      | .error (.faulted fault) => .error (.faulted fault), (run d).log⟩ := by
    unfold attempt
    rcases run d with ⟨(cause | fault) | b, log⟩ <;> rfl
  constructor
  · rw [hattempt, hattempt, h.result_eq]
  · rw [hattempt, hattempt]
    exact h.log_eq

end Steps

/-- The records of a run. -/
def records (run : Run Binary64 β) (d : Bool) : List Record := (run d).log.map Event.record

/-- The records of a run that are not diagnostic. -/
def plainRecords (run : Run Binary64 β) (d : Bool) : List Record :=
  (plainEvents (run d).log).map Event.record

/-- The records that are not diagnostic are the same, and without request there are no others. -/
theorem Indifferent.records_eq {run : Run Binary64 β} (h : run.Indifferent) :
    run.records false = run.plainRecords true ∧
      run.plainRecords false = run.plainRecords true := by
  unfold records plainRecords
  rw [h.log_eq, plainEvents_plainEvents]
  exact ⟨rfl, rfl⟩

end Run

open Run

variable [Scalar α]

/-! ## Plans -/

/-- A subsystem is planned alike. -/
theorem indifferent_planSubsystem (settings : Settings α) (number : UInt32)
    (request : Subsystem α) : (planSubsystem settings number request).Indifferent := by
  unfold planSubsystem
  refine indifferent_bind (indifferent_ofCount _) fun total => ?_
  refine indifferent_ite (indifferent_refuse _) ?_
  refine indifferent_bind (indifferent_ofCheck _) fun mode => ?_
  refine indifferent_bind (indifferent_ofCheck _) fun _ => ?_
  exact indifferent_bind (indifferent_tellAll _) fun _ => indifferent_pure _

/-- Subsystems are planned alike, however many there are. -/
theorem indifferent_planSubsystems (settings : Settings α) (requests : List (Subsystem α))
    (number : UInt32) : (planSubsystems settings number requests).Indifferent := by
  induction requests generalizing number with
  | nil => exact indifferent_pure _
  | cons request rest ih =>
    refine indifferent_bind (indifferent_ofCount _) fun next => ?_
    refine indifferent_bind (indifferent_planSubsystem settings number request) fun first => ?_
    exact indifferent_bind (ih next) fun others => indifferent_pure _

/-- A plan is made alike. -/
theorem indifferent_ofSubsystems (settings : Settings α) (requests : List (Subsystem α)) :
    (Plan.ofSubsystems settings requests).Indifferent :=
  indifferent_bind (indifferent_planSubsystems settings requests 1) fun _ => indifferent_pure _

/-! ## Routings -/

namespace Routing

omit [Scalar α] in
/-- Assignments are recorded alike, up to the first one that is refused. -/
theorem indifferent_assignAll (as : List Assignment) (claims : Claims) :
    (assignAll as claims : Run α Claims).Indifferent := by
  induction as generalizing claims with
  | nil => exact indifferent_pure claims
  | cons a rest ih =>
    refine indifferent_bind (indifferent_ofCheck _) fun added => ?_
    exact indifferent_bind (indifferent_tell _) fun _ => ih added

omit [Scalar α] in
/-- Receptors are routed alike, up to the first one that is refused. -/
theorem indifferent_routeReceptors (wiring : Wiring) (windows : List (WindowId × String))
    (rs : List Receptor) (claims : Claims) :
    (routeReceptors wiring windows rs claims : Run α _).Indifferent := by
  induction rs generalizing claims with
  | nil => exact indifferent_pure _
  | cons q rest ih =>
    refine indifferent_bind (indifferent_ofCheck _) fun slots => ?_
    refine indifferent_bind (indifferent_assignAll _ claims) fun recorded => ?_
    exact indifferent_bind (ih recorded) fun others => indifferent_pure _

omit [Scalar α] in
/-- A plan is routed alike. -/
theorem indifferent_ofPlan (plan : Plan α) (wiring : Wiring) (rs : List Receptor) :
    (ofPlan plan wiring rs).Indifferent := by
  refine indifferent_bind (indifferent_routeReceptors wiring _ rs {}) fun routed => ?_
  exact indifferent_bind (indifferent_ofCheck _) fun lo2 => indifferent_pure _

end Routing

/-! ## Grids -/

/-- An axis is fitted alike, whatever trial pixels are rejected on the way. -/
theorem Axis.indifferent_fit (positions : List α) (nyquist tolerance : Arcsec α) :
    (fit positions nyquist tolerance).Indifferent := by
  unfold fit
  split
  · exact indifferent_refuse _
  · exact indifferent_pure _
  · exact indifferent_pure _
  · unfold fitLattice
    split
    · exact indifferent_pure _
    · refine indifferent_bind (indifferent_ofCount _) fun divisor => ?_
      refine indifferent_bind (indifferent_tellAll _) fun _ => ?_
      exact indifferent_bind (indifferent_ofCount _) fun count => indifferent_pure _

/-- A grid is fitted alike. -/
theorem Grid.indifferent_fit (offsets : List (Offset α)) (angle : Degrees α) (nyquist : Arcsec α)
    (toleranceFactor : α) : (fit offsets angle nyquist toleranceFactor).Indifferent := by
  unfold fit
  split
  · exact indifferent_refuse _
  · refine indifferent_bind (Axis.indifferent_fit _ _ _) fun x => ?_
    refine indifferent_bind (Axis.indifferent_fit _ _ _) fun y => ?_
    exact indifferent_bind (indifferent_tell _) fun _ => indifferent_ofCount _

/-- The cubes of an observation are laid out alike. -/
theorem indifferent_cubes (o : Descriptor α) (plan : Plan α) (settings : Settings α) :
    (o.cubes plan settings).Indifferent := by
  refine indifferent_bind ?_ fun grid => indifferent_pure _
  unfold Descriptor.spatialGrid
  cases o.movement with
  | raster r => exact indifferent_ofCount _
  | stare s => exact Grid.indifferent_fit _ _ _ _
  | jiggle j => exact Grid.indifferent_fit _ _ _ _
  | pointing j => exact Grid.indifferent_fit _ _ _ _
  | focus f => exact Grid.indifferent_fit _ _ _ _

/-! ## Timings -/

namespace Timing

/-- A raster is timed alike. -/
theorem indifferent_ofRaster (r : Raster α) (step : Duration α) (cubes : List (Cube α)) :
    (ofRaster r step cubes).Indifferent := by
  refine indifferent_bind (indifferent_ofCount _) fun ratio => ?_
  refine indifferent_bind (indifferent_ofCheck _) fun diagonal => ?_
  exact indifferent_bind (indifferent_tell _) fun _ => indifferent_pure _

/-- A chopped jiggle is timed alike; the warning of dropped traversals is not diagnostic. -/
theorem indifferent_ofChop (r : ChopRequest α) (step maxNodTime : Duration α) :
    (ofChop r step maxNodTime).Indifferent := by
  refine indifferent_bind (indifferent_ofCount _) fun stepsPerTraversal => ?_
  refine indifferent_bind (indifferent_ofCount _) fun required => ?_
  refine indifferent_bind (indifferent_ofCount _) fun schedule => ?_
  refine indifferent_ite ?_ ?_
  · refine indifferent_bind (indifferent_tell _) fun _ => ?_
    exact indifferent_bind (indifferent_ofCount _) fun stepsPerRef => indifferent_pure _
  · exact indifferent_bind (indifferent_ofCount _) fun stepsPerRef => indifferent_pure _

/-- An observation is timed alike. -/
theorem indifferent_budget (o : Descriptor α) (mode : Mode) (cubes : List (Cube α))
    (settings : Settings α) : (budget o mode cubes settings).Indifferent := by
  refine indifferent_bind (indifferent_ofCheck _) fun step => ?_
  refine indifferent_bind ?_ fun timed => indifferent_pure _
  unfold cadenceOf
  split
  · exact indifferent_ofRaster _ _ _
  · exact indifferent_pure _
  · exact indifferent_pure _
  · exact indifferent_ofChop _ _ _
  · exact indifferent_ofChop _ _ _
  · exact indifferent_ofChop _ _ _
  · exact indifferent_pure _
  · exact indifferent_refuse _

end Timing

/-! ## Observations -/

namespace Instrument

/-- An observation is configured alike. -/
theorem indifferent_configure (i : Instrument α) (o : Descriptor α) :
    (i.configure o).Indifferent := by
  refine indifferent_bind (indifferent_ofCheck _) fun mode => ?_
  refine indifferent_bind (indifferent_tell _) fun _ => ?_
  refine indifferent_bind (indifferent_ofSubsystems i.settings o.subsystems) fun plan => ?_
  refine indifferent_bind (Routing.indifferent_ofPlan plan i.wiring o.receptors) fun routing => ?_
  refine indifferent_bind (indifferent_cubes o plan i.settings) fun cubes => ?_
  exact indifferent_bind (Timing.indifferent_budget o mode cubes i.settings) fun timing =>
    indifferent_pure _

/-- Observations are configured alike one after another. -/
theorem indifferent_configureFrom (i : Instrument α) (os : List (Descriptor α)) (index : Nat) :
    (i.configureFrom index os).Indifferent := by
  induction os generalizing index with
  | nil => exact indifferent_pure _
  | cons o rest ih =>
    refine indifferent_bind (indifferent_attempt (i.indifferent_configure o)) fun result => ?_
    have hrest : (do
        let others ← i.configureFrom (index + 1) rest
        return result :: others : Run α _).Indifferent :=
      indifferent_bind (ih (index + 1)) fun others => indifferent_pure _
    cases result with
    | ok c => exact hrest
    | error cause => exact indifferent_bind (indifferent_tell _) fun _ => hrest

/-- An instrument configures one observation, or many, with the same result whether diagnostic
events are asked for or not: the same value, the same refusal or the same fault. The other events
are told in the same order with the same records, and without request there are none but them. -/
theorem configure_indifferent (i : Instrument Binary64) :
    (∀ o, (i.configure o).Indifferent ∧
      (i.configure o).records false = (i.configure o).plainRecords true ∧
      (i.configure o).plainRecords false = (i.configure o).plainRecords true) ∧
    ∀ os, (i.configureAll os).Indifferent ∧
      (i.configureAll os).records false = (i.configureAll os).plainRecords true ∧
      (i.configureAll os).plainRecords false = (i.configureAll os).plainRecords true := by
  constructor
  · intro o
    have hone := i.indifferent_configure o
    exact ⟨hone, hone.records_eq⟩
  · intro os
    have hall : (i.configureAll os).Indifferent := i.indifferent_configureFrom os 0
    exact ⟨hall, hall.records_eq⟩

end Instrument

end Heterodyne
