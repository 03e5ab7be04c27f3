import Heterodyne.Cube
/-!
# Timing

How long an observation dwells, and how often it goes to its reference and is calibrated. The
cadence depends on the observing mode: rasters count rows, chopped jiggles count traversals of
their pattern, the others count steps.

* `nodSchedule_eq`: the scheduled and the dropped traversals make up the required ones.
-/

namespace Heterodyne

/-- The cadence of a raster. -/
structure RasterCadence (α : Type) where
  rowsPerRef : UInt32
  rowsPerCal : UInt32
  refToCalRatio : UInt32
  /-- The scan speed in arc seconds per second. -/
  velocity : α
  rowTime : Duration α
  refSamples : UInt32

/-- The cadence of a chopped jiggle. -/
structure ChopCadence (α : Type) where
  points : UInt32
  jigglesPerChop : UInt32
  offCycles : UInt32
  stepsPerTraversal : UInt32
  traversalTime : Duration α
  requiredRepeats : UInt32
  requiredTraversals : UInt32
  maxTraversals : UInt32
  nodSets : UInt32
  /-- The pattern traversals in one nod phase. -/
  traversalsPerPhase : UInt32
  /-- The required traversals per nod phase that are not scheduled. -/
  dropped : UInt32

/-- The cadence of an observation. -/
inductive Cadence (α : Type) where
  | raster (cadence : RasterCadence α)
  | chopJiggle (cadence : ChopCadence α)
  | grid (steps : UInt32)
  | frequencySwitch (steps : UInt32)
  | focus (axis : FocusAxis) (steps : UInt32) (stepSize : α)

/-- The timing of an observation. -/
structure Timing (α : Type) where
  stepTime : Duration α
  cycles : UInt32
  stepsPerRef : UInt32
  calSamples : UInt32
  cadence : Cadence α

namespace Timing

variable {α : Type} [Scalar α]

/-! ## Steps -/

/-- A step time, which has to be positive. -/
def checkStepTime (time : Duration α) : Except (Refusal α) (Duration α) :=
  if Scalar.zero < time.value then .ok time else .error (.stepTimeNotPositive time)

/-- The whole steps nearest to a time, at least one. -/
def stepsFor (step time : Duration α) : UInt32 :=
  Scalar.toCount (Scalar.atLeastOne (time.stepsOf step))

/-! ## Rasters -/

/-- The rows that are asked for if there is at least one, by their low thirty-two bits. -/
def rowsOr (rows : Option Int) (otherwise : UInt32) : UInt32 :=
  match rows with
  | some n => if 1 ≤ n then UInt32.ofNat n.toNat else otherwise
  | none => otherwise

/-- The steps on the source between two visits of the reference, and the samples taken there:
their square root, which leaves source and reference equally noisy. -/
def referenceSteps (onSteps : α) : UInt32 × UInt32 :=
  (Scalar.toCount (Scalar.atLeastOne (Scalar.round onSteps)),
    Scalar.toCount (Scalar.atLeastOne (Scalar.round (Scalar.sqrt onSteps))))

/-- The steps per reference and the cadence of a raster. -/
def ofRaster (raster : Raster α) (step : Duration α) (cubes : List (Cube α)) :
    Run α (UInt32 × Cadence α) := do
  let rowsPerRef := rowsOr raster.rowsPerRef 1
  let rowsPerCal := rowsOr raster.rowsPerCal rowsPerRef
  let ratio ← Run.ofCount (Count.div rowsPerCal rowsPerRef)
  let velocity := raster.velocity.getD (raster.dx.value / raster.sampleTime.value)
  let diagonal ← Run.ofCheck (footprint cubes)
  let rowTime : Duration α := ⟨diagonal.value / velocity⟩
  let onSteps := (rowTime / step : α) * Scalar.ofCount rowsPerRef
  let (stepsPerRef, refSamples) := referenceSteps onSteps
  Run.tell (.rowTimed rowTime velocity onSteps)
  return (stepsPerRef, .raster {
    rowsPerRef, rowsPerCal
    refToCalRatio := max ratio 1
    velocity, rowTime, refSamples })

/-! ## Chopped jiggles -/

/-- What a chopped observation repeats. -/
structure ChopRequest (α : Type) where
  points : UInt32
  jigglesPerChop : UInt32
  offCycles : UInt32
  secondsPerPoint : Duration α

/-- The request of a jiggle pattern; by default a chop position takes the whole pattern. -/
def ChopRequest.ofJiggle {α : Type} (j : Jiggle α) : ChopRequest α :=
  let points := UInt32.ofNat j.pattern.points.length
  ⟨points, j.jigglesPerChop.getD points, j.offCycles, j.secondsPerPoint⟩

/-- A chopped stare visits each position as a pattern of one point. -/
def ChopRequest.ofStare {α : Type} (s : Stare α) : ChopRequest α := ⟨1, 1, 1, s.secondsPerPoint⟩

/-- The phases of one nod set: on, off, off, on. -/
def nodPhases : UInt32 := 4

/-- What a ratio may lie off a whole number that it stands for. -/
def ratioSlack : α := Scalar.decimal 1 9

/-- The steps of one traversal of a pattern: every chop has its points on the source and its off
cycles before and after. -/
def traversalSteps (r : ChopRequest α) : Except Fault UInt32 := do
  let chops ← Count.ceilDiv r.points r.jigglesPerChop
  let off ← Count.mul 2 r.offCycles
  Count.mul chops (← Count.add r.jigglesPerChop off)

/-- The repeats of a pattern that spend a time on every point. -/
def repeatsFor (secondsPerPoint step : Duration α) : UInt32 :=
  Scalar.toCount (Scalar.atLeastOne (Scalar.ceil ((secondsPerPoint / step : α) - ratioSlack)))

/-- The traversals that fit between two nods, at least one. -/
def traversalsBetweenNods (maxNodTime traversalTime : Duration α) : UInt32 :=
  max (Scalar.toCount (Scalar.floor ((maxNodTime / traversalTime : α) + ratioSlack))) 1

/-- Nod sets, traversals per nod phase, and traversals left out. -/
structure NodSchedule where
  nodSets : UInt32
  perPhase : UInt32
  dropped : UInt32

/-- One nod set if all traversals fit between two nods, and otherwise as many full sets as the
required traversals fill. -/
def nodSchedule (required most : UInt32) : Except Fault NodSchedule := do
  let sets ← if required ≤ most then .ok 1 else Count.div required most
  let perPhase := if required ≤ most then required else most
  let scheduled ← Count.mul sets perPhase
  return ⟨sets, perPhase, Count.monus required scheduled⟩

/-- The scheduled and the dropped traversals make up the required ones. -/
theorem nodSchedule_eq {required most : UInt32} {s : NodSchedule}
    (h : nodSchedule required most = .ok s) :
    s.nodSets.toNat * s.perPhase.toNat + s.dropped.toNat = required.toNat := by
  unfold nodSchedule at h
  by_cases hle : required ≤ most
  · simp only [hle, if_true, bind, Except.bind] at h
    cases hm : Count.mul 1 required with
    | error e => simp [hm] at h
    | ok p =>
      have hp := Count.mul_eq_ok_iff.1 hm
      simp only [hm, pure, Except.pure, Except.ok.injEq] at h
      subst h
      show (1 : UInt32).toNat * required.toNat + (Count.monus required p).toNat = required.toNat
      have hone : (1 : UInt32).toNat = 1 := rfl
      rw [hone] at hp ⊢
      rw [Count.toNat_monus]
      omega
  · simp only [hle, if_false, bind, Except.bind, Count.div] at h
    by_cases h0 : most = 0
    · simp [h0] at h
    · simp only [h0, if_false] at h
      cases hm : Count.mul (required / most) most with
      | error e => simp [hm] at h
      | ok p =>
        have hp := Count.mul_eq_ok_iff.1 hm
        simp only [hm, pure, Except.pure, Except.ok.injEq] at h
        subst h
        have hdiv : (required / most).toNat * most.toNat ≤ required.toNat := by
          rw [UInt32.toNat_div]
          exact Nat.div_mul_le_self _ _
        show (required / most).toNat * most.toNat + (Count.monus required p).toNat
          = required.toNat
        rw [Count.toNat_monus]
        omega

/-- The steps per reference and the cadence of a chopped jiggle. -/
def ofChop (r : ChopRequest α) (step maxNodTime : Duration α) : Run α (UInt32 × Cadence α) := do
  let stepsPerTraversal ← Run.ofCount (traversalSteps r)
  let traversalTime := step * (Scalar.ofCount stepsPerTraversal : α)
  let requiredRepeats := repeatsFor r.secondsPerPoint step
  let requiredTraversals ← Run.ofCount (Count.ceilDiv requiredRepeats nodPhases)
  let maxTraversals := traversalsBetweenNods maxNodTime traversalTime
  let schedule ← Run.ofCount (nodSchedule requiredTraversals maxTraversals)
  if 0 < schedule.dropped then
    Run.tell (.traversalsDropped schedule.nodSets schedule.perPhase schedule.dropped
      requiredTraversals)
  let stepsPerRef ← Run.ofCount (Count.mul stepsPerTraversal schedule.perPhase)
  return (stepsPerRef, .chopJiggle {
    points := r.points
    jigglesPerChop := r.jigglesPerChop
    offCycles := r.offCycles
    stepsPerTraversal, traversalTime, requiredRepeats, requiredTraversals, maxTraversals
    nodSets := schedule.nodSets
    traversalsPerPhase := schedule.perPhase
    dropped := schedule.dropped })

/-! ## Observations -/

/-- The step time of an observation; a raster steps once per sample. -/
def stepTimeOf (d : Descriptor α) (settings : Settings α) : Except (Refusal α) (Duration α) :=
  match d.movement with
  | .raster r => checkStepTime r.sampleTime
  | _ => checkStepTime settings.stepTime

/-- The steps per reference and the cadence of an observation in a mode. -/
def cadenceOf (d : Descriptor α) (mode : Mode) (cubes : List (Cube α)) (settings : Settings α)
    (step : Duration α) : Run α (UInt32 × Cadence α) :=
  match d.movement, mode.mapping, mode.switching with
  | .raster r, .raster, _ => ofRaster r step cubes
  | .focus f, .jiggle, .chop =>
    return (stepsFor step f.secondsPerStep, .focus f.axis f.steps f.stepSize)
  | .stare s, .grid, .position =>
    let steps := stepsFor step s.secondsPerPoint
    return (steps, .grid steps)
  | .stare s, .jiggle, .chop => ofChop (.ofStare s) step settings.maxNodTime
  | .jiggle j, .jiggle, .chop => ofChop (.ofJiggle j) step settings.maxNodTime
  | .pointing j, .jiggle, .chop => ofChop (.ofJiggle j) step settings.maxNodTime
  | .jiggle j, .jiggle, .frequency =>
    return (1, .frequencySwitch (stepsFor step j.secondsPerPoint))
  | _, _, _ => Run.refuse (.modeMismatch mode d.iterator)

/-- The timing of an observation in a mode, whose cubes have been laid out. -/
def budget (d : Descriptor α) (mode : Mode) (cubes : List (Cube α)) (settings : Settings α) :
    Run α (Timing α) := do
  let step ← Run.ofCheck (stepTimeOf d settings)
  let (stepsPerRef, cadence) ← cadenceOf d mode cubes settings step
  return {
    stepTime := step
    cycles := d.repeats
    stepsPerRef
    calSamples := stepsFor step settings.calTime
    cadence }

end Timing

end Heterodyne
