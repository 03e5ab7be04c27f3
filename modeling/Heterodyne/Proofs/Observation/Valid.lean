import Heterodyne.Proofs.Observation.Descriptor
import Mathlib.Tactic.Tauto
/-!
# Valid descriptors

A draft is put together by calls in any order and number. Its subsystems and receptors are
collected, and of its repeats and Nyquist sampling values the last one counts. What is accepted
holds what was asked for, and it is valid as far as comparisons can tell: a check refuses what lies
at zero or below, so a value that is not a number is let through.

* `Draft.build_after_eq_ok_iff`: what is accepted behind calls, over any scalars.
* `Draft.accepted_iff`: which descriptors are accepted, and which of them are valid.
* `Draft.not_valid_unmeasured`: a valid draft but for a Nyquist sampling value that is no number.
-/

namespace Heterodyne

variable {α : Type}

/-! ## Calls -/

namespace Draft

/-- A call that puts a part into a draft. -/
inductive Call (α : Type) where
  | subsystem (s : Subsystem α)
  | receptors (rs : List Receptor)
  | repeats (n : UInt32)
  | nyquist (value : Arcsec α)

namespace Call

/-- The subsystems that a call adds. -/
def subsystems : Call α → List (Subsystem α)
  | .subsystem s => [s]
  | _ => []

/-- The receptors that a call enables. -/
def enabled : Call α → List Receptor
  | .receptors rs => rs
  | _ => []

/-- The repeats that a call asks for. -/
def repeats? : Call α → Option UInt32
  | .repeats n => some n
  | _ => none

/-- The Nyquist sampling value that a call sets. -/
def nyquist? : Call α → Option (Arcsec α)
  | .nyquist value => some value
  | _ => none

end Call

/-- A draft without parts. -/
def begun (movement : Movement α) (switching : Switching) : Draft α := { movement, switching }

/-- The draft behind a call. -/
def call (d : Draft α) : Call α → Draft α
  | .subsystem s => d.addSubsystem s
  | .receptors rs => d.addReceptors rs
  | .repeats n => d.withRepeats n
  | .nyquist value => d.withNyquist value

/-- The draft behind calls one after another. -/
def after (d : Draft α) (calls : List (Call α)) : Draft α := calls.foldl call d

/-- What one call puts into a draft. -/
theorem call_eq (d : Draft α) (c : Call α) :
    d.call c = ⟨d.movement, d.switching, d.subsystems ++ c.subsystems, c.repeats?.or d.repeats,
      d.receptors ++ c.enabled, c.nyquist?.or d.nyquist⟩ := by
  cases c <;> simp [call, addSubsystem, addReceptors, withRepeats, withNyquist, Call.subsystems,
    Call.enabled, Call.repeats?, Call.nyquist?]

/-- What calls put into a draft: the lists are collected in order, and the last value counts. -/
theorem after_eq (d : Draft α) (calls : List (Call α)) :
    d.after calls = ⟨d.movement, d.switching, d.subsystems ++ calls.flatMap Call.subsystems,
      (calls.filterMap Call.repeats?).getLast?.or d.repeats,
      d.receptors ++ calls.flatMap Call.enabled,
      (calls.filterMap Call.nyquist?).getLast?.or d.nyquist⟩ := by
  induction calls generalizing d with
  | nil => simp [after]
  | cons c rest ih =>
    have hlast {β : Type} (f : Call α → Option β) (before : Option β) :
        (rest.filterMap f).getLast?.or ((f c).or before) =
          ((c :: rest).filterMap f).getLast?.or before := by
      cases hc : f c with
      | none => simp [hc]
      | some b => cases hrest : (rest.filterMap f).getLast? <;> simp [hc, List.getLast?_cons, hrest]
    rw [after, List.foldl_cons, ← after, ih, call_eq]
    simp only [hlast, List.flatMap_cons, List.append_assoc]

end Draft

/-! ## Validity -/

/-- What is asked of a movement, given which numbers are positive and which are not negative. -/
def Movement.Valid (positive nonnegative : α → Prop) : Movement α → Prop
  | .raster r => positive r.dx.value ∧ positive r.dy.value ∧ nonnegative r.width.value ∧
      nonnegative r.height.value ∧ ∀ v, r.velocity = some v → positive v
  | .stare s => s.offsets ≠ []
  | .jiggle j | .pointing j => j.pattern.points ≠ [] ∧
      ∀ n, j.jigglesPerChop = some n → 1 ≤ n.toNat ∧ n.toNat ≤ j.pattern.points.length
  | .focus f => 1 ≤ f.steps.toNat

/-- What is asked of a subsystem. -/
structure Subsystem.Valid (positive nonnegative : α → Prop) (s : Subsystem α) : Prop where
  channels : 1 ≤ s.channels.toNat
  bandwidth : positive s.bandwidth.value
  overlap : nonnegative s.overlap.value

/-- What is asked of a descriptor. -/
structure Descriptor.Valid (positive nonnegative : α → Prop) (o : Descriptor α) : Prop where
  nyquist : positive o.nyquist.value
  subsystems : o.subsystems ≠ []
  subsystem : ∀ s ∈ o.subsystems, s.Valid positive nonnegative
  receptors : o.receptors ≠ []
  repeats : 1 ≤ o.repeats.toNat
  movement : o.movement.Valid positive nonnegative

/-- A descriptor holds what calls on a draft have asked for. -/
structure Descriptor.Asked (o : Descriptor α) (movement : Movement α) (switching : Switching)
    (calls : List (Draft.Call α)) : Prop where
  movement : o.movement = movement
  switching : o.switching = switching
  subsystems : o.subsystems = calls.flatMap Draft.Call.subsystems
  receptors : o.receptors = calls.flatMap Draft.Call.enabled
  repeats : o.repeats = (calls.filterMap Draft.Call.repeats?).getLast?.getD 1
  nyquist : some o.nyquist = (calls.filterMap Draft.Call.nyquist?).getLast?

/-! ## Checks -/

section Checks

variable [Scalar α]

/-- A number that is not found to lie at zero or below. -/
def PassesPositive (x : α) : Prop := ¬ x ≤ Scalar.zero

/-- A number that is not found to lie below zero. -/
def PassesNonnegative (x : α) : Prop := ¬ x < Scalar.zero

/-- A count is at least one unless it is zero. -/
theorem one_le_toNat_iff {n : UInt32} : 1 ≤ n.toNat ↔ n ≠ 0 := by
  rw [Nat.one_le_iff_ne_zero, Ne, Ne, ← UInt32.toNat_inj, UInt32.toNat_zero]

/-- The check of a movement lets through what passes for valid. -/
theorem Movement.check_eq_ok_iff {m : Movement α} :
    m.check = .ok () ↔ m.Valid PassesPositive PassesNonnegative := by
  have hjiggle (j : Jiggle α) : j.check = .ok () ↔ j.pattern.points ≠ [] ∧
      ∀ n, j.jigglesPerChop = some n → 1 ≤ n.toNat ∧ n.toNat ≤ j.pattern.points.length := by
    rw [Jiggle.check, check_then_eq_ok, objectIf_eq_ok_iff]
    refine and_congr_right fun _ => ?_
    cases j.jigglesPerChop with
    | none => simp
    | some n => simp [objectIf_eq_ok_iff, one_le_toNat_iff]
  cases m with
  | raster r =>
    simp only [Movement.check, Raster.check, check_then_eq_ok, objectIf_eq_ok_iff, not_or,
      and_assoc]
    refine and_congr_right fun _ => and_congr_right fun _ => and_congr_right fun _ =>
      and_congr_right fun _ => ?_
    cases r.velocity with
    | none => simp
    | some v => simp [objectIf_eq_ok_iff, PassesPositive]
  | stare s => exact objectIf_eq_ok_iff
  | jiggle j => exact hjiggle j
  | pointing j => exact hjiggle j
  | focus f => exact objectIf_eq_ok_iff.trans one_le_toNat_iff.symm

/-- The check of a subsystem lets through what passes for valid. -/
theorem Subsystem.check_eq_ok_iff {s : Subsystem α} {number : ℕ} :
    s.check number = .ok () ↔ s.Valid PassesPositive PassesNonnegative := by
  rw [Subsystem.check, check_then_eq_ok, objectIf_eq_ok_iff, objectIf_eq_ok_iff, not_or]
  constructor
  · rintro ⟨⟨hchannels, hbandwidth⟩, hoverlap⟩
    exact ⟨one_le_toNat_iff.2 hchannels, hbandwidth, hoverlap⟩
  · rintro ⟨hchannels, hbandwidth, hoverlap⟩
    exact ⟨⟨one_le_toNat_iff.1 hchannels, hbandwidth⟩, hoverlap⟩

/-- The checks of subsystems let through what passes for valid, whatever the number of the first
one is. -/
theorem checkSubsystems_eq_ok_iff {number : ℕ} {subsystems : List (Subsystem α)} :
    checkSubsystems number subsystems = .ok () ↔
      ∀ s ∈ subsystems, s.Valid PassesPositive PassesNonnegative := by
  induction subsystems generalizing number with
  | nil => simp [checkSubsystems]
  | cons s rest ih =>
    rw [checkSubsystems, check_then_eq_ok, ih, Subsystem.check_eq_ok_iff, List.forall_mem_cons]

/-- What is accepted behind calls holds what they have asked for and passes for valid, and
everything of that kind is accepted. -/
theorem Draft.build_after_eq_ok_iff {movement : Movement α} {switching : Switching}
    {calls : List (Call α)} {o : Descriptor α} :
    ((begun movement switching).after calls).build = .ok o ↔
      o.Asked movement switching calls ∧ o.Valid PassesPositive PassesNonnegative := by
  rw [build_eq_ok_iff, after_eq, Movement.check_eq_ok_iff, checkSubsystems_eq_ok_iff]
  simp only [begun, List.nil_append, Option.or_none]
  constructor
  · rintro ⟨hmovement, hsubsystems, hvalid, hreceptors, hrepeats, nyquist, hnyquist, hpos, rfl⟩
    refine ⟨⟨rfl, rfl, rfl, rfl, rfl, hnyquist.symm⟩,
      ⟨hpos, hsubsystems, hvalid, hreceptors, ?_, hmovement⟩⟩
    show 1 ≤ ((calls.filterMap Call.repeats?).getLast?.getD 1).toNat
    rw [one_le_toNat_iff]
    cases hlast : (calls.filterMap Call.repeats?).getLast? with
    | none => decide
    | some n =>
      rw [hlast] at hrepeats
      exact fun hzero => hrepeats (congrArg some hzero)
  · rintro ⟨⟨hm, hs, hsub, hrec, hrep, hnyq⟩,
      ⟨hpos, hsubsystems, hvalid, hreceptors, hrepeats, hmovement⟩⟩
    subst hm hs
    rw [hsub] at hsubsystems hvalid
    rw [hrec] at hreceptors
    refine ⟨hmovement, hsubsystems, hvalid, hreceptors, ?_, o.nyquist, hnyq.symm, hpos, ?_⟩
    · intro hlast
      rw [hrep, hlast] at hrepeats
      exact one_le_toNat_iff.1 hrepeats rfl
    · rw [← hsub, ← hrec, ← hrep]

end Checks

/-! ## Numbers -/

section Numbers

/-- The values of a movement that are checked. -/
def Movement.measures : Movement α → List α
  | .raster r => [r.dx.value, r.dy.value, r.width.value, r.height.value] ++ r.velocity.toList
  | _ => []

/-- The values of a subsystem that are checked. -/
def Subsystem.measures (s : Subsystem α) : List α := [s.bandwidth.value, s.overlap.value]

/-- The values of a descriptor that are checked. -/
def Descriptor.measures (o : Descriptor α) : List α :=
  o.nyquist.value :: o.subsystems.flatMap Subsystem.measures ++ o.movement.measures

variable {positive nonnegative positive' nonnegative' number : α → Prop}

/-- If what is positive is what passes for it and is a number, and likewise what is not negative,
then a movement is valid exactly if it passes for it and its values are numbers. -/
theorem Movement.valid_iff (hpositive : ∀ x, positive x ↔ positive' x ∧ number x)
    (hnonnegative : ∀ x, nonnegative x ↔ nonnegative' x ∧ number x) {m : Movement α} :
    m.Valid positive nonnegative ↔
      m.Valid positive' nonnegative' ∧ ∀ x ∈ m.measures, number x := by
  cases m with
  | raster r =>
    cases hv : r.velocity <;>
      simp only [Movement.Valid, Movement.measures, hv, hpositive, hnonnegative,
        Option.toList_none, Option.toList_some, List.forall_mem_append, List.mem_cons,
        List.not_mem_nil, forall_eq_or_imp, reduceCtorEq, false_implies, implies_true,
        Option.some.injEq, forall_eq', and_true] <;>
      tauto
  | _ => simp [Movement.Valid, Movement.measures]

/-- A subsystem is valid exactly if it passes for it and its values are numbers. -/
theorem Subsystem.valid_iff (hpositive : ∀ x, positive x ↔ positive' x ∧ number x)
    (hnonnegative : ∀ x, nonnegative x ↔ nonnegative' x ∧ number x) {s : Subsystem α} :
    s.Valid positive nonnegative ↔
      s.Valid positive' nonnegative' ∧ ∀ x ∈ s.measures, number x := by
  simp only [Subsystem.measures, List.mem_cons, List.not_mem_nil, or_false, forall_eq_or_imp,
    forall_eq]
  constructor
  · rintro ⟨hchannels, hbandwidth, hoverlap⟩
    rw [hpositive] at hbandwidth
    rw [hnonnegative] at hoverlap
    exact ⟨⟨hchannels, hbandwidth.1, hoverlap.1⟩, hbandwidth.2, hoverlap.2⟩
  · rintro ⟨⟨hchannels, hbandwidth, hoverlap⟩, hnumbers⟩
    exact ⟨hchannels, (hpositive _).2 ⟨hbandwidth, hnumbers.1⟩,
      (hnonnegative _).2 ⟨hoverlap, hnumbers.2⟩⟩

/-- A descriptor is valid exactly if it passes for it and its values are numbers. -/
theorem Descriptor.valid_iff (hpositive : ∀ x, positive x ↔ positive' x ∧ number x)
    (hnonnegative : ∀ x, nonnegative x ↔ nonnegative' x ∧ number x) {o : Descriptor α} :
    o.Valid positive nonnegative ↔
      o.Valid positive' nonnegative' ∧ ∀ x ∈ o.measures, number x := by
  have hsubsystems : (∀ s ∈ o.subsystems, s.Valid positive nonnegative) ↔
      (∀ s ∈ o.subsystems, s.Valid positive' nonnegative') ∧
        ∀ x ∈ o.subsystems.flatMap Subsystem.measures, number x := by
    simp only [Subsystem.valid_iff hpositive hnonnegative, List.forall_mem_flatMap, forall_and]
  simp only [Descriptor.measures, List.cons_append, List.forall_mem_cons, List.forall_mem_append]
  constructor
  · rintro ⟨hnyquist, hne, hsubsystem, hreceptors, hrepeats, hmovement⟩
    rw [hpositive] at hnyquist
    rw [hsubsystems] at hsubsystem
    rw [Movement.valid_iff hpositive hnonnegative] at hmovement
    exact ⟨⟨hnyquist.1, hne, hsubsystem.1, hreceptors, hrepeats, hmovement.1⟩,
      hnyquist.2, hsubsystem.2, hmovement.2⟩
  · rintro ⟨⟨hnyquist, hne, hsubsystem, hreceptors, hrepeats, hmovement⟩, hnumbers⟩
    exact ⟨(hpositive _).2 ⟨hnyquist, hnumbers.1⟩, hne,
      hsubsystems.2 ⟨hsubsystem, hnumbers.2.1⟩, hreceptors, hrepeats,
      (Movement.valid_iff hpositive hnonnegative).2 ⟨hmovement, hnumbers.2.2⟩⟩

end Numbers

/-! ## Binary64 -/

namespace Binary64

/-- Two numbers are compared, and with what is no number nothing is. -/
theorem not_le_iff {x y : Binary64} :
    ¬ x ≤ y ↔ y < x ∨ x.isNaN = true ∨ y.isNaN = true := by
  rw [le_iff_rank_le, lt_iff_rank_lt]
  cases x.isNaN <;> cases y.isNaN <;> simp

/-- A number does not lie below another one exactly if that one does not exceed it. -/
theorem not_lt_iff {x y : Binary64} :
    ¬ x < y ↔ y ≤ x ∨ x.isNaN = true ∨ y.isNaN = true := by
  rw [le_iff_rank_le, lt_iff_rank_lt]
  cases x.isNaN <;> cases y.isNaN <;> simp

/-- A positive number, or no number at all. -/
def PositiveOrNaN (x : Binary64) : Prop := Scalar.zero < x ∨ x.isNaN = true

/-- A number that is not negative, or no number at all. -/
def NonnegativeOrNaN (x : Binary64) : Prop := Scalar.zero ≤ x ∨ x.isNaN = true

/-- What passes for positive is positive or no number. -/
theorem passesPositive_eq : PassesPositive (α := Binary64) = PositiveOrNaN := by
  funext x
  have hzero : (Scalar.zero : Binary64).isNaN = false := by decide +kernel
  simp [PassesPositive, PositiveOrNaN, not_le_iff, hzero]

/-- What passes for not negative is not negative or no number. -/
theorem passesNonnegative_eq : PassesNonnegative (α := Binary64) = NonnegativeOrNaN := by
  funext x
  have hzero : (Scalar.zero : Binary64).isNaN = false := by decide +kernel
  simp [PassesNonnegative, NonnegativeOrNaN, not_lt_iff, hzero]

/-- A number is positive exactly if it passes for it and is a number. -/
theorem positive_iff (x : Binary64) :
    Scalar.zero < x ↔ x.PositiveOrNaN ∧ x.isNaN = false := by
  rw [PositiveOrNaN, lt_iff_rank_lt]
  cases x.isNaN <;> simp

/-- A number is not negative exactly if it passes for it and is a number. -/
theorem nonnegative_iff (x : Binary64) :
    Scalar.zero ≤ x ↔ x.NonnegativeOrNaN ∧ x.isNaN = false := by
  rw [NonnegativeOrNaN, le_iff_rank_le]
  cases x.isNaN <;> simp

end Binary64

namespace Draft

/-- Behind any calls, the descriptor is accepted that holds what they have asked for, if all of its
measures that should be positive are positive or no numbers, and likewise those that should not be
negative. The accepted descriptors whose measures are numbers are the valid ones. -/
theorem accepted_iff (movement : Movement Binary64) (switching : Switching)
    (calls : List (Call Binary64)) (o : Descriptor Binary64) :
    (((begun movement switching).after calls).build = .ok o ↔
      o.Asked movement switching calls ∧
        o.Valid Binary64.PositiveOrNaN Binary64.NonnegativeOrNaN) ∧
    (((begun movement switching).after calls).build = .ok o ∧
        (∀ x ∈ o.measures, x.isNaN = false) ↔
      o.Asked movement switching calls ∧ o.Valid (Scalar.zero < ·) (Scalar.zero ≤ ·)) := by
  have hbuild : ((begun movement switching).after calls).build = .ok o ↔
      o.Asked movement switching calls ∧
        o.Valid Binary64.PositiveOrNaN Binary64.NonnegativeOrNaN := by
    rw [build_after_eq_ok_iff, Binary64.passesPositive_eq, Binary64.passesNonnegative_eq]
  refine ⟨hbuild, ?_⟩
  rw [hbuild, Descriptor.valid_iff Binary64.positive_iff Binary64.nonnegative_iff, and_assoc]

/-- Calls that enable a receptor and add a subsystem, with a Nyquist sampling value that is no
number. -/
def unmeasured : List (Call Binary64) := [
  .subsystem ⟨⟨Scalar.whole 345796000000⟩, ⟨Scalar.whole 1000000000⟩, 2048, .zero,
    ⟨Scalar.whole 4000000000⟩⟩,
  .receptors ["H00"],
  .nyquist ⟨Binary64.indefinite⟩]

/-- A stare at its target behind these calls is accepted, and it is not valid. -/
theorem not_valid_unmeasured : ∃ o,
    ((begun (.stare ⟨[⟨.zero, .zero⟩], .zero, ⟨Scalar.whole 1⟩⟩) .position).after
      unmeasured).build = .ok o ∧ ¬ o.Valid (Scalar.zero < ·) (Scalar.zero ≤ ·) := by
  cases hbuild : ((begun (.stare ⟨[⟨.zero, .zero⟩], .zero, ⟨Scalar.whole 1⟩⟩) .position).after
      unmeasured).build with
  | error cause =>
    have haccepted : ((begun (.stare ⟨[⟨.zero, .zero⟩], .zero, ⟨Scalar.whole 1⟩⟩) .position).after
        unmeasured).build.toBool = true := by decide +kernel
    rw [hbuild] at haccepted
    cases haccepted
  | ok o =>
    have hnyquist := (build_after_eq_ok_iff.1 hbuild).1.nyquist
    refine ⟨o, rfl, fun hvalid => ?_⟩
    have hpositive := hvalid.nyquist
    rw [Option.some.inj (hnyquist.trans (show _ = some (⟨.indefinite⟩ : Arcsec Binary64) from rfl))]
      at hpositive
    revert hpositive
    decide +kernel

end Draft

end Heterodyne
