import Heterodyne.Proofs.Spectrum.Planned
/-!
# When planning overflows

Subsystems are planned one after another, so planning breaks off at the first subsystem that has
too many channels or no number left, if all subsystems before it can be planned.

* `breaksOff_planSubsystem_iff`: one subsystem breaks off if its channels overflow.
* `breaksOff_ofSubsystems_iff`: where the plan of an observation breaks off.
-/

namespace Heterodyne

variable {α : Type} [Scalar α] {settings : Settings α} {d : Bool}

/-! ## Channels -/

/-- The channels of all windows together, or of the overlaps alone, are too many to be counted. -/
def Subsystem.Overflows (r : Subsystem α) : Prop :=
  2 ^ 32 ≤ 2 * r.overlapChannels.toNat ∨
    2 ^ 32 ≤ r.channels.toNat + 2 * r.overlapChannels.toNat * (r.parts.toNat - 1)

/-- A subsystem has one part or two, and less one part none or one. -/
theorem Subsystem.exists_sub_parts (r : Subsystem α) :
    ∃ further : UInt32, Count.sub r.parts 1 = .ok further ∧
      further.toNat = r.parts.toNat - 1 ∧ further.toNat ≤ 1 := by
  unfold parts
  split
  · exact ⟨1, rfl, rfl, by decide⟩
  · exact ⟨0, rfl, rfl, by decide⟩

/-- Counting the channels fails exactly if they overflow. -/
theorem fails_totalChannels_iff (r : Subsystem α) :
    Count.Fails (totalChannels r.channels r.overlapChannels r.parts) ↔ r.Overflows := by
  obtain ⟨further, hsub, hfurther, hle⟩ := r.exists_sub_parts
  have htwo : (2 : UInt32).toNat = 2 := rfl
  unfold totalChannels Subsystem.Overflows
  rw [← hfurther]
  rcases Nat.lt_or_ge (2 * r.overlapChannels.toNat) (2 ^ 32) with hlt | hge
  · -- With one further part at most, the product of all is as small as the first one.
    obtain ⟨twice, htwice⟩ := Count.exists_mul_eq_ok (a := 2) (b := r.overlapChannels) hlt
    have htoNat : 2 * r.overlapChannels.toNat = twice.toNat := Count.mul_eq_ok_iff.1 htwice
    have hfew : twice.toNat * further.toNat ≤ twice.toNat * 1 := Nat.mul_le_mul_left _ hle
    obtain ⟨overlaps, hoverlaps⟩ := Count.exists_mul_eq_ok (a := twice) (b := further) (by omega)
    have hproduct := Count.mul_eq_ok_iff.1 hoverlaps
    rw [htwice, Count.ok_bind, hsub, Count.ok_bind, hoverlaps, Count.ok_bind, Count.fails_add,
      htoNat, hproduct]
    omega
  · rw [Count.fails_bind, Count.fails_mul, htwo]
    exact iff_of_true (.inl hge) (.inl hge)

/-! ## Subsystems -/

/-- Planning a subsystem breaks off exactly if its channels overflow. -/
theorem breaksOff_planSubsystem_iff {number : UInt32} {r : Subsystem α} :
    (planSubsystem settings number r).BreaksOff d ↔ r.Overflows := by
  rw [planSubsystem_eq, Run.breaksOff_bind, Run.breaksOff_ofCount, fails_totalChannels_iff]
  refine or_iff_left ?_
  rintro ⟨total, -, hrest⟩
  split at hrest
  · exact Run.not_breaksOff_refuse hrest
  · simp only [Run.breaksOff_bind, Run.not_breaksOff_ofCheck, Run.not_breaksOff_tellAll,
      Run.not_breaksOff_pure, and_false, exists_false, or_false] at hrest

/-- A subsystem can be planned: its channels can be counted and divided among its windows, and
its label names a mode that can be parked. -/
def Subsystem.Plannable (settings : Settings α) (r : Subsystem α) : Prop :=
  ∃ total mode, totalChannels r.channels r.overlapChannels r.parts = .ok total ∧
    total % r.parts = 0 ∧ Bandwidth.read (α := α) (r.label settings total) = .ok mode ∧
    checkPark mode (r.subbandBandwidth settings) = .ok ()

/-- A subsystem is planned exactly if it can be, whatever its number. -/
theorem exists_yields_planSubsystem_iff {number : UInt32} {r : Subsystem α} :
    (∃ ss, (planSubsystem settings number r).Yields d ss) ↔ r.Plannable settings := by
  constructor
  · rintro ⟨ss, h⟩
    obtain ⟨total, mode, htotal, hdiv, hmode, hpark, -⟩ := yields_planSubsystem_iff.1 h
    exact ⟨total, mode, htotal, hdiv, hmode, hpark⟩
  · rintro ⟨total, mode, htotal, hdiv, hmode, hpark⟩
    exact ⟨_, yields_planSubsystem_iff.2 ⟨total, mode, htotal, hdiv, hmode, hpark, rfl⟩⟩

/-! ## Subsystems in a row -/

/-- Behind subsystems that can be planned comes one whose number is the last count, or whose
channels overflow. The first subsystem has the given number. -/
def PlanningOverflows (settings : Settings α) (number : UInt32)
    (requests : List (Subsystem α)) : Prop :=
  ∃ before r after, requests = before ++ r :: after ∧ (∀ q ∈ before, q.Plannable settings) ∧
    (2 ^ 32 ≤ number.toNat + before.length + 1 ∨ r.Overflows)

/-- No subsystems do not overflow. -/
theorem not_planningOverflows_nil {number : UInt32} :
    ¬ PlanningOverflows settings number ([] : List (Subsystem α)) := by
  rintro ⟨before, r, after, hnil, -⟩
  cases before <;> cases hnil

/-- A row overflows at its first subsystem, or behind it. -/
theorem planningOverflows_cons_iff {number : UInt32} {r : Subsystem α} {rest : List (Subsystem α)} :
    PlanningOverflows settings number (r :: rest) ↔
      (2 ^ 32 ≤ number.toNat + 1 ∨ r.Overflows) ∨
        ∃ next, Count.add number 1 = .ok next ∧ r.Plannable settings ∧
          PlanningOverflows settings next rest := by
  constructor
  · rintro ⟨before, q, after, heq, hbefore, hover⟩
    cases before with
    | nil =>
      obtain ⟨rfl, rfl⟩ := List.cons.inj heq
      exact .inl hover
    | cons p before =>
      obtain ⟨rfl, rfl⟩ := List.cons.inj heq
      rcases Nat.lt_or_ge (number.toNat + 1) (2 ^ 32) with hlt | hge
      · obtain ⟨next, hnext⟩ := Count.exists_add_eq_ok (a := number) (b := 1) hlt
        have hnumber : number.toNat + 1 = next.toNat := Count.add_eq_ok_iff.1 hnext
        refine .inr ⟨next, hnext, hbefore r List.mem_cons_self, before, q, after, rfl, ?_, ?_⟩
        · exact fun s hs => hbefore s (List.mem_cons_of_mem _ hs)
        · rw [← hnumber, Nat.add_assoc _ 1, Nat.add_comm 1]
          exact hover
      · exact .inl (.inl hge)
  · rintro (hfirst | ⟨next, hnext, hr, before, q, after, rfl, hbefore, hover⟩)
    · exact ⟨[], r, rest, rfl, fun _ hq => absurd hq List.not_mem_nil, hfirst⟩
    · have hnumber : number.toNat + 1 = next.toNat := Count.add_eq_ok_iff.1 hnext
      refine ⟨r :: before, q, after, rfl, List.forall_mem_cons.2 ⟨hr, hbefore⟩, ?_⟩
      rw [← hnumber, Nat.add_assoc _ 1, Nat.add_comm 1] at hover
      exact hover

/-- Planning subsystems in a row breaks off exactly if they overflow. -/
theorem breaksOff_planSubsystems_iff {number : UInt32} {requests : List (Subsystem α)} :
    (planSubsystems settings number requests).BreaksOff d ↔
      PlanningOverflows settings number requests := by
  induction requests generalizing number with
  | nil => simp [planSubsystems, not_planningOverflows_nil]
  | cons r rest ih =>
    rw [planningOverflows_cons_iff]
    simp only [planSubsystems, Run.breaksOff_bind, Run.breaksOff_ofCount, Count.fails_add,
      Run.yields_ofCount, breaksOff_planSubsystem_iff, Run.not_breaksOff_pure, and_false,
      exists_false, or_false, ih]
    constructor
    · rintro (hlast | ⟨next, hnext, hr | ⟨ss, hss, hrest⟩⟩)
      · exact .inl (.inl hlast)
      · exact .inl (.inr hr)
      · exact .inr ⟨next, hnext, exists_yields_planSubsystem_iff.1 ⟨ss, hss⟩, hrest⟩
    · rintro ((hlast | hr) | ⟨next, hnext, hr, hrest⟩)
      · exact .inl hlast
      · rcases Nat.lt_or_ge (number.toNat + 1) (2 ^ 32) with hlt | hge
        · obtain ⟨next, hnext⟩ := Count.exists_add_eq_ok (a := number) (b := 1) hlt
          exact .inr ⟨next, hnext, .inl hr⟩
        · exact .inl hge
      · obtain ⟨ss, hss⟩ := exists_yields_planSubsystem_iff.2 hr
        exact .inr ⟨next, hnext, .inr ⟨ss, hss, hrest⟩⟩

/-- The plan of an observation's subsystems breaks off exactly if they overflow. -/
theorem breaksOff_ofSubsystems_iff {requests : List (Subsystem α)} :
    (Plan.ofSubsystems settings requests).BreaksOff d ↔ PlanningOverflows settings 1 requests := by
  rw [Plan.ofSubsystems, Run.breaksOff_bind, breaksOff_planSubsystems_iff]
  simp

end Heterodyne
