import Heterodyne.Proofs.Outcome
import Heterodyne.Proofs.Table
import Heterodyne.Spectrum.Plan
import Mathlib.Data.List.Flatten
import Mathlib.Data.List.Nodup
/-!
# Planned spectra

What every plan of subsystems is like. A subsystem is cut into the window of its own name, or into
two subbands of it, and its label names its mode; the subsystems are numbered upwards. So the
windows of a plan, hybrids included, stand in ascending order of their names.

* `yields_planSubsystem_iff`: when a subsystem can be planned, and what its plan then is.
* `wellFormed_of_yields`: plans are well-formed.
* `Plan.WellFormed.ascending_windowIds`: the windows of a well-formed plan ascend.
-/

namespace Heterodyne

open Ranked (rank)

variable {α : Type}

/-! ## Single subsystems -/

namespace Subsystem

variable [Scalar α]

/-- The number of windows that a subsystem is cut into. -/
def parts (r : Subsystem α) : UInt32 := if Scalar.zero < r.overlap.value then 2 else 1

/-- The width of a channel. -/
def channelWidth (r : Subsystem α) : Frequency α := r.bandwidth / (Scalar.ofCount r.channels : α)

/-- The channels of an overlap. -/
def overlapChannels (r : Subsystem α) : UInt32 :=
  Scalar.toCount (Scalar.round (r.overlap / r.channelWidth : α))

/-- The bandwidth of all windows together. -/
def fullBandwidth (settings : Settings α) (r : Subsystem α) : Frequency α :=
  roundBandwidth
    (r.bandwidth + r.overlap * (Scalar.whole 2 * Scalar.ofCount (r.parts - 1) : α))
    settings.bandwidthRounding

/-- The bandwidth of one window. -/
def subbandBandwidth (settings : Settings α) (r : Subsystem α) : Frequency α :=
  r.fullBandwidth settings / (Scalar.ofCount r.parts : α)

/-- The label of a window, given the channels of all windows together. -/
def label (settings : Settings α) (r : Subsystem α) (total : UInt32) : String :=
  Bandwidth.label (r.subbandBandwidth settings) (total / r.parts)

/-- The plan of a subsystem, given its number, its mode and the channels of all windows. -/
def planned (settings : Settings α) (number : UInt32) (r : Subsystem α) (total : UInt32)
    (mode : BandwidthMode) : SubsystemPlan α where
  number := number
  restFreq := r.restFreq
  ifFreq := r.ifFreq
  channelWidth := r.channelWidth
  hybridBandwidth := r.bandwidth
  hybridChannels := r.channels
  overlapChannels := r.overlapChannels
  fullBandwidth := r.fullBandwidth settings
  totalChannels := total
  subbandBandwidth := r.subbandBandwidth settings
  subbandChannels := total / r.parts
  label := r.label settings total
  mode := mode
  subbands := cutSubbands number r.parts r r.channelWidth
    (Scalar.ofCount (total / r.parts) - Scalar.whole 2 * Scalar.ofCount r.overlapChannels)
    mode.passband.park settings.lo2Step

end Subsystem

section Subsystems

variable [Scalar α] {settings : Settings α} {number : UInt32} {r : Subsystem α}
  {ss : SubsystemPlan α} {d : Bool}

/-- The steps of planning a subsystem. -/
theorem planSubsystem_eq (settings : Settings α) (number : UInt32) (r : Subsystem α) :
    planSubsystem settings number r = (do
      let total ← Run.ofCount (totalChannels r.channels r.overlapChannels r.parts)
      if total % r.parts ≠ 0 then Run.refuse (.unequalSubbands number total r.parts)
      else
        let mode ← Run.ofCheck (Bandwidth.read (r.label settings total))
        Run.ofCheck (checkPark mode (r.subbandBandwidth settings))
        let ss := r.planned settings number total mode
        Run.tellAll (ss.subbands.map Subband.tuned)
        return ss) :=
  rfl

/-- A subsystem is planned exactly if its channels can be counted and divided among its windows,
and its label names a mode that can be parked. -/
theorem yields_planSubsystem_iff :
    (planSubsystem settings number r).Yields d ss ↔
      ∃ total mode, totalChannels r.channels r.overlapChannels r.parts = .ok total ∧
        total % r.parts = 0 ∧ Bandwidth.read (α := α) (r.label settings total) = .ok mode ∧
        checkPark mode (r.subbandBandwidth settings) = .ok () ∧
        ss = r.planned settings number total mode := by
  rw [planSubsystem_eq]
  simp only [Run.yields_bind, Run.yields_ofCount]
  refine exists_congr fun total => ?_
  by_cases hdiv : total % r.parts = 0
  · rw [if_neg (not_not_intro hdiv)]
    simp only [Run.yields_bind, Run.yields_ofCheck, Run.yields_tellAll, Run.yields_pure, hdiv,
      true_and, exists_const, exists_and_left]
    refine and_congr_right fun _ => exists_congr fun mode => and_congr_right fun _ => ?_
    constructor
    · rintro ⟨_, hpark, hss⟩
      exact ⟨hpark, hss.symm⟩
    · rintro ⟨hpark, hss⟩
      exact ⟨(), hpark, hss.symm⟩
  · rw [if_pos hdiv]
    simp [hdiv]

/-- The label of a planned subsystem writes the bandwidth and the channels of its windows. -/
theorem label_of_yields (h : (planSubsystem settings number r).Yields d ss) :
    ss.label = Bandwidth.label ss.subbandBandwidth ss.subbandChannels := by
  obtain ⟨total, m, -, -, -, -, rfl⟩ := yields_planSubsystem_iff.1 h
  rfl

end Subsystems

/-! ## The shape of a cut -/

/-- A subsystem is cut into the window of its own name or into two subbands of it, and its mode is
the one that its label names. -/
structure SubsystemPlan.WellCut (ss : SubsystemPlan α) : Prop where
  ids : ss.subbands.map (·.id) = [.ofSubsystem ss.number] ∨
    ss.subbands.map (·.id) = [.ofSubband ss.number 1, .ofSubband ss.number 2]
  mode : ss.mode.name = Bandwidth.nominal ss.label

/-- The mode that is read from a label bears the label's name. -/
theorem name_eq_nominal_of_read {label : String} {mode : BandwidthMode}
    (h : Bandwidth.read (α := α) label = .ok mode) : mode.name = Bandwidth.nominal label := by
  unfold Bandwidth.read at h
  cases hmode : Bandwidth.mode? label with
  | none => simp [hmode] at h
  | some m =>
    simp only [hmode, Except.ok.injEq] at h
    rw [← h]
    simpa using List.find?_some hmode

/-- The windows of a planned subsystem are named after it. -/
theorem wellCut_of_yields [Scalar α] {settings : Settings α} {number : UInt32} {r : Subsystem α}
    {ss : SubsystemPlan α} {d : Bool} (h : (planSubsystem settings number r).Yields d ss) :
    ss.WellCut ∧ ss.number = number := by
  obtain ⟨total, mode, -, -, hmode, -, rfl⟩ := yields_planSubsystem_iff.1 h
  refine ⟨⟨?_, name_eq_nominal_of_read hmode⟩, rfl⟩
  by_cases hover : Scalar.zero < r.overlap.value
  · have hparts : r.parts = 2 := if_pos hover
    right
    simp only [Subsystem.planned, cutSubbands, hparts, List.map_map]
    rfl
  · have hparts : r.parts = 1 := if_neg hover
    left
    simp only [Subsystem.planned, cutSubbands, hparts, List.map_map]
    rfl

namespace WindowId

/-- The window of a whole subsystem comes first. -/
@[simp] theorem position_ofSubsystem (n : UInt32) : (ofSubsystem n).position = 0 := rfl

/-- A subband has its own number as its place. -/
@[simp] theorem position_ofSubband (n k : UInt32) : (ofSubband n k).position = k.toNat + 1 := rfl

end WindowId

namespace SubsystemPlan

variable {ss : SubsystemPlan α}

/-- The names of a subsystem's windows, a hybrid before its subbands. -/
def windowIds (ss : SubsystemPlan α) : List WindowId :=
  (if ss.isHybrid then [ss.id] else []) ++ ss.subbands.map (·.id)

/-- The windows of a well-cut subsystem bear its number. -/
theorem WellCut.subsystem_of_mem (h : ss.WellCut) {id : WindowId} (hid : id ∈ ss.windowIds) :
    id.subsystem = ss.number := by
  have hsub : ∀ i ∈ ss.subbands.map (·.id), i.subsystem = ss.number := by
    rcases h.ids with hids | hids <;> rw [hids] <;> simp [WindowId.ofSubsystem, WindowId.ofSubband]
  rcases List.mem_append.1 hid with hid | hid
  · split at hid
    · rw [List.mem_singleton.1 hid]
      rfl
    · exact absurd hid List.not_mem_nil
  · exact hsub id hid

/-- The windows of a well-cut subsystem ascend. -/
theorem WellCut.ascending_windowIds (h : ss.WellCut) :
    ss.windowIds.Pairwise fun a b => rank a < rank b := by
  have hlen : ss.subbands.length = (ss.subbands.map (·.id)).length := (List.length_map _).symm
  have hlt : ∀ i j : WindowId, i.subsystem = j.subsystem → i.position < j.position →
      rank i < rank j := fun i j hs hp => (WindowId.rank_lt_iff i j).2 (.inr ⟨hs, hp⟩)
  -- A subsystem of two windows is a hybrid, whose own name comes before those of the two.
  rcases h.ids with hids | hids
  · have hsingle : ss.isHybrid = false := by
      rw [isHybrid, hlen, hids]
      rfl
    rw [windowIds, hsingle, hids]
    exact List.pairwise_singleton _ _
  · have hhybrid : ss.isHybrid = true := by
      rw [isHybrid, hlen, hids]
      rfl
    rw [windowIds, hhybrid, hids, if_pos rfl, List.singleton_append]
    refine List.pairwise_cons.2 ⟨?_, List.pairwise_pair.2 (hlt _ _ rfl (by simp))⟩
    intro id hid
    simp only [List.mem_cons, List.not_mem_nil, or_false] at hid
    rcases hid with rfl | rfl <;> exact hlt _ _ rfl (by simp [SubsystemPlan.id])

end SubsystemPlan

/-! ## Plans -/

namespace Plan

variable {plan : Plan α}

/-- Every subsystem is well cut, and their numbers ascend. -/
structure WellFormed (plan : Plan α) : Prop where
  wellCut : ∀ ss ∈ plan.subsystems, ss.WellCut
  ascending : plan.subsystems.Pairwise fun a b => a.number < b.number

/-- The names of all windows, every hybrid before its subbands. -/
def windowIds (plan : Plan α) : List WindowId := plan.subsystems.flatMap SubsystemPlan.windowIds

/-- The windows that can be tuned, each with its label. -/
def leaves (plan : Plan α) : List (WindowId × String) :=
  plan.subbands.map fun w => (w.2.id, w.1.label)

/-- The subbands of a plan are those of its subsystems. -/
theorem mem_subbands_iff {ss : SubsystemPlan α} {sb : Subband α} :
    (ss, sb) ∈ plan.subbands ↔ ss ∈ plan.subsystems ∧ sb ∈ ss.subbands := by
  simp only [subbands, List.mem_flatMap, List.mem_map, Prod.mk.injEq]
  constructor
  · rintro ⟨_, hss, _, hsb, rfl, rfl⟩
    exact ⟨hss, hsb⟩
  · rintro ⟨hss, hsb⟩
    exact ⟨ss, hss, sb, hsb, rfl, rfl⟩

/-- The windows of a well-formed plan ascend. -/
theorem WellFormed.ascending_windowIds (h : plan.WellFormed) :
    plan.windowIds.Pairwise fun a b => rank a < rank b := by
  rw [windowIds, List.pairwise_flatMap]
  refine ⟨fun ss hss => (h.wellCut ss hss).ascending_windowIds, h.ascending.imp_of_mem ?_⟩
  intro s t hs ht hlt i hi j hj
  rw [WindowId.rank_lt_iff, (h.wellCut s hs).subsystem_of_mem hi,
    (h.wellCut t ht).subsystem_of_mem hj]
  exact .inl (UInt32.lt_iff_toNat_lt.1 hlt)

/-- The windows of a well-formed plan have different names. -/
theorem WellFormed.nodup_windowIds (h : plan.WellFormed) : plan.windowIds.Nodup :=
  h.ascending_windowIds.imp fun hlt heq => Nat.ne_of_lt hlt (congrArg rank heq)

/-- The names of the subbands, in order, are among the names of all windows. -/
theorem map_id_subbands_sublist (plan : Plan α) :
    (plan.subbands.map (·.2.id)).Sublist plan.windowIds := by
  have hids : plan.subbands.map (·.2.id) =
      plan.subsystems.flatMap fun ss => ss.subbands.map (·.id) := by
    simp only [subbands, List.map_flatMap, List.map_map]
    rfl
  rw [hids]
  exact List.Sublist.flatMap_right _ fun ss _ => List.sublist_append_right _ _

/-- The subbands of a well-formed plan ascend. -/
theorem WellFormed.ascending_subbands (h : plan.WellFormed) :
    plan.subbands.Pairwise fun v w => rank v.2.id < rank w.2.id := by
  have hids := h.ascending_windowIds.sublist plan.map_id_subbands_sublist
  rwa [List.pairwise_map] at hids

/-- The tunable windows of a well-formed plan ascend. -/
theorem WellFormed.ascending_leaves (h : plan.WellFormed) :
    plan.leaves.Pairwise fun v w => rank v.1 < rank w.1 :=
  List.pairwise_map.2 h.ascending_subbands

/-- Subbands of one name are one subband. -/
theorem WellFormed.subband_unique (h : plan.WellFormed) {v w : SubsystemPlan α × Subband α}
    (hv : v ∈ plan.subbands) (hw : w ∈ plan.subbands) (hid : v.2.id = w.2.id) : v = w :=
  List.inj_on_of_nodup_map (h.nodup_windowIds.sublist plan.map_id_subbands_sublist) hv hw hid

/-- The table of oscillator frequencies holds the frequency of every subband. -/
theorem WellFormed.collects_lo2ByWindow (h : plan.WellFormed) :
    plan.lo2ByWindow.Collects (·.2.id) (·.2.lo2) plan.subbands :=
  Table.collects_ofList_map _ _ _ fun _ hv _ hw hid => by rw [h.subband_unique hv hw hid]

end Plan

/-- Subsystems that are planned in a row are well cut, and their numbers ascend. -/
theorem wellFormed_of_yields_planSubsystems [Scalar α] {settings : Settings α} {number : UInt32}
    {requests : List (Subsystem α)} {sss : List (SubsystemPlan α)} {d : Bool}
    (h : (planSubsystems settings number requests).Yields d sss) :
    (∀ ss ∈ sss, number ≤ ss.number) ∧ (Plan.mk sss).WellFormed := by
  induction requests generalizing number sss with
  | nil =>
    simp only [planSubsystems, Run.yields_pure] at h
    subst h
    exact ⟨fun _ hss => absurd hss List.not_mem_nil,
      fun _ hss => absurd hss List.not_mem_nil, .nil⟩
  | cons r rest ih =>
    simp only [planSubsystems, Run.yields_bind, Run.yields_ofCount, Run.yields_pure] at h
    obtain ⟨next, hnext, first, hfirst, others, hothers, rfl⟩ := h
    obtain ⟨hcut, hnumber⟩ := wellCut_of_yields hfirst
    obtain ⟨hge, hwell⟩ := ih hothers
    have hlt : number < next := by
      rw [UInt32.lt_iff_toNat_lt, ← Count.add_eq_ok_iff.1 hnext]
      exact Nat.lt_succ_self _
    -- Numbers are counted with a check, so those behind do not start again from zero.
    have hbehind : ∀ ss ∈ others, number < ss.number := fun ss hss =>
      UInt32.lt_of_lt_of_le hlt (hge ss hss)
    refine ⟨?_, ?_, List.pairwise_cons.2 ⟨?_, hwell.ascending⟩⟩
    · intro ss hss
      rcases List.mem_cons.1 hss with rfl | hss
      · rw [hnumber]
        exact UInt32.le_refl _
      · exact UInt32.le_of_lt (hbehind ss hss)
    · intro ss hss
      rcases List.mem_cons.1 hss with rfl | hss
      · exact hcut
      · exact hwell.wellCut ss hss
    · intro ss hss
      rw [hnumber]
      exact hbehind ss hss

/-- The plan of an observation's subsystems is well-formed. -/
theorem wellFormed_of_yields [Scalar α] {settings : Settings α} {requests : List (Subsystem α)}
    {plan : Plan α} {d : Bool} (h : (Plan.ofSubsystems settings requests).Yields d plan) :
    plan.WellFormed := by
  simp only [Plan.ofSubsystems, Run.yields_bind, Run.yields_pure] at h
  obtain ⟨sss, hsss, rfl⟩ := h
  exact (wellFormed_of_yields_planSubsystems hsss).2

end Heterodyne
