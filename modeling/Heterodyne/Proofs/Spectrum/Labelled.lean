import Heterodyne.Proofs.Bandwidth.Label
import Heterodyne.Proofs.Routing.Planned
/-!
# Labelled plans

A subsystem whose channels can be counted is planned exactly if they can be divided among its
windows and the bandwidth of a window is that of a mode. Such a window can always be parked, so the
refusals that are left are for uneven windows and for bandwidths that no mode has. The label tells
the bandwidth and the channels of a planned window, so comparing labels is comparing modes.

* `yields_planSubsystem_iff_bandwidth`: when a subsystem is planned, and what its mode is.
* `label_eq_label_iff`: planned subsystems with one label.
* `planSubsystem_outcome`: what comes of a subsystem whose channels can be counted.
-/

namespace Heterodyne

variable {settings settings' : Settings Binary64} {number number' total : UInt32}
  {r r' : Subsystem Binary64} {ss ss' : SubsystemPlan Binary64} {d : Bool}

/-! ## Single subsystems -/

/-- The label of a bandwidth is read as a mode exactly if the bandwidth is that of the mode. -/
theorem read_label_iff {b : Frequency Binary64} {channels : UInt32} {m : BandwidthMode} :
    Bandwidth.read (α := Binary64) (Bandwidth.label b channels) = .ok m ↔ b = m.bandwidth :=
  Bandwidth.read_eq_ok_iff.trans Bandwidth.mode?_label_iff

/-- The passband of a mode begins within its bandwidth. -/
theorem checkPark_bandwidth (m : BandwidthMode) :
    checkPark m (m.bandwidth : Frequency Binary64) = .ok () := by
  have hlow : ¬ (m.bandwidth : Frequency Binary64).value <
      (m.passband.low : Frequency Binary64).value := by
    cases m <;> decide +kernel
  exact if_neg hlow

/-- A subsystem whose channels can be counted is planned exactly if they are divided evenly and the
bandwidth of a window is that of a mode, which is then the mode of the plan. -/
theorem yields_planSubsystem_iff_bandwidth
    (htotal : totalChannels r.channels r.overlapChannels r.parts = .ok total) :
    (planSubsystem settings number r).Yields d ss ↔
      ∃ m : BandwidthMode, total % r.parts = 0 ∧ r.subbandBandwidth settings = m.bandwidth ∧
        ss = r.planned settings number total m := by
  rw [yields_planSubsystem_iff]
  constructor
  · rintro ⟨total', m, htotal', hdiv, hread, -, rfl⟩
    obtain rfl := Except.ok.inj (htotal.symm.trans htotal')
    exact ⟨m, hdiv, read_label_iff.1 hread, rfl⟩
  · rintro ⟨m, hdiv, hbandwidth, rfl⟩
    refine ⟨total, m, htotal, hdiv, read_label_iff.2 hbandwidth, ?_, rfl⟩
    rw [hbandwidth]
    exact checkPark_bandwidth m

/-- The bandwidth of a planned subsystem's windows is that of its mode. -/
theorem subbandBandwidth_of_yields (h : (planSubsystem settings number r).Yields d ss) :
    ss.subbandBandwidth = ss.mode.bandwidth := by
  obtain ⟨total, m, -, -, hread, -, rfl⟩ := yields_planSubsystem_iff.1 h
  exact read_label_iff.1 hread

/-- A subsystem whose channels cannot be divided evenly is refused for that. -/
theorem refuses_of_uneven
    (htotal : totalChannels r.channels r.overlapChannels r.parts = .ok total)
    (hdiv : total % r.parts ≠ 0) :
    (planSubsystem settings number r).Refuses d (.unequalSubbands number total r.parts) := by
  rw [planSubsystem_eq, Run.refuses_bind]
  refine .inr ⟨total, Run.yields_ofCount.2 htotal, ?_⟩
  rw [if_pos hdiv]
  exact Run.refuses_refuse.2 rfl

/-- A subsystem with windows of another bandwidth than those of the modes is refused for that. -/
theorem refuses_of_noMode
    (htotal : totalChannels r.channels r.overlapChannels r.parts = .ok total)
    (hdiv : total % r.parts = 0)
    (hmode : ∀ m : BandwidthMode, r.subbandBandwidth settings ≠ m.bandwidth) :
    (planSubsystem settings number r).Refuses d
      (.unknownBandwidth (r.label settings total)) := by
  have hnone : Bandwidth.mode? (r.label settings total) = none :=
    Option.eq_none_iff_forall_ne_some.2 fun m h => hmode m (Bandwidth.mode?_label_iff.1 h)
  have hread : Bandwidth.read (α := Binary64) (r.label settings total) =
      .error (.unknownBandwidth (r.label settings total)) :=
    Bandwidth.read_eq_error_iff.2 hnone
  rw [planSubsystem_eq, Run.refuses_bind]
  refine .inr ⟨total, Run.yields_ofCount.2 htotal, ?_⟩
  rw [if_neg (not_not_intro hdiv), Run.refuses_bind]
  exact .inl (Run.refuses_ofCheck.2 hread)

/-! ## Two subsystems -/

/-- The names that the labels of planned subsystems have in common are those of common modes. -/
theorem nominal_eq_nominal_iff (h : (planSubsystem settings number r).Yields d ss)
    (h' : (planSubsystem settings' number' r').Yields d ss') :
    Bandwidth.nominal ss.label = Bandwidth.nominal ss'.label ↔ ss.mode = ss'.mode := by
  rw [← (wellCut_of_yields h).1.mode, ← (wellCut_of_yields h').1.mode]
  exact ⟨BandwidthMode.name_injective, congrArg _⟩

/-- Planned subsystems have one label exactly if their windows have one bandwidth and one number of
channels. -/
theorem label_eq_label_iff (h : (planSubsystem settings number r).Yields d ss)
    (h' : (planSubsystem settings' number' r').Yields d ss') :
    ss.label = ss'.label ↔
      ss.subbandBandwidth = ss'.subbandBandwidth ∧ ss.subbandChannels = ss'.subbandChannels := by
  constructor
  · intro hlabel
    have hmode := (nominal_eq_nominal_iff h h').1 (congrArg _ hlabel)
    have hbandwidth : ss.subbandBandwidth = ss'.subbandBandwidth := by
      rw [subbandBandwidth_of_yields h, subbandBandwidth_of_yields h', hmode]
    refine ⟨hbandwidth, Count.text_injective ?_⟩
    rw [label_of_yields h, label_of_yields h', hbandwidth, Bandwidth.label_eq,
      Bandwidth.label_eq] at hlabel
    have hlists := congrArg String.toList hlabel
    simp only [String.toList_append] at hlists
    exact List.append_cancel_left hlists
  · rintro ⟨hbandwidth, hchannels⟩
    rw [label_of_yields h, label_of_yields h', hbandwidth, hchannels]

/-! ## Outcomes -/

/-- A subsystem whose channels can be counted is planned exactly if they are divided evenly among
its windows and the bandwidth of a window is that of a mode, which is the mode of the plan then.
Otherwise it is refused as unrecognized, for its uneven windows or its bandwidth. And the labels of
any two planned subsystems are the same exactly if bandwidths and channels of their windows are, and
name the same exactly if the modes are the same. -/
theorem planSubsystem_outcome
    (htotal : totalChannels r.channels r.overlapChannels r.parts = .ok total) :
    ((∃ ss, (planSubsystem settings number r).Yields d ss) ↔
      total % r.parts = 0 ∧ ∃ m : BandwidthMode, r.subbandBandwidth settings = m.bandwidth) ∧
    (∀ ss, (planSubsystem settings number r).Yields d ss →
      r.subbandBandwidth settings = ss.mode.bandwidth) ∧
    ((¬ ∃ ss, (planSubsystem settings number r).Yields d ss) →
      ∃ cause, (planSubsystem settings number r).Refuses d cause ∧ cause.kind = .unrecognized ∧
        (cause = .unequalSubbands number total r.parts ∨
          cause = .unknownBandwidth (r.label settings total))) ∧
    ∀ settings' number' r' ss ss', (planSubsystem settings number r).Yields d ss →
      (planSubsystem settings' number' r').Yields d ss' →
        (ss.label = ss'.label ↔ ss.subbandBandwidth = ss'.subbandBandwidth ∧
          ss.subbandChannels = ss'.subbandChannels) ∧
        (Bandwidth.nominal ss.label = Bandwidth.nominal ss'.label ↔ ss.mode = ss'.mode) := by
  have hyields : (∃ ss, (planSubsystem settings number r).Yields d ss) ↔
      total % r.parts = 0 ∧ ∃ m : BandwidthMode, r.subbandBandwidth settings = m.bandwidth := by
    simp only [yields_planSubsystem_iff_bandwidth htotal]
    constructor
    · rintro ⟨ss, m, hdiv, hbandwidth, -⟩
      exact ⟨hdiv, m, hbandwidth⟩
    · rintro ⟨hdiv, m, hbandwidth⟩
      exact ⟨_, m, hdiv, hbandwidth, rfl⟩
  refine ⟨hyields, ?_, ?_, ?_⟩
  · intro ss hss
    obtain ⟨m, -, hbandwidth, rfl⟩ := (yields_planSubsystem_iff_bandwidth htotal).1 hss
    exact hbandwidth
  · intro hnone
    rw [hyields] at hnone
    by_cases hdiv : total % r.parts = 0
    · refine ⟨_, refuses_of_noMode htotal hdiv ?_, rfl, .inr rfl⟩
      intro m hbandwidth
      exact hnone ⟨hdiv, m, hbandwidth⟩
    · exact ⟨_, refuses_of_uneven htotal hdiv, rfl, .inl rfl⟩
  · intro settings' number' r' ss ss' h h'
    exact ⟨label_eq_label_iff h h', nominal_eq_nominal_iff h h'⟩

/-- The hybrid of 1875 MHz with an overlap of 62.5 MHz has windows of one gigahertz. -/
theorem planSubsystem_outcome_hybrid : ∃ r ∈ Routing.twoSubsystems,
    totalChannels r.channels r.overlapChannels r.parts = .ok 4096 ∧
      ∃ ss, (planSubsystem Settings.standard 1 r).Yields false ss ∧ ss.mode = .ghz1 := by
  obtain ⟨r, hr⟩ : ∃ r, r = Routing.twoSubsystems.head (by decide) := ⟨_, rfl⟩
  have htotal : totalChannels r.channels r.overlapChannels r.parts = .ok 4096 := by
    rw [hr]
    decide +kernel
  have hbandwidth : r.subbandBandwidth Settings.standard = BandwidthMode.ghz1.bandwidth := by
    rw [hr]
    decide +kernel
  have heven : (4096 : UInt32) % r.parts = 0 := by
    rw [hr]
    decide +kernel
  obtain ⟨hplanned, hmode, -, -⟩ :=
    @planSubsystem_outcome Settings.standard 1 4096 r false htotal
  obtain ⟨ss, hss⟩ := hplanned.2 ⟨heven, .ghz1, hbandwidth⟩
  refine ⟨r, hr ▸ List.head_mem _, htotal, ss, hss, ?_⟩
  have hsame := hbandwidth.symm.trans (hmode ss hss)
  revert hsame
  cases ss.mode <;> decide +kernel

end Heterodyne
