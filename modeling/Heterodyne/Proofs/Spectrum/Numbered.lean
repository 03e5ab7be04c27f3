import Heterodyne.Proofs.Spectrum.Planned
import Mathlib.Data.List.Forall2
/-!
# Subsystems in a row

Subsystems are planned one after another, but each is planned as it would be on its own, under
the number that its place in the row gives it. So what stands behind a subsystem has no influence
on its plan.

* `yields_planSubsystems_iff`: a row is planned exactly if every subsystem is, and the numbers
  suffice.
* `yields_planSubsystems_of_append`: the beginning of a row is planned as it is in the whole row.
* `cut_of_yields`: the windows of a subsystem and the channels that they share.
-/

namespace Heterodyne

variable {α : Type} [Scalar α] {settings : Settings α} {d : Bool}

/-! ## Rows -/

/-- A subsystem, which is counted from one, is planned under its number. -/
def Plans (settings : Settings α) (d : Bool) (request : Subsystem α × Nat)
    (ss : SubsystemPlan α) : Prop :=
  (planSubsystem settings (UInt32.ofNat request.2) request.1).Yields d ss

/-- Subsystems in a row are planned exactly if each of them is planned under its number, and the
number behind the last one can be counted. -/
theorem yields_planSubsystems_iff {number : UInt32} {requests : List (Subsystem α)}
    {sss : List (SubsystemPlan α)} :
    (planSubsystems settings number requests).Yields d sss ↔
      number.toNat + requests.length < 2 ^ 32 ∧
        List.Forall₂ (Plans settings d) (requests.zipIdx number.toNat) sss := by
  induction requests generalizing number sss with
  | nil =>
    rw [planSubsystems, Run.yields_pure, List.zipIdx_nil, List.forall₂_nil_left_iff]
    have hcounted := number.toNat_lt
    constructor
    · intro hnil
      exact ⟨hcounted, hnil.symm⟩
    · rintro ⟨-, hnil⟩
      exact hnil.symm
  | cons r rest ih =>
    simp only [planSubsystems, Run.yields_bind, Run.yields_ofCount, Run.yields_pure, ih,
      List.zipIdx_cons, List.forall₂_cons_left_iff, Plans, UInt32.ofNat_toNat, List.length_cons]
    constructor
    · rintro ⟨next, hnext, first, hfirst, others, ⟨hcounted, hothers⟩, rfl⟩
      have hnumber : number.toNat + 1 = next.toNat := Count.add_eq_ok_iff.1 hnext
      rw [← hnumber] at hcounted hothers
      exact ⟨by omega, first, others, hfirst, hothers, rfl⟩
    · rintro ⟨hcounted, first, others, hfirst, hothers, rfl⟩
      obtain ⟨next, hnext⟩ := Count.exists_add_eq_ok (a := number) (b := 1) (by
        rw [UInt32.toNat_one]
        omega)
      have hnumber : number.toNat + 1 = next.toNat := Count.add_eq_ok_iff.1 hnext
      refine ⟨next, hnext, first, hfirst, others, ?_, rfl⟩
      rw [← hnumber]
      exact ⟨by omega, hothers⟩

/-- Every planned subsystem is the plan of a request. -/
theorem exists_plans_of_mem {requests : List (Subsystem α × Nat)} {sss : List (SubsystemPlan α)}
    {ss : SubsystemPlan α} (h : List.Forall₂ (Plans settings d) requests sss) (hss : ss ∈ sss) :
    ∃ q ∈ requests, Plans settings d q ss := by
  induction h with
  | nil => exact absurd hss List.not_mem_nil
  | cons hfirst _ ih =>
    rcases List.mem_cons.1 hss with rfl | hss
    · exact ⟨_, List.mem_cons_self, hfirst⟩
    · obtain ⟨q, hq, hplans⟩ := ih hss
      exact ⟨q, List.mem_cons_of_mem _ hq, hplans⟩

/-- If a row is planned, its beginning is planned, and it has the same plans there. -/
theorem yields_planSubsystems_of_append {number : UInt32} {requests more : List (Subsystem α)}
    {sss : List (SubsystemPlan α)}
    (h : (planSubsystems settings number (requests ++ more)).Yields d sss) :
    ∃ before behind, (planSubsystems settings number requests).Yields d before ∧
      before ++ behind = sss := by
  rw [yields_planSubsystems_iff, List.length_append, List.zipIdx_append] at h
  obtain ⟨hcounted, hplans⟩ := h
  have hbefore := List.forall₂_take_append _ _ _ hplans.flip
  refine ⟨sss.take (requests.zipIdx number.toNat).length,
    sss.drop (requests.zipIdx number.toNat).length, ?_, List.take_append_drop _ _⟩
  exact yields_planSubsystems_iff.2 ⟨by omega, hbefore.flip⟩

/-- A planned row has as many subsystems as were asked for. -/
theorem length_of_yields_planSubsystems {number : UInt32} {requests : List (Subsystem α)}
    {sss : List (SubsystemPlan α)}
    (h : (planSubsystems settings number requests).Yields d sss) :
    sss.length = requests.length := by
  rw [← (yields_planSubsystems_iff.1 h).2.length_eq, List.length_zipIdx]

/-! ## Plans of observations -/

/-- The plan of an observation holds the plans of its subsystems, which are counted from one. -/
theorem yields_ofSubsystems_iff {requests : List (Subsystem α)} {plan : Plan α} :
    (Plan.ofSubsystems settings requests).Yields d plan ↔
      (planSubsystems settings 1 requests).Yields d plan.subsystems := by
  simp only [Plan.ofSubsystems, Run.yields_bind, Run.yields_pure]
  constructor
  · rintro ⟨sss, hsss, rfl⟩
    exact hsss
  · intro h
    exact ⟨_, h, rfl⟩

/-- A plan has as many subsystems as were asked for. -/
theorem length_of_yields_ofSubsystems {requests : List (Subsystem α)} {plan : Plan α}
    (h : (Plan.ofSubsystems settings requests).Yields d plan) :
    plan.subsystems.length = requests.length :=
  length_of_yields_planSubsystems (yields_ofSubsystems_iff.1 h)

/-! ## Windows and channels -/

/-- A subsystem with an overlap is cut into two subbands, which share its channels and those of
the overlap at both of their ends. Another one is a single window with all of its channels. -/
theorem cut_of_yields {number : UInt32} {r : Subsystem α} {ss : SubsystemPlan α}
    (h : (planSubsystem settings number r).Yields d ss) :
    (Scalar.zero < r.overlap.value ∧ (∃ a b, ss.subbands = [a, b]) ∧
      ss.hybridChannels.toNat + 2 * ss.overlapChannels.toNat =
        ss.subbandChannels.toNat + ss.subbandChannels.toNat) ∨
    (¬ Scalar.zero < r.overlap.value ∧ (∃ a, ss.subbands = [a] ∧ a.id = ss.id) ∧
      ss.subbandChannels = ss.hybridChannels) := by
  obtain ⟨total, mode, htotal, hdiv, -, -, rfl⟩ := yields_planSubsystem_iff.1 h
  simp only [totalChannels, check_bind_eq_ok] at htotal
  obtain ⟨twice, htwice, further, hfurther, overlaps, hoverlaps, hsum⟩ := htotal
  rw [Count.mul_eq_ok_iff] at htwice hoverlaps
  rw [Count.sub_eq_ok_iff] at hfurther
  rw [Count.add_eq_ok_iff] at hsum
  by_cases hover : Scalar.zero < r.overlap.value
  · have hparts : r.parts = 2 := if_pos hover
    refine .inl ⟨hover, ?_, ?_⟩
    · simp only [Subsystem.planned, cutSubbands, hparts]
      exact ⟨_, _, rfl⟩
    · -- The total is even, so nothing is lost by halving it.
      have htwo : (2 : UInt32).toNat = 2 := rfl
      rw [hparts, ← UInt32.toNat_inj, UInt32.toNat_mod, htwo] at hdiv
      rw [hparts, htwo, UInt32.toNat_one] at hfurther
      show r.channels.toNat + 2 * r.overlapChannels.toNat =
        (total / r.parts).toNat + (total / r.parts).toNat
      rw [hparts, UInt32.toNat_div, htwo]
      rw [htwo] at htwice
      have hone : further.toNat = 1 := by omega
      rw [hone] at hoverlaps
      have hrest : total.toNat % 2 = 0 := hdiv
      omega
  · have hparts : r.parts = 1 := if_neg hover
    refine .inr ⟨hover, ?_, ?_⟩
    · simp only [Subsystem.planned, cutSubbands, hparts]
      exact ⟨_, rfl, rfl⟩
    · rw [hparts, UInt32.toNat_one] at hfurther
      have hnone : further.toNat = 0 := by omega
      rw [hnone] at hoverlaps
      show total / r.parts = r.channels
      rw [hparts, ← UInt32.toNat_inj, UInt32.toNat_div, UInt32.toNat_one, Nat.div_one]
      omega

end Heterodyne
