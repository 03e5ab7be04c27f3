import Heterodyne.Proofs.Routing.Planned
import Heterodyne.Proofs.Spectrum.WindowName
/-!
# Looking up windows

The subbands of a planned spectrum are listed in the order of their names. So it makes no difference
whether they are taken as a list, sorted, put into a table or searched: each name leads to one
subband, and every subband is found. The name of a hybrid as a whole leads to none.

* `WindowId.before_iff_rank_lt`: the order by which windows are sorted, in words.
* `Plan.WellFormed.entries_lo2ByWindow`: the table of oscillator frequencies is the list of subbands.
* `Plan.WellFormed.subband?_eq_some_iff`: what is found under a name.
* `indexed_of_yields`: a planned spectrum is indexed by the names of its subbands.
-/

namespace Heterodyne

open Ranked (rank)

variable {α : Type}

/-- A window of an earlier subsystem comes before, and within one subsystem the whole of it before
the first subband and this before the second. -/
def WindowId.Before (a b : WindowId) : Prop :=
  a.subsystem < b.subsystem ∨ (a.subsystem = b.subsystem ∧ a.position < b.position)

/-- Windows are sorted by subsystem and then by position. -/
theorem WindowId.before_iff_rank_lt {a b : WindowId} : a.Before b ↔ rank a < rank b := by
  rw [Before, rank_lt_iff, UInt32.lt_iff_toNat_lt]

/-- The name of a hybrid is that of none of its subbands. -/
theorem SubsystemPlan.WellCut.id_notMem {ss : SubsystemPlan α} (h : ss.WellCut)
    (hhybrid : ss.isHybrid = true) : ss.id ∉ ss.subbands.map (·.id) := by
  have hids := h.ascending_windowIds
  rw [SubsystemPlan.windowIds, if_pos hhybrid, List.singleton_append, List.pairwise_cons] at hids
  exact fun hmem => Nat.lt_irrefl _ (hids.1 _ hmem)

namespace Plan

variable {plan : Plan α} {id : WindowId}

/-- The subbands of a plan are indexed by their names: in the order of the plan the names ascend,
and lists, tables and searches by name all lead to the subbands of the plan. -/
structure Indexed (plan : Plan α) : Prop where
  ascending : plan.subbands.Pairwise fun v w => v.2.id.Before w.2.id
  /-- Sorting the windows for the routing leaves them where they are. -/
  sorted : Routing.windows plan = plan.subbands.map fun w => (w.2.id, w.1.label)
  /-- The table of oscillator frequencies has one entry for every subband. -/
  lo2 : plan.lo2ByWindow.entries = plan.subbands.map fun w => (w.2.id, w.2.lo2)
  found : ∀ id ss sb, plan.subband? id = some (ss, sb) ↔
    ss ∈ plan.subsystems ∧ sb ∈ ss.subbands ∧ sb.id = id
  parents : ∀ ss ∈ plan.subsystems, ss.isHybrid = true → plan.subband? ss.id = none
  /-- Hybrids and subbands are printed under different names. -/
  names : (plan.windowIds.map WindowId.name).Nodup

/-- The table of oscillator frequencies has an entry for every subband, in the order of the plan. -/
theorem WellFormed.entries_lo2ByWindow (h : plan.WellFormed) :
    plan.lo2ByWindow.entries = plan.subbands.map fun w => (w.2.id, w.2.lo2) := by
  have hascending : (plan.subbands.map fun w => (w.2.id, w.2.lo2)).Pairwise
      fun a b => rank a.1 < rank b.1 := List.pairwise_map.2 h.ascending_subbands
  rw [lo2ByWindow, Table.ofList_of_ascending hascending]

/-- A name leads to the one subband that bears it. -/
theorem WellFormed.subband?_eq_some_iff (h : plan.WellFormed)
    {w : SubsystemPlan α × Subband α} :
    plan.subband? id = some w ↔ w ∈ plan.subbands ∧ w.2.id = id := by
  constructor
  · exact subband?_some
  · rintro ⟨hw, rfl⟩
    obtain ⟨v, hv⟩ : ∃ v, plan.subband? w.2.id = some v := by
      rw [← Option.isSome_iff_exists, subband?, List.find?_isSome]
      exact ⟨w, hw, beq_self_eq_true _⟩
    obtain ⟨hmem, hid⟩ := subband?_some hv
    rw [hv, h.subband_unique hmem hw hid]

/-- Subsystems of one number are one subsystem. -/
theorem WellFormed.subsystem_unique (h : plan.WellFormed) {s t : SubsystemPlan α}
    (hs : s ∈ plan.subsystems) (ht : t ∈ plan.subsystems) (hnumber : s.number = t.number) :
    s = t := by
  have hnodup : (plan.subsystems.map (·.number)).Nodup :=
    List.pairwise_map.2 (h.ascending.imp fun hlt => UInt32.ne_of_lt hlt)
  exact List.inj_on_of_nodup_map hnodup hs ht hnumber

/-- No subband bears the name of a hybrid. -/
theorem WellFormed.subband?_id_eq_none (h : plan.WellFormed) {ss : SubsystemPlan α}
    (hss : ss ∈ plan.subsystems) (hhybrid : ss.isHybrid = true) : plan.subband? ss.id = none := by
  rw [Option.eq_none_iff_forall_ne_some]
  rintro ⟨t, sb⟩ hfound
  obtain ⟨hmem, hid⟩ := subband?_some hfound
  obtain ⟨ht, hsb⟩ := mem_subbands_iff.1 hmem
  have hsb' : sb.id ∈ t.subbands.map (·.id) := List.mem_map_of_mem hsb
  -- The name tells the number, so the subband would be one of the hybrid itself.
  have hnumber : sb.id.subsystem = t.number :=
    (h.wellCut t ht).subsystem_of_mem (List.mem_append_right _ hsb')
  obtain rfl := h.subsystem_unique ht hss (hnumber.symm.trans (congrArg _ hid))
  exact (h.wellCut t ht).id_notMem hhybrid (hid ▸ hsb')

/-- A well-formed plan is indexed by the names of its subbands. -/
theorem WellFormed.indexed (h : plan.WellFormed) : plan.Indexed where
  ascending := h.ascending_subbands.imp WindowId.before_iff_rank_lt.2
  sorted := Routing.windows_eq_leaves h
  lo2 := h.entries_lo2ByWindow
  found id ss sb := by rw [h.subband?_eq_some_iff, mem_subbands_iff, and_assoc]
  parents _ := h.subband?_id_eq_none
  names := h.nodup_windowIds.map fun _ _ => WindowId.name_injective

end Plan

/-- The subbands of a planned spectrum are indexed by their names: these ascend, so sorting leaves the
subbands in their order, their frequencies make up the table of frequencies one by one, and a search
by name finds the subband that bears it and none for a hybrid. The printed name tells the window. -/
theorem indexed_of_yields [Scalar α] {settings : Settings α} {requests : List (Subsystem α)}
    {plan : Plan α} {d : Bool} (h : (Plan.ofSubsystems settings requests).Yields d plan) :
    plan.Indexed ∧ ∀ a b : WindowId, a ≠ b → a.name ≠ b.name :=
  ⟨(wellFormed_of_yields h).indexed, fun _ _ hne hname => hne (WindowId.name_injective hname)⟩

/-- Hybrids and single windows in turn, so many that their names no longer ascend as texts. -/
def tenSubsystems : List (Subsystem Binary64) := (List.replicate 5 Routing.twoSubsystems).flatten

/-- The tenth subsystem stands at the end of the table of frequencies and is found in the plan, and
the ninth is a hybrid, which is not. -/
theorem indexed_tenSubsystems :
    ∃ plan, (Plan.ofSubsystems Settings.standard tenSubsystems).Yields false plan ∧
      plan.Indexed ∧ (plan.lo2ByWindow.keys.map WindowId.name).getLast? = some "SPW10" ∧
      plan.subband? (.ofSubsystem 9) = none ∧
      ∃ ss sb, plan.subband? (.ofSubsystem 10) = some (ss, sb) ∧ ss.label = "250MHzx8192" := by
  have hplan : ∃ plan, (Plan.ofSubsystems Settings.standard tenSubsystems).Yields false plan ∧
      (plan.subbands.getLast?.map fun w => (w.2.id, w.1.label),
        (plan.subsystems.filter (·.isHybrid)).getLast?.map (·.id)) =
      (some (.ofSubsystem 10, "250MHzx8192"), some (.ofSubsystem 9)) :=
    Run.exists_yields_of_toOption (by decide +kernel)
  obtain ⟨plan, hplan, hparts⟩ := hplan
  simp only [Prod.mk.injEq, Option.map_eq_some_iff] at hparts
  obtain ⟨⟨⟨ss, sb⟩, hlast, hid, hlabel⟩, t, ht, htid⟩ := hparts
  obtain ⟨hindexed, -⟩ := indexed_of_yields hplan
  obtain ⟨hss, hsb⟩ := Plan.mem_subbands_iff.1 (List.mem_of_getLast? hlast)
  obtain ⟨ht, hhybrid⟩ := List.mem_filter.1 (List.mem_of_getLast? ht)
  refine ⟨plan, hplan, hindexed, ?_, ?_, ss, sb, ?_, hlabel⟩
  · rw [Table.keys, hindexed.lo2, List.map_map, List.map_map, List.getLast?_map, hlast]
    exact congrArg (some ∘ WindowId.name) hid
  · rw [← htid]
    exact hindexed.parents t ht hhybrid
  · exact (hindexed.found _ ss sb).2 ⟨hss, hsb, hid⟩

end Heterodyne
