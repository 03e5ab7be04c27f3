import Heterodyne.Proofs.Routing.Outcome
/-!
# Routing a planned spectrum

The windows of a planned spectrum that can be tuned are taken in their order, and whether they
can be routed depends on which receptors are enabled, but neither on their order nor on
repetitions.

* `planned_outcome`: receptors are routed exactly if they are routable, and otherwise the first
  one that is not routable behind those before it is at fault.
* `states_of_fewer`: fewer receptors are routed if all are, in the same states.
-/

namespace Heterodyne

namespace Routing

open Ranked (rank)

variable {α : Type}

/-! ## Windows in order -/

/-- The tunable windows of a well-formed plan are routed in their order. -/
theorem windows_eq_leaves {plan : Plan α} (h : plan.WellFormed) : windows plan = plan.leaves := by
  have hsorted : plan.leaves.Pairwise fun v w => decide (rank v.1 ≤ rank w.1) = true :=
    h.ascending_leaves.imp fun hlt => decide_eq_true (Nat.le_of_lt hlt)
  exact List.mergeSort_of_pairwise hsorted

/-- Receptors that the windows of a well-formed plan can be routed through are routed. -/
theorem exists_yields_of_routable {plan : Plan α} {wiring : Wiring} {rs : List Receptor} {d : Bool}
    (h : plan.WellFormed) (hroutable : Routable wiring plan.leaves rs) :
    ∃ r, (ofPlan plan wiring rs).Yields d r := by
  rw [← windows_eq_leaves h] at hroutable
  exact exists_yields_ofPlan_iff.2 hroutable

/-- Routings of a well-formed plan serve its windows in their order. -/
theorem Serves.assignments_eq {plan : Plan α} {wiring : Wiring} {rs : List Receptor}
    {r : Routing α} (hserves : r.Serves plan wiring rs) (h : plan.WellFormed) :
    r.assignments = demanded wiring plan.leaves rs := by
  rw [hserves.assignments, windows_eq_leaves h]

/-! ## Success and failure -/

/-- The tunable windows of a planned spectrum ascend. Receptors are routed exactly if they are
routable, and are then given what they ask for. Otherwise they are refused because of the first
one that is not routable behind those before it. -/
theorem planned_outcome [Scalar α] {settings : Settings α} {requests : List (Subsystem α)}
    {plan : Plan α} {d : Bool} (h : (Plan.ofSubsystems settings requests).Yields d plan)
    (wiring : Wiring) (rs : List Receptor) (e : Bool) :
    (plan.leaves.Pairwise fun v w => rank v.1 < rank w.1) ∧
    ((∃ r, (ofPlan plan wiring rs).Yields e r) ↔ Routable wiring plan.leaves rs) ∧
    (∀ r, (ofPlan plan wiring rs).Yields e r →
      r.assignments = demanded wiring plan.leaves rs) ∧
    (¬ Routable wiring plan.leaves rs →
      ∃ routed q behind cause, rs = routed ++ q :: behind ∧
        Routable wiring plan.leaves routed ∧ ¬ Routable wiring plan.leaves (routed ++ [q]) ∧
        (ofPlan plan wiring rs).Refuses e cause ∧
        Obstructed wiring plan.leaves.length q cause) := by
  have hwell := wellFormed_of_yields h
  rw [← windows_eq_leaves hwell]
  refine ⟨?_, exists_yields_ofPlan_iff, ?_, exists_refuses_ofPlan⟩
  · rw [windows_eq_leaves hwell]
    exact hwell.ascending_leaves
  · intro r hr
    exact (yields_ofPlan hr).2.assignments

/-- A hybrid of two subbands, and a subsystem of one window. -/
def twoSubsystems : List (Subsystem Binary64) :=
  [⟨⟨.ofNat 345796000000⟩, ⟨.ofNat 1875000000⟩, 3840, ⟨.ofNat 62500000⟩, ⟨.ofNat 4000000000⟩⟩,
    ⟨⟨.ofNat 345796000000⟩, ⟨.ofNat 250000000⟩, 8192, ⟨.ofNat 0⟩, ⟨.ofNat 4000000000⟩⟩]

/-- Two receptors with four slots each, which share their synthesizers. -/
def twoReceptors : Wiring :=
  .ofList [("H00", [0, 1, 2, 3].map fun s => ⟨s, s, s, "1GHzx2048", s⟩),
    ("H01", [0, 1, 2, 3].map fun s => ⟨4 + s, 4 + s, 4 + s, "1GHzx2048", s⟩)]

/-- The tunable windows of the two subsystems. -/
theorem exists_plan_twoSubsystems :
    ∃ plan, (Plan.ofSubsystems Settings.standard twoSubsystems).Yields false plan ∧
      plan.leaves = [(.ofSubband 1 1, "1GHzx2048"), (.ofSubband 1 2, "1GHzx2048"),
        (.ofSubsystem 2, "250MHzx8192")] :=
  Run.exists_yields_of_toOption (by decide +kernel)

/-- Both receptors are routed, and a third one that is not wired is refused. -/
theorem planned_outcome_twoReceptors :
    ∃ plan, (Plan.ofSubsystems Settings.standard twoSubsystems).Yields false plan ∧
      (∃ r, (ofPlan plan twoReceptors ["H00", "H01"]).Yields false r) ∧
      (ofPlan plan twoReceptors ["H02", "H00"]).Refuses false (.unknownReceptor "H02") := by
  obtain ⟨plan, hplan, hleaves⟩ := exists_plan_twoSubsystems
  obtain ⟨-, hiff, -, -⟩ := planned_outcome hplan twoReceptors ["H00", "H01"] false
  obtain ⟨-, -, -, hrefuses⟩ := planned_outcome hplan twoReceptors ["H02", "H00"] false
  rw [hleaves] at hiff hrefuses
  refine ⟨plan, hplan, hiff.2 (by decide +kernel), ?_⟩
  obtain ⟨routed, q, behind, cause, hrs, hrouted, -, hcause, hobstructed⟩ :=
    hrefuses (by decide +kernel)
  cases routed with
  | nil =>
    obtain ⟨rfl, -⟩ := List.cons.inj hrs
    have hunwired : twoReceptors.slots? "H02" = none := by decide +kernel
    simp only [Obstructed, hunwired] at hobstructed
    rw [← hobstructed]
    exact hcause
  | cons p rest =>
    obtain ⟨rfl, -⟩ := List.cons.inj hrs
    obtain ⟨slots, hslots, -⟩ := hrouted.served "H02" List.mem_cons_self
    cases (show twoReceptors.slots? "H02" = none by decide +kernel).symm.trans hslots

/-! ## Fewer receptors -/

/-- One routing is part of another: modules, down-converters and synthesizers have the states that
they have in the other routing, and so do the quadrants in use. -/
structure IsPartOf (r' r : Routing α) : Prop where
  modules : r'.claims.moduleModes.IsPartOf r.claims.moduleModes
  converters : r'.claims.converterBandwidths.IsPartOf r.claims.converterBandwidths
  synths : r'.claims.synthWindows.IsPartOf r.claims.synthWindows
  lo2 : r'.lo2.IsPartOf r.lo2
  quadrants : ∀ a ∈ r'.assignments,
    r'.claims.quadrantModes.get? a.slot.quadrant = r.claims.quadrantModes.get? a.slot.quadrant

section Fewer

variable {plan : Plan α} {wiring : Wiring} {rs rs' : List Receptor} {r r' : Routing α}

/-- A routing with fewer assignments of windows that have the same frequencies is part of the
other one. -/
theorem Serves.isPartOf_of_subset {plan' : Plan α} (h : r.Serves plan wiring rs)
    (h' : r'.Serves plan' wiring rs') (hmem : ∀ a ∈ r'.assignments, a ∈ r.assignments)
    (hfreq : plan'.lo2ByWindow.IsPartOf plan.lo2ByWindow) : r'.IsPartOf r := by
  have hsynths := h'.synths.isPartOf h.synths hmem
  refine ⟨h'.modules.isPartOf h.modules hmem, h'.converters.isPartOf h.converters hmem,
    hsynths, ?_, ?_⟩
  · intro s f hf
    rw [h'.lo2, Option.bind_eq_some_iff] at hf
    obtain ⟨w, hw, hf⟩ := hf
    rw [h.lo2, hsynths s w hw]
    exact hfreq w f hf
  · intro a ha
    rw [h'.quadrant ha, h.quadrant (hmem a ha)]

/-- A routing of fewer receptors is part of a routing of all. -/
theorem Serves.isPartOf (h : r.Serves plan wiring rs) (h' : r'.Serves plan wiring rs')
    (hsub : ∀ q ∈ rs', q ∈ rs) : r'.IsPartOf r := by
  refine h.isPartOf_of_subset h' ?_ fun _ _ hf => hf
  rw [h.assignments, h'.assignments]
  exact demanded_subset hsub

/-- Routings of the same receptors put the hardware into the same states. -/
theorem Serves.same_states (h : r.Serves plan wiring rs) (h' : r'.Serves plan wiring rs')
    (hsame : ∀ q, q ∈ rs ↔ q ∈ rs') : r.claims = r'.claims ∧ r.lo2 = r'.lo2 := by
  have hclaims : r.claims = r'.claims := by
    obtain ⟨c, hc, hr⟩ := h.claims
    obtain ⟨c', hc', hr'⟩ := h'.claims
    rw [h.assignments] at hc
    rw [h'.assignments] at hc'
    -- Both routings record the same assignments, in another order and number.
    rw [hr, hr', hc.eq_of_mem_iff hc' fun a => ⟨demanded_subset (fun q => (hsame q).1) a,
      demanded_subset (fun q => (hsame q).2) a⟩]
  refine ⟨hclaims, ?_⟩
  apply Table.ext
  intro s
  rw [h.lo2, h'.lo2, hclaims]

/-- If receptors are routed, so are fewer of them, in any order and with any repetitions, and
their routing is part of the routing of all. The same receptors put the hardware into the same
states. -/
theorem states_of_fewer (plan : Plan α) (wiring : Wiring) (rs rs' : List Receptor) (d : Bool) :
    ((∀ q ∈ rs', q ∈ rs) → ∀ r, (ofPlan plan wiring rs).Yields d r →
      ∃ r', (ofPlan plan wiring rs').Yields d r' ∧ r'.IsPartOf r) ∧
    ((∀ q, q ∈ rs ↔ q ∈ rs') →
      ((∃ r, (ofPlan plan wiring rs).Yields d r) ↔
        ∃ r', (ofPlan plan wiring rs').Yields d r') ∧
      ∀ r r', (ofPlan plan wiring rs).Yields d r → (ofPlan plan wiring rs').Yields d r' →
        r.claims = r'.claims ∧ r.lo2 = r'.lo2) := by
  constructor
  · intro hsub r hr
    obtain ⟨hroutable, hserves⟩ := yields_ofPlan hr
    obtain ⟨r', hr'⟩ := exists_yields_ofPlan_iff.2 (hroutable.mono hsub)
    exact ⟨r', hr', hserves.isPartOf (yields_ofPlan hr').2 hsub⟩
  · intro hsame
    refine ⟨?_, ?_⟩
    · rw [exists_yields_ofPlan_iff, exists_yields_ofPlan_iff]
      constructor
      · intro h
        exact h.mono fun q hq => (hsame q).2 hq
      · intro h
        exact h.mono fun q hq => (hsame q).1 hq
    · intro r r' hr hr'
      exact (yields_ofPlan hr).2.same_states (yields_ofPlan hr').2 hsame

/-- Of two receptors that are routed, one is routed in the same states, even if it is listed
twice; and both are in the other order. -/
theorem states_of_fewer_twoReceptors :
    ∃ plan, (Plan.ofSubsystems Settings.standard twoSubsystems).Yields false plan ∧
      ∃ r, (ofPlan plan twoReceptors ["H00", "H01"]).Yields false r ∧
        (∃ r', (ofPlan plan twoReceptors ["H01", "H01"]).Yields false r' ∧ r'.IsPartOf r) ∧
        ∃ r', (ofPlan plan twoReceptors ["H01", "H00"]).Yields false r' ∧
          r.claims = r'.claims ∧ r.lo2 = r'.lo2 := by
  obtain ⟨plan, hplan, hleaves⟩ := exists_plan_twoSubsystems
  obtain ⟨r, hr⟩ := exists_yields_ofPlan_iff (d := false).2
    (show Routable twoReceptors (windows plan) ["H00", "H01"] by
      rw [windows_eq_leaves (wellFormed_of_yields hplan), hleaves]
      decide +kernel)
  refine ⟨plan, hplan, r, hr, ?_, ?_⟩
  · exact (states_of_fewer plan twoReceptors _ ["H01", "H01"] false).1 (by decide) r hr
  · obtain ⟨hiff, hstates⟩ :=
      (states_of_fewer plan twoReceptors ["H00", "H01"] ["H01", "H00"] false).2
        fun q => (List.Perm.swap "H01" "H00" []).mem_iff
    obtain ⟨r', hr'⟩ := hiff.1 ⟨r, hr⟩
    exact ⟨r', hr', hstates r r' hr hr'⟩

end Fewer

end Routing

end Heterodyne
