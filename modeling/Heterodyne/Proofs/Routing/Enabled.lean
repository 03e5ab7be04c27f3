import Heterodyne.Proofs.Routing.Standby
/-!
# Receptors that are not enabled

A wiring is asked for the slots of the enabled receptors, and at the end for the standby modes of all
slots. The slots of other receptors have no influence before that, and then only on quadrants that no
window is routed through: neither on success or the cause of a refusal, nor on any other state.

* `routeReceptors_congr`: receptors are routed in the same way under wirings that wire them alike.
* `ofPlan_eq_map`: the standby modes are put on a routing that is finished without them.
* `ofPlan_alike`: two wirings that wire the enabled receptors alike.
-/

namespace Heterodyne

namespace Routing

variable {α : Type} {plan : Plan α} {ws : List (WindowId × String)} {wiring wiring' : Wiring}
  {rs : List Receptor} {d : Bool}

/-! ## What a routing asks of the wiring -/

/-- Whether a receptor is given slots depends on how it is wired. -/
theorem slotsFor_congr {windows : Nat} {q : Receptor} (h : wiring.slots? q = wiring'.slots? q) :
    (slotsFor wiring windows q : Except (Refusal α) (List Slot)) = slotsFor wiring' windows q := by
  rw [slotsFor, slotsFor, h]

/-- Receptors are routed in the same way under two wirings that wire them alike. -/
theorem routeReceptors_congr (h : ∀ q ∈ rs, wiring.slots? q = wiring'.slots? q) (c : Claims) :
    (routeReceptors wiring ws rs c : Run α _) = routeReceptors wiring' ws rs c := by
  induction rs generalizing c with
  | nil => rfl
  | cons q rest ih =>
    have hrest := ih fun p hp => h p (List.mem_cons_of_mem _ hp)
    simp only [routeReceptors, slotsFor_congr (h q List.mem_cons_self), hrest]

/-! ## Routings without standby modes -/

/-- The routing with no modes of quadrants but those of its windows. -/
def withoutStandby (plan : Plan α) (wiring : Wiring) (rs : List Receptor) :
    Run α (Routing α) := do
  let (assignments, claims) ← routeReceptors wiring (windows plan) rs {}
  let lo2 ← Run.ofCheck (tuneSynths plan.lo2ByWindow claims.synthWindows.entries)
  return { assignments, claims, lo2 := .ofList lo2 }

/-- The routing with the standby modes of a wiring. -/
def standingBy (wiring : Wiring) (r : Routing α) : Routing α :=
  { r with claims := r.claims.addStandby (wiring.allSlots.map Prod.snd) }

/-- The standby modes are put on a routing that is finished without them: synthesizers are tuned
for their windows, and a quadrant has no part in that. -/
theorem ofPlan_eq_map (plan : Plan α) (wiring : Wiring) (rs : List Receptor) :
    ofPlan plan wiring rs = standingBy wiring <$> withoutStandby plan wiring rs := by
  simp only [ofPlan, withoutStandby, map_eq_pure_bind, bind_assoc, pure_bind]
  rfl

/-- Without the standby modes, only the wiring of the listed receptors has an influence. -/
theorem withoutStandby_congr (h : ∀ q ∈ rs, wiring.slots? q = wiring'.slots? q) :
    withoutStandby plan wiring rs = withoutStandby plan wiring' rs := by
  rw [withoutStandby, withoutStandby, routeReceptors_congr h]

/-! ## Wirings that agree on the enabled receptors -/

/-- Two routings are of the same windows in the same states, but for the modes of quadrants that no
window is routed through. -/
structure AgreesInUse (r r' : Routing α) : Prop where
  assignments : r.assignments = r'.assignments
  modules : r.claims.moduleModes = r'.claims.moduleModes
  converters : r.claims.converterBandwidths = r'.claims.converterBandwidths
  synths : r.claims.synthWindows = r'.claims.synthWindows
  lo2 : r.lo2 = r'.lo2
  quadrants : ∀ a ∈ r.assignments,
    r.claims.quadrantModes.get? a.slot.quadrant = r'.claims.quadrantModes.get? a.slot.quadrant

/-- Under two wirings that wire the listed receptors alike, or leave them unwired alike, a plan is
refused for the same cause, or it is routed to the same states but for the modes of quadrants that
no window is routed through. The same events are told. -/
theorem ofPlan_alike (plan : Plan α) (h : ∀ q ∈ rs, wiring.slots? q = wiring'.slots? q) (d : Bool) :
    ((∃ cause, (ofPlan plan wiring rs).Refuses d cause ∧ (ofPlan plan wiring' rs).Refuses d cause) ∨
      ∃ r r', (ofPlan plan wiring rs).Yields d r ∧ (ofPlan plan wiring' rs).Yields d r' ∧
        r.AgreesInUse r') ∧
    (ofPlan plan wiring rs d).log = (ofPlan plan wiring' rs d).log := by
  have hcommon : withoutStandby plan wiring rs = withoutStandby plan wiring' rs :=
    withoutStandby_congr h
  have hmap : ∀ w, (ofPlan plan w rs d).result =
      (withoutStandby plan w rs d).result.map (standingBy w) := fun w => by
    rw [ofPlan_eq_map, Run.result_map]
  constructor
  · rcases Run.yields_or_refuses (not_breaksOff_ofPlan (d := d)) with ⟨r, hr⟩ | ⟨cause, hcause⟩
    · obtain ⟨r₀, hr₀, rfl⟩ := (Run.yields_of_result_eq_map (hmap wiring)).1 hr
      have hr' : (ofPlan plan wiring' rs).Yields d (standingBy wiring' r₀) :=
        (Run.yields_of_result_eq_map (hmap wiring')).2 ⟨r₀, hcommon ▸ hr₀, rfl⟩
      refine .inr ⟨_, _, hr, hr', rfl, rfl, rfl, rfl, rfl, ?_⟩
      -- A quadrant in use runs the label of its window, whatever it would stand by in.
      intro a ha
      rw [(yields_ofPlan hr).2.quadrant ha, (yields_ofPlan hr').2.quadrant ha]
    · refine .inl ⟨cause, hcause, ?_⟩
      rw [Run.refuses_of_result_eq_map (hmap wiring'), ← hcommon]
      exact (Run.refuses_of_result_eq_map (hmap wiring)).1 hcause
  · rw [ofPlan_eq_map, ofPlan_eq_map, Run.log_map, Run.log_map, hcommon]

/-- The two receptors, of which the first is wired to hardware of the second. -/
def rewired : Wiring :=
  twoReceptors.insert "H00" [⟨4, 4, 4, "250MHzx8192", 1⟩, ⟨7, 7, 7, "500MHzx4096", 0⟩]

/-- If the second receptor alone is enabled, the first one decides in which mode the quadrant is that
the second one does not use, and nothing else. -/
theorem ofPlan_alike_rewired :
    (∀ q ∈ ["H01"], twoReceptors.slots? q = rewired.slots? q) ∧
    ∃ plan, (Plan.ofSubsystems Settings.standard twoSubsystems).Yields false plan ∧
      ∃ r r', (ofPlan plan twoReceptors ["H01"]).Yields false r ∧
        (ofPlan plan rewired ["H01"]).Yields false r' ∧ r.AgreesInUse r' ∧
        r.claims.quadrantModes.get? 7 = some "1GHzx2048" ∧
        r'.claims.quadrantModes.get? 7 = some "500MHzx4096" := by
  have hwired : ∀ q ∈ ["H01"], twoReceptors.slots? q = rewired.slots? q := by decide +kernel
  obtain ⟨plan, hplan, hleaves⟩ := exists_plan_twoSubsystems
  have hwell := wellFormed_of_yields hplan
  refine ⟨hwired, plan, hplan, ?_⟩
  obtain ⟨⟨cause, hcause, -⟩ | ⟨r, r', hr, hr', hagrees⟩, -⟩ := ofPlan_alike plan hwired false
  · obtain ⟨r, hr⟩ := exists_yields_of_routable (d := false) hwell
      (show Routable twoReceptors plan.leaves ["H01"] by
        rw [hleaves]
        decide +kernel)
    exact absurd hcause (hr.not_refuses cause)
  · have hserves := (yields_ofPlan hr).2
    have hserves' := (yields_ofPlan hr').2
    have hunused : ∀ a ∈ r.assignments, a.slot.quadrant ≠ 7 := by
      rw [hserves.assignments_eq hwell, hleaves]
      decide +kernel
    refine ⟨r, r', hr, hr', hagrees, ?_, ?_⟩
    · rw [hserves.standby hunused]
      decide +kernel
    · rw [hserves'.standby (hagrees.assignments ▸ hunused)]
      decide +kernel

end Routing

end Heterodyne
