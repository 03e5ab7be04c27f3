import Heterodyne.Instrument
import Heterodyne.Proofs.Routing.Planned
import Heterodyne.Proofs.Spectrum.WindowName
/-!
# Consistent configurations

The correlator, the intermediate frequency chain and the spectral windows of a configuration are
put together from different tables. They agree nevertheless: every route leads to exactly one
window, which is tuned, and its hardware is in the states that this window asks for.

* `Plan.WellFormed.nodup_names`: the windows have different names.
* `consistent_assemble`: what is assembled from a plan and a routing of it is consistent.
* `consistent_of_yields`: an instrument yields consistent configurations only.
-/

namespace Heterodyne

variable {α : Type}

/-! ## Consistency -/

/-- A route is of a window: no other window bears the name, the window is tuned and is not a
hybrid, and the hardware of the route is in the states that the window asks for. -/
structure Route.Fits (r : Route) (c : Configuration α) (w : Window α) : Prop where
  mem : w ∈ c.windows
  id : w.id = r.window
  unique : (c.windows.map (·.id)).count r.window = 1
  notHybrid : w.subbands = []
  tuned : ∃ f, w.lo2 = some f ∧ c.ifBlock.lo2.get? r.synth = some f
  synth : c.ifBlock.synthWindows.get? r.synth = some r.window
  module : c.correlator.moduleModes.get? r.module = some w.label
  quadrant : c.correlator.quadrantModes.get? r.quadrant = some w.label
  converter : c.ifBlock.converterBandwidths.get? r.converter = some w.mode

/-- Every route is of one of the windows, and the tables hold the hardware of the routes and no
other; only quadrants without routes have modes, too. -/
structure Configuration.Consistent (c : Configuration α) : Prop where
  routes : ∀ r ∈ c.correlator.routes, ∃ w, r.Fits c w
  modules : ∀ k, k ∈ c.correlator.moduleModes.keys ↔ ∃ r ∈ c.correlator.routes, r.module = k
  converters : ∀ k, k ∈ c.ifBlock.converterBandwidths.keys ↔
    ∃ r ∈ c.correlator.routes, r.converter = k
  synths : ∀ k, k ∈ c.ifBlock.synthWindows.keys ↔ ∃ r ∈ c.correlator.routes, r.synth = k
  lo2 : ∀ k, k ∈ c.ifBlock.lo2.keys ↔ ∃ r ∈ c.correlator.routes, r.synth = k

/-! ## Windows -/

section Windows

variable [Scalar α] {plan : Plan α}

/-- The windows of a subsystem bear its names. -/
theorem map_id_ofSubsystem (ss : SubsystemPlan α) :
    (Window.ofSubsystem ss).map (·.id) = ss.windowIds.map WindowId.name := by
  simp only [Window.ofSubsystem, SubsystemPlan.windowIds, List.map_append, List.map_map]
  congr 1
  split <;> rfl

/-- The windows of a plan bear its names. -/
theorem map_id_windows (plan : Plan α) :
    (plan.subsystems.flatMap Window.ofSubsystem).map (·.id) =
      plan.windowIds.map WindowId.name := by
  rw [List.map_flatMap, Plan.windowIds, List.map_flatMap]
  congr 1
  funext ss
  exact map_id_ofSubsystem ss

/-- The windows of a well-formed plan have different names. -/
theorem Plan.WellFormed.nodup_names (h : plan.WellFormed) :
    ((plan.subsystems.flatMap Window.ofSubsystem).map (·.id)).Nodup := by
  rw [map_id_windows]
  exact h.nodup_windowIds.map fun _ _ => WindowId.name_injective

/-- Every subband of a plan is a window. -/
theorem ofSubband_mem_windows {ss : SubsystemPlan α} {sb : Subband α}
    (h : (ss, sb) ∈ plan.subbands) :
    Window.ofSubband ss sb ∈ plan.subsystems.flatMap Window.ofSubsystem := by
  obtain ⟨hss, hsb⟩ := Plan.mem_subbands_iff.1 h
  rw [List.mem_flatMap]
  exact ⟨ss, hss, List.mem_append_right _ (List.mem_map_of_mem hsb)⟩

end Windows

/-! ## Assembled configurations -/

section Assembled

variable {plan : Plan α} {wiring : Wiring} {rs : List Receptor} {routing : Routing α}

/-- An assignment is of a subband of the plan, with the label of its subsystem. -/
theorem exists_subband_of_mem_assignments (hplan : plan.WellFormed)
    (h : routing.Serves plan wiring rs) {a : Assignment} (ha : a ∈ routing.assignments) :
    ∃ ss sb, (ss, sb) ∈ plan.subbands ∧ sb.id = a.window ∧ ss.label = a.label := by
  rw [h.assignments, Routing.windows_eq_leaves hplan] at ha
  obtain ⟨-, k, hk, -⟩ := Routing.mem_demanded_iff.1 ha
  obtain ⟨⟨ss, sb⟩, hmem, heq⟩ := List.mem_map.1 (List.mem_of_getElem? hk)
  obtain ⟨hid, hlabel⟩ := Prod.mk.inj heq
  exact ⟨ss, sb, hmem, hid, hlabel⟩

/-- The synthesizer of an assignment is tuned to the frequency of its subband. -/
theorem get?_lo2_of_mem_assignments (hplan : plan.WellFormed) (h : routing.Serves plan wiring rs)
    {a : Assignment} (ha : a ∈ routing.assignments) {ss : SubsystemPlan α} {sb : Subband α}
    (hmem : (ss, sb) ∈ plan.subbands) (hid : sb.id = a.window) :
    routing.lo2.get? a.slot.synth = some sb.lo2 := by
  have hfreq : plan.lo2ByWindow.get? sb.id = some sb.lo2 := hplan.collects_lo2ByWindow.get? hmem
  rw [h.lo2, h.synths.get? ha, ← hid]
  exact hfreq

/-- A key that the assignments give is one that their routes give. -/
theorem mem_map_assignments_iff (key : Route → UInt32) {as : List Assignment} {k : UInt32} :
    k ∈ as.map (fun a => key (.ofAssignment a)) ↔
      ∃ r ∈ as.map Route.ofAssignment, key r = k := by
  simp only [List.mem_map, exists_exists_and_eq_and]

/-- The tuned synthesizers are those that are tuned for a window. -/
theorem mem_keys_lo2 (hplan : plan.WellFormed) (h : routing.Serves plan wiring rs) (k : UInt32) :
    k ∈ routing.lo2.keys ↔ k ∈ routing.claims.synthWindows.keys := by
  rw [Table.mem_keys, Table.mem_keys]
  constructor
  · rintro ⟨f, hf⟩
    rw [h.lo2, Option.bind_eq_some_iff] at hf
    obtain ⟨w, hw, -⟩ := hf
    exact ⟨w, hw⟩
  · rintro ⟨w, hw⟩
    obtain ⟨a, ha, rfl, -⟩ := (h.synths k w).1 hw
    obtain ⟨ss, sb, hmem, hid, -⟩ := exists_subband_of_mem_assignments hplan h ha
    exact ⟨sb.lo2, get?_lo2_of_mem_assignments hplan h ha hmem hid⟩

variable [Scalar α] {mode : Mode} {cubes : List (Cube α)} {timing : Timing α}

/-- The route of an assignment is of the window of its subband. -/
theorem fits_ofAssignment (hplan : plan.WellFormed) (h : routing.Serves plan wiring rs)
    {a : Assignment} (ha : a ∈ routing.assignments) :
    ∃ w, (Route.ofAssignment a).Fits (.assemble mode plan routing cubes timing) w := by
  obtain ⟨ss, sb, hmem, hid, hlabel⟩ := exists_subband_of_mem_assignments hplan h ha
  have hss : ss ∈ plan.subsystems := (Plan.mem_subbands_iff.1 hmem).1
  have hwindow := ofSubband_mem_windows hmem
  have hname : (Window.ofSubband ss sb).id = a.window.name := by
    rw [← hid]
    rfl
  refine ⟨.ofSubband ss sb, hwindow, hname, ?_, rfl, ⟨sb.lo2.value, rfl, ?_⟩, ?_, ?_, ?_, ?_⟩
  · -- The window is there, and a hybrid has another name than its subbands.
    have hin := List.mem_map_of_mem (f := (·.id)) hwindow
    rw [hname] at hin
    exact List.count_eq_one_of_mem hplan.nodup_names hin
  · show (routing.lo2.map (·.value)).get? a.slot.synth = some sb.lo2.value
    rw [Table.get?_map, get?_lo2_of_mem_assignments hplan h ha hmem hid]
    rfl
  · show (routing.claims.synthWindows.map WindowId.name).get? a.slot.synth = some a.window.name
    rw [Table.get?_map, h.synths.get? ha]
    rfl
  · show routing.claims.moduleModes.get? a.slot.module = some ss.label
    rw [h.modules.get? ha, hlabel]
  · show routing.claims.quadrantModes.get? a.slot.quadrant = some ss.label
    rw [h.quadrant ha, hlabel]
  · -- The routing has read the bandwidth off the label, and the plan its mode.
    show routing.claims.converterBandwidths.get? a.slot.converter = some ss.mode.name
    rw [h.converters.get? ha, (hplan.wellCut ss hss).mode, hlabel]

/-- What is assembled from a well-formed plan and a routing of it is consistent. -/
theorem consistent_assemble (hplan : plan.WellFormed) (h : routing.Serves plan wiring rs) :
    (Configuration.assemble mode plan routing cubes timing).Consistent where
  routes r hr := by
    obtain ⟨a, ha, rfl⟩ := List.mem_map.1 hr
    exact fits_ofAssignment hplan h ha
  modules k := h.modules.mem_keys.trans (mem_map_assignments_iff Route.module)
  converters k := h.converters.mem_keys.trans (mem_map_assignments_iff Route.converter)
  synths k := by
    show k ∈ (routing.claims.synthWindows.map WindowId.name).keys ↔ _
    rw [Table.keys_map]
    exact h.synths.mem_keys.trans (mem_map_assignments_iff Route.synth)
  lo2 k := by
    show k ∈ (routing.lo2.map (·.value)).keys ↔ _
    rw [Table.keys_map, mem_keys_lo2 hplan h]
    exact h.synths.mem_keys.trans (mem_map_assignments_iff Route.synth)

end Assembled

/-! ## Configured observations -/

/-- The parts that a configuration is assembled from. -/
theorem yields_configure_iff [Scalar α] {i : Instrument α} {d : Descriptor α}
    {c : Configuration α} {b : Bool} :
    (i.configure d).Yields b c ↔ ∃ mode plan routing cubes timing,
      Mode.classify (α := α) d.iterator d.switching = .ok mode ∧
      (Plan.ofSubsystems i.settings d.subsystems).Yields b plan ∧
      (Routing.ofPlan plan i.wiring d.receptors).Yields b routing ∧
      (d.cubes plan i.settings).Yields b cubes ∧
      (Timing.budget d mode cubes i.settings).Yields b timing ∧
      .assemble mode plan routing cubes timing = c := by
  simp only [Instrument.configure, Run.yields_bind, Run.yields_ofCheck, Run.yields_pure]
  constructor
  · rintro ⟨mode, hmode, -, -, plan, hplan, routing, hrouting, cubes, hcubes, timing, htiming, hc⟩
    exact ⟨mode, plan, routing, cubes, timing, hmode, hplan, hrouting, hcubes, htiming, hc⟩
  · rintro ⟨mode, plan, routing, cubes, timing, hmode, hplan, hrouting, hcubes, htiming, hc⟩
    exact ⟨mode, hmode, (), Run.yields_tell, plan, hplan, routing, hrouting, cubes, hcubes,
      timing, htiming, hc⟩

/-- An instrument yields consistent configurations only. -/
theorem consistent_of_yields [Scalar α] {i : Instrument α} {d : Descriptor α}
    {c : Configuration α} {b : Bool} (h : (i.configure d).Yields b c) : c.Consistent := by
  obtain ⟨mode, plan, routing, cubes, timing, -, hplan, hrouting, -, -, rfl⟩ :=
    yields_configure_iff.1 h
  exact consistent_assemble (wellFormed_of_yields hplan) (Routing.yields_ofPlan hrouting).2

/-- A small map in both receptors and all windows of the two subsystems. -/
def smallMap : Descriptor Binary64 where
  movement := .raster ⟨⟨.ofNat 120⟩, ⟨.ofNat 60⟩, ⟨.ofNat 7⟩, ⟨.ofNat 30⟩, ⟨.ofNat 0⟩, ⟨.ofNat 1⟩,
    none, none, none⟩
  switching := .position
  subsystems := Routing.twoSubsystems
  repeats := 1
  receptors := ["H00", "H01"]
  nyquist := ⟨.ofNat 7⟩

/-- The timing of the small map, after its plan and its cubes. -/
def smallMapTiming (settings : Settings Binary64) : Run Binary64 (Timing Binary64) := do
  let plan ← Plan.ofSubsystems settings smallMap.subsystems
  let cubes ← smallMap.cubes plan settings
  Timing.budget smallMap ⟨.raster, .position, .science⟩ cubes settings

/-- The windows of the small map are routed. -/
theorem exists_routing_smallMap {settings : Settings Binary64} {plan : Plan Binary64}
    (hplan : (Plan.ofSubsystems settings smallMap.subsystems).Yields false plan)
    (hleaves : plan.leaves = [(.ofSubband 1 1, "1GHzx2048"), (.ofSubband 1 2, "1GHzx2048"),
      (.ofSubsystem 2, "250MHzx8192")]) :
    ∃ routing, (Routing.ofPlan plan Routing.twoReceptors smallMap.receptors).Yields false
      routing ∧ routing.assignments.length = 6 := by
  have hwindows : Routing.windows plan = _ :=
    (Routing.windows_eq_leaves (wellFormed_of_yields hplan)).trans hleaves
  obtain ⟨routing, hrouting⟩ := Routing.exists_yields_ofPlan_iff.2
    (show Routing.Routable Routing.twoReceptors (Routing.windows plan) smallMap.receptors by
      rw [hwindows]
      decide +kernel)
  refine ⟨routing, hrouting, ?_⟩
  rw [(Routing.yields_ofPlan hrouting).2.assignments, hwindows]
  decide +kernel

/-- The small map is configured with any settings that leave it its windows and give it a
timing. -/
theorem exists_yields_smallMap_of {settings : Settings Binary64} {plan : Plan Binary64}
    {timing : Timing Binary64}
    (hplan : (Plan.ofSubsystems settings smallMap.subsystems).Yields false plan)
    (hleaves : plan.leaves = [(.ofSubband 1 1, "1GHzx2048"), (.ofSubband 1 2, "1GHzx2048"),
      (.ofSubsystem 2, "250MHzx8192")])
    (htiming : (smallMapTiming settings).Yields false timing) :
    ∃ c, ((⟨settings, Routing.twoReceptors⟩ : Instrument Binary64).configure smallMap).Yields
        false c ∧ c.windows = plan.subsystems.flatMap Window.ofSubsystem ∧
      c.correlator.routes.length = 6 := by
  unfold smallMapTiming at htiming
  simp only [Run.yields_bind] at htiming
  obtain ⟨plan', hplan', cubes, hcubes, htiming⟩ := htiming
  obtain rfl := hplan.unique hplan'
  obtain ⟨routing, hrouting, hassignments⟩ := exists_routing_smallMap hplan hleaves
  refine ⟨_, yields_configure_iff.2
    ⟨_, plan, routing, cubes, timing, rfl, hplan, hrouting, hcubes, htiming, rfl⟩, rfl, ?_⟩
  show (routing.assignments.map Route.ofAssignment).length = 6
  rw [List.length_map, hassignments]

/-- The small map is configured, with a route for every receptor and window. -/
theorem exists_yields_smallMap :
    ∃ c, ((⟨Settings.standard, Routing.twoReceptors⟩ : Instrument Binary64).configure
        smallMap).Yields false c ∧ c.correlator.routes.length = 6 := by
  obtain ⟨plan, hplan, hleaves⟩ := Routing.exists_plan_twoSubsystems
  have htiming : ∃ timing, (smallMapTiming Settings.standard).Yields false timing ∧
      timing.cycles = 1 := Run.exists_yields_of_toOption (by decide +kernel)
  obtain ⟨timing, htiming, -⟩ := htiming
  obtain ⟨c, hyields, -, hroutes⟩ := exists_yields_smallMap_of hplan hleaves htiming
  exact ⟨c, hyields, hroutes⟩

/-- The six routes of the small map are consistent with its windows. -/
theorem consistent_smallMap :
    ∃ c, ((⟨Settings.standard, Routing.twoReceptors⟩ : Instrument Binary64).configure
        smallMap).Yields false c ∧
      c.correlator.routes.length = 6 ∧ c.Consistent := by
  obtain ⟨c, hyields, hroutes⟩ := exists_yields_smallMap
  exact ⟨c, hyields, hroutes, consistent_of_yields hyields⟩

end Heterodyne
