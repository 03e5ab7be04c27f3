import Heterodyne.Proofs.Configuration.Batch
import Heterodyne.Proofs.Spectrum.Numbered
/-!
# Fewer subsystems

If an observation is configured, so is the observation that asks for the first of its subsystems
only, and its configuration is found in the other one: the windows and cubes stand at the
beginning, the routes are those of its windows, and the hardware is in the same states. What is
planned later, then, neither moves what was planned before nor takes hardware away from it.

* `demanded_of_append`: the first windows of a receptor ask for what they ask for among all.
* `Routing.exists_part_of_append`: the first windows are routed if all are.
* `fewerSubsystems_of_yields`: the configuration of the first subsystems.
-/

namespace Heterodyne

variable {α : Type}

/-! ## Parts of configurations -/

/-- One configuration is part of another: mode and timing are the same, windows and cubes come
first, the routes are those of the windows, and all hardware that is used has the states that it
has in the other configuration. -/
structure Configuration.IsPartOf (c' c : Configuration α) : Prop where
  mode : c'.mode = c.mode
  sequence : c'.sequence = c.sequence
  windows : c'.windows <+: c.windows
  cubes : c'.cubes <+: c.cubes
  routes : c'.correlator.routes =
    c.correlator.routes.filter fun r => r.window ∈ c'.windows.map (·.id)
  modules : c'.correlator.moduleModes.IsPartOf c.correlator.moduleModes
  converters : c'.ifBlock.converterBandwidths.IsPartOf c.ifBlock.converterBandwidths
  synths : c'.ifBlock.synthWindows.IsPartOf c.ifBlock.synthWindows
  lo2 : c'.ifBlock.lo2.IsPartOf c.ifBlock.lo2
  quadrants : ∀ r ∈ c'.correlator.routes,
    c'.correlator.quadrantModes.get? r.quadrant = c.correlator.quadrantModes.get? r.quadrant

/-! ## Plans one behind another -/

namespace Plan

variable {first rest : List (SubsystemPlan α)}

/-- The tunable windows of subsystems stand before those of the subsystems behind them. -/
theorem leaves_append : (Plan.mk (first ++ rest)).leaves =
    (Plan.mk first).leaves ++ (Plan.mk rest).leaves := by
  simp only [leaves, subbands, List.flatMap_append, List.map_append]

/-- The first subsystems of a well-formed plan are a well-formed plan. -/
theorem WellFormed.of_append (h : (Plan.mk (first ++ rest)).WellFormed) :
    (Plan.mk first).WellFormed where
  wellCut ss hss := h.wellCut ss (List.mem_append_left _ hss)
  ascending := (List.pairwise_append.1 h.ascending).1

/-- The first subsystems have the frequencies that they have among all. -/
theorem WellFormed.lo2ByWindow_of_append (h : (Plan.mk (first ++ rest)).WellFormed) :
    (Plan.mk first).lo2ByWindow.IsPartOf (Plan.mk (first ++ rest)).lo2ByWindow := by
  refine h.of_append.collects_lo2ByWindow.isPartOf h.collects_lo2ByWindow ?_
  rintro ⟨ss, sb⟩ hmem
  rw [mem_subbands_iff] at hmem ⊢
  exact ⟨List.mem_append_left _ hmem.1, hmem.2⟩

/-- A tunable window is one of the windows. -/
theorem fst_mem_windowIds {plan : Plan α} {w : WindowId × String} (hw : w ∈ plan.leaves) :
    w.1 ∈ plan.windowIds := by
  obtain ⟨v, hv, rfl⟩ := List.mem_map.1 hw
  exact plan.map_id_subbands_sublist.subset (List.mem_map_of_mem (f := (·.2.id)) hv)

/-- The windows of the first subsystems are none of those behind. -/
theorem WellFormed.disjoint_of_append (h : (Plan.mk (first ++ rest)).WellFormed)
    {w : WindowId × String} (hw : w ∈ (Plan.mk rest).leaves) :
    w.1 ∉ (Plan.mk first).windowIds := by
  have hnodup : ((Plan.mk first).windowIds ++ (Plan.mk rest).windowIds).Nodup := by
    have hall := h.nodup_windowIds
    rwa [windowIds, List.flatMap_append] at hall
  intro hfirst
  exact (List.disjoint_of_nodup_append hnodup) hfirst (fst_mem_windowIds hw)

end Plan

/-! ## Routing the first windows -/

namespace Routing

variable {wiring : Wiring} {ws more : List (WindowId × String)} {rs : List Receptor}

/-- The first windows of a receptor take the slots that they take among all of its windows. -/
theorem filter_zipWith_append {f : WindowId × String → Slot → Assignment} {p : WindowId → Bool}
    (hf : ∀ w slot, (f w slot).window = w.1) (hfirst : ∀ w ∈ ws, p w.1 = true)
    (hmore : ∀ w ∈ more, p w.1 = false) (slots : List Slot) :
    (List.zipWith f (ws ++ more) slots).filter (fun a => p a.window) = List.zipWith f ws slots := by
  induction ws generalizing slots with
  | nil =>
    -- all that is left belongs to later windows
    rw [List.nil_append, List.zipWith_nil_left, List.filter_eq_nil_iff]
    intro a ha
    obtain ⟨k, hk⟩ := List.mem_iff_getElem?.1 ha
    obtain ⟨w, slot, hw, -, rfl⟩ := List.getElem?_zipWith_eq_some.1 hk
    simp [hf, hmore w (List.mem_of_getElem? hw)]
  | cons w ws ih =>
    cases slots with
    | nil => rfl
    | cons slot slots =>
      have hhead : p (f w slot).window = true := by
        rw [hf]
        exact hfirst w List.mem_cons_self
      rw [List.cons_append, List.zipWith_cons_cons, List.filter_cons, if_pos hhead,
        ih (fun v hv => hfirst v (List.mem_cons_of_mem _ hv)), List.zipWith_cons_cons]

/-- What receptors ask for the first windows is what they ask for these among all windows. -/
theorem demanded_of_append {p : WindowId → Bool} (hfirst : ∀ w ∈ ws, p w.1 = true)
    (hmore : ∀ w ∈ more, p w.1 = false) :
    demanded wiring ws rs = (demanded wiring (ws ++ more) rs).filter fun a => p a.window := by
  rw [demanded, demanded, List.filter_flatMap]
  congr 1
  funext r
  exact (filter_zipWith_append (fun _ _ => rfl) hfirst hmore _).symm

/-- The first windows are routable if all are. -/
theorem Routable.of_append (h : Routable wiring (ws ++ more) rs) : Routable wiring ws rs where
  served r hr := by
    obtain ⟨slots, hslots, hlen⟩ := h.served r hr
    rw [List.length_append] at hlen
    exact ⟨slots, hslots, by omega⟩
  accord := by
    refine h.accord.mono fun a ha => ?_
    obtain ⟨hr, k, hw, hslot⟩ := mem_demanded_iff.1 ha
    refine mem_demanded_iff.2 ⟨hr, k, ?_, hslot⟩
    rw [List.getElem?_append_left (List.getElem?_eq_some_iff.1 hw).1]
    exact hw

/-- If a plan is routed, its first subsystems are, with the assignments of their own windows, and
their routing is part of the routing of all. -/
theorem exists_part_of_append {first rest : List (SubsystemPlan α)} {r : Routing α} {d : Bool}
    {p : WindowId → Bool} (hwell : (Plan.mk (first ++ rest)).WellFormed)
    (h : (ofPlan (.mk (first ++ rest)) wiring rs).Yields d r)
    (hfirst : ∀ w ∈ (Plan.mk first).leaves, p w.1 = true)
    (hmore : ∀ w ∈ (Plan.mk rest).leaves, p w.1 = false) :
    ∃ r', (ofPlan (.mk first) wiring rs).Yields d r' ∧ r'.IsPartOf r ∧
      r'.assignments = r.assignments.filter fun a => p a.window := by
  obtain ⟨hroutable, hserves⟩ := yields_ofPlan h
  rw [windows_eq_leaves hwell, Plan.leaves_append] at hroutable
  have hfirstRoutable : Routable wiring (windows (.mk first)) rs := by
    rw [windows_eq_leaves hwell.of_append]
    exact hroutable.of_append
  obtain ⟨r', hr'⟩ := exists_yields_ofPlan_iff (d := d).2 hfirstRoutable
  have hserves' := (yields_ofPlan hr').2
  have hassigned : r'.assignments = r.assignments.filter fun a => p a.window := by
    rw [hserves.assignments, hserves'.assignments, windows_eq_leaves hwell,
      windows_eq_leaves hwell.of_append, Plan.leaves_append]
    exact demanded_of_append hfirst hmore
  refine ⟨r', hr', hserves.isPartOf_of_subset hserves' ?_ hwell.lo2ByWindow_of_append, hassigned⟩
  rw [hassigned]
  exact fun a ha => (List.mem_filter.1 ha).1

end Routing

/-! ## Timing over cubes of one grid -/

section Timings

variable [Scalar α]

/-- Cubes over one grid have its diagonal as their footprint. -/
theorem footprint_ofPlan {grid : Grid α} {plan : Plan α} (h : plan.subsystems ≠ []) :
    footprint (Cube.ofPlan grid plan) = .ok grid.diagonal := by
  -- starting from the diagonal, no cube has a longer one
  have hfold : ∀ sss : List (SubsystemPlan α), (Cube.ofPlan grid ⟨sss⟩).foldl
      (fun longest c =>
        if Scalar.before longest.value c.grid.diagonal.value then c.grid.diagonal else longest)
      grid.diagonal = grid.diagonal := by
    intro sss
    induction sss with
    | nil => rfl
    | cons ss sss ih =>
      rw [Cube.ofPlan, List.map_cons, List.foldl_cons, ite_self]
      exact ih
  obtain ⟨sss⟩ := plan
  cases sss with
  | nil => exact absurd rfl h
  | cons ss sss => exact congrArg Except.ok (hfold sss)

/-- The cadence of an observation depends on the footprint of its cubes only. -/
theorem Timing.cadenceOf_congr (o : Descriptor α) (mode : Mode) {cubes cubes' : List (Cube α)}
    (settings : Settings α) (step : Duration α) (h : footprint cubes = footprint cubes') :
    cadenceOf o mode cubes settings step = cadenceOf o mode cubes' settings step := by
  unfold cadenceOf
  split
  · simp only [ofRaster, h]
  all_goals rfl

/-- The timing of an observation depends on the footprint of its cubes only. -/
theorem Timing.budget_congr (o : Descriptor α) (mode : Mode) {cubes cubes' : List (Cube α)}
    (settings : Settings α) (h : footprint cubes = footprint cubes') :
    budget o mode cubes settings = budget o mode cubes' settings := by
  simp only [budget, cadenceOf_congr o mode settings _ h]

end Timings

/-! ## Configured observations -/

section Configured

variable [Scalar α] {i : Instrument α} {o : Descriptor α} {more : List (Subsystem α)} {d : Bool}
  {first rest : List (SubsystemPlan α)}

/-- Whether a window bears a name of a plan. -/
def Plan.bears (plan : Plan α) (w : WindowId) : Bool :=
  w.name ∈ (plan.subsystems.flatMap Window.ofSubsystem).map (·.id)

/-- A plan bears the names of its windows. -/
theorem Plan.bears_iff {plan : Plan α} {w : WindowId} :
    plan.bears w = true ↔ w ∈ plan.windowIds := by
  rw [bears, map_id_windows, decide_eq_true_eq, List.mem_map]
  constructor
  · rintro ⟨v, hv, hname⟩
    rw [← WindowId.name_injective hname]
    exact hv
  · intro hw
    exact ⟨w, hw, rfl⟩

/-- What is assembled from the first subsystems and their part of a routing is part of what is
assembled from all. -/
theorem isPartOf_assemble {mode : Mode} {grid : Grid α} {timing : Timing α}
    {routing routing' : Routing α} (hpart : routing'.IsPartOf routing)
    (hassigned : routing'.assignments =
      routing.assignments.filter fun a => (Plan.mk first).bears a.window) :
    (Configuration.assemble mode ⟨first⟩ routing' (Cube.ofPlan grid ⟨first⟩) timing).IsPartOf
      (.assemble mode ⟨first ++ rest⟩ routing (Cube.ofPlan grid ⟨first ++ rest⟩) timing) where
  mode := rfl
  sequence := rfl
  windows := by
    simp only [Configuration.assemble, List.flatMap_append]
    exact List.prefix_append _ _
  cubes := by
    simp only [Configuration.assemble, Cube.ofPlan, List.map_append]
    exact List.prefix_append _ _
  routes := by
    simp only [Configuration.assemble, CorrelatorBlock.ofRouting, hassigned, List.filter_map]
    rfl
  modules := hpart.modules
  converters := hpart.converters
  synths := hpart.synths.map _
  lo2 := hpart.lo2.map _
  quadrants r hr := by
    obtain ⟨a, ha, rfl⟩ := List.mem_map.1 hr
    exact hpart.quadrants a ha

/-- If an accepted observation is configured with further subsystems behind its own, it is
configured without them, and its configuration is part of the other one. -/
theorem fewerSubsystems_of_yields {draft : Draft α} {c : Configuration α}
    (hbuild : draft.build = .ok o)
    (h : (i.configure { o with subsystems := o.subsystems ++ more }).Yields d c) :
    ∃ c', (i.configure o).Yields d c' ∧ c'.IsPartOf c := by
  obtain ⟨mode, ⟨sss⟩, routing, cubes, timing, hmode, hplan, hrouting, hcubes, htiming, rfl⟩ :=
    yields_configure_iff.1 h
  simp only [Descriptor.cubes, Run.yields_bind, Run.yields_pure] at hcubes
  obtain ⟨grid, hgrid, rfl⟩ := hcubes
  have hwell := wellFormed_of_yields hplan
  obtain ⟨first, rest, hfirst, rfl⟩ :=
    yields_planSubsystems_of_append (yields_ofSubsystems_iff.1 hplan)
  have hplan' : (Plan.ofSubsystems i.settings o.subsystems).Yields d ⟨first⟩ :=
    yields_ofSubsystems_iff.2 hfirst
  obtain ⟨routing', hrouting', hpart, hassigned⟩ := Routing.exists_part_of_append hwell hrouting
    (p := (Plan.mk first).bears)
    (fun w hw => Plan.bears_iff.2 (Plan.fst_mem_windowIds hw))
    (fun w hw => Bool.eq_false_iff.2 (mt Plan.bears_iff.1 (hwell.disjoint_of_append hw)))
  -- There is a first subsystem, so the footprint is that of the common grid in both cases.
  have hsome : first ≠ [] := by
    obtain ⟨-, hne, -, -, -, nyquist, -, -, ho⟩ := Draft.build_eq_ok_iff.1 hbuild
    rw [← List.length_pos_iff, length_of_yields_planSubsystems hfirst, List.length_pos_iff]
    subst ho
    exact hne
  have hfootprint : footprint (Cube.ofPlan grid ⟨first⟩) =
      footprint (Cube.ofPlan grid ⟨first ++ rest⟩) := by
    rw [footprint_ofPlan hsome, footprint_ofPlan (List.append_ne_nil_of_left_ne_nil hsome rest)]
  have htiming' :
      (Timing.budget o mode (Cube.ofPlan grid ⟨first⟩) i.settings).Yields d timing := by
    rw [Timing.budget_congr o mode i.settings hfootprint]
    exact htiming
  have hcubes' : (o.cubes ⟨first⟩ i.settings).Yields d (Cube.ofPlan grid ⟨first⟩) := by
    simp only [Descriptor.cubes, Run.yields_bind, Run.yields_pure]
    exact ⟨grid, hgrid, rfl⟩
  exact ⟨_, yields_configure_iff.2 ⟨mode, ⟨first⟩, routing', _, timing, hmode, hplan', hrouting',
    hcubes', htiming', rfl⟩, isPartOf_assemble hpart hassigned⟩

/-- The small map is configured with its hybrid alone, as part of what it is with both subsystems. -/
theorem fewerSubsystems_of_smallMap :
    ∃ c c', ((⟨Settings.standard, Routing.twoReceptors⟩ : Instrument Binary64).configure
        smallMap).Yields false c ∧
      ((⟨Settings.standard, Routing.twoReceptors⟩ : Instrument Binary64).configure
        { smallMap with subsystems := Routing.twoSubsystems.take 1 }).Yields false c' ∧
      c'.IsPartOf c := by
  obtain ⟨c, hyields, -⟩ := exists_yields_smallMap
  have hbuild : (mapDraft (Routing.twoSubsystems.take 1)).build =
      .ok { smallMap with subsystems := Routing.twoSubsystems.take 1 } :=
    build_mapDraft (List.cons_ne_nil _ _) rfl
  obtain ⟨c', hyields', hpart⟩ := fewerSubsystems_of_yields hbuild
    (show (Instrument.configure _ { smallMap with
      subsystems := Routing.twoSubsystems.take 1 ++ Routing.twoSubsystems.drop 1 }).Yields false c
      from hyields)
  exact ⟨c, c', hyields, hyields', hpart⟩

end Configured

end Heterodyne
