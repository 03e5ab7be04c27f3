import Heterodyne.Proofs.Configuration.WindowTree
import Heterodyne.Proofs.Observation.Valid
import Mathlib.Data.List.Count
/-!
# How often windows are routed

The receptors of an observation are routed as they are listed. A receptor that is listed again asks
for the same slots in the same states, so nothing stands in its way, and its windows are routed
again.

* `map_demanded`: receptors ask for every window, one receptor after another.
* `timesRouted_of_yields`: a window of a receptor is routed as often as the receptor is listed.
* `timesRouted_of_accepted`: it is routed once exactly if no receptor is enabled twice.
-/

namespace Heterodyne

/-! ## Routings -/

namespace Routing

variable {wiring : Wiring} {ws : List (WindowId × String)} {rs : List Receptor}

/-- Receptors that have slots enough ask for every window, one receptor after another. -/
theorem map_demanded
    (h : ∀ r ∈ rs, ∃ slots, wiring.slots? r = some slots ∧ ws.length ≤ slots.length) :
    (demanded wiring ws rs).map (fun a => (a.receptor, a.window)) =
      rs.flatMap fun r => (ws.map Prod.fst).map (Prod.mk r) := by
  induction rs with
  | nil => rfl
  | cons r rest ih =>
    obtain ⟨slots, hslots, hlen⟩ := h r List.mem_cons_self
    have hfirst : (demands ws r slots).map (fun a => (a.receptor, a.window)) =
        (ws.map Prod.fst).map (Prod.mk r) := by
      -- the slots that are left over are not asked for
      have hwindows : ws.map Prod.fst = ((ws.zip slots).map Prod.fst).map Prod.fst := by
        rw [List.map_fst_zip hlen]
      rw [demands, List.map_zipWith, hwindows, List.map_map, List.map_map, List.map_zip_eq_zipWith]
      rfl
    have hrest := ih fun q hq => h q (List.mem_cons_of_mem _ hq)
    rw [← List.singleton_append, demanded_append, List.map_append, demanded_singleton hslots,
      hfirst, hrest]
    rfl

/-- Of different windows, each is paired with a receptor as often as the receptor is listed. -/
theorem count_pairs {ids : List WindowId} (hids : ids.Nodup) {id : WindowId} (hid : id ∈ ids)
    (q : Receptor) : (rs.flatMap fun r => ids.map (Prod.mk r)).count (q, id) = rs.count q := by
  induction rs with
  | nil => rfl
  | cons r rest ih =>
    have hfirst : (ids.map (Prod.mk r)).count (q, id) = if r = q then 1 else 0 := by
      split
      · rename_i hr
        subst hr
        have hinj : Function.Injective (Prod.mk r : WindowId → Receptor × WindowId) :=
          fun a b hab => congrArg Prod.snd hab
        rw [List.count_map_of_injective _ _ hinj]
        exact List.count_eq_one_of_mem hids hid
      · rename_i hr
        rw [List.count_eq_zero]
        intro hmem
        obtain ⟨w, -, hw⟩ := List.mem_map.1 hmem
        exact hr (congrArg Prod.fst hw)
    rw [List.flatMap_cons, List.count_append, hfirst, ih, List.count_cons, Nat.add_comm]
    simp only [beq_iff_eq]

/-- A window of a receptor is assigned as often as the receptor is listed. -/
theorem countP_demanded
    (h : ∀ r ∈ rs, ∃ slots, wiring.slots? r = some slots ∧ ws.length ≤ slots.length)
    (hids : (ws.map Prod.fst).Nodup) {id : WindowId} (hid : id ∈ ws.map Prod.fst) (q : Receptor) :
    (demanded wiring ws rs).countP (fun a => a.receptor = q ∧ a.window = id) = rs.count q := by
  rw [← count_pairs hids hid q, ← map_demanded h, List.count, List.countP_map]
  apply List.countP_congr
  intro a _
  simp [Prod.ext_iff]

end Routing

/-! ## Configurations -/

/-- How often a window of a receptor is routed. -/
def CorrelatorBlock.timesRouted (b : CorrelatorBlock) (receptor window : String) : ℕ :=
  b.routes.countP fun r => r.receptor = receptor ∧ r.window = window

section Configurations

variable {α : Type} [Scalar α] {i : Instrument α} {o : Descriptor α} {c : Configuration α}
  {d : Bool}

/-- A configuration routes every window that is no hybrid as often for a receptor as the receptor
is listed. -/
theorem timesRouted_of_yields (h : (i.configure o).Yields d c) (q : Receptor) {w : Window α}
    (hw : w ∈ c.windows) (hleaf : w.subbands = []) :
    c.correlator.timesRouted q w.id = o.receptors.count q := by
  obtain ⟨mode, plan, routing, cubes, timing, -, hplan, hrouting, -, -, rfl⟩ :=
    yields_configure_iff.1 h
  have hwell := wellFormed_of_yields hplan
  obtain ⟨hroutable, hserves⟩ := Routing.yields_ofPlan hrouting
  rw [Routing.windows_eq_leaves hwell] at hroutable
  -- A window without subbands is that of a subband of the plan.
  obtain ⟨ss, hss, hmem⟩ := List.mem_flatMap.1 hw
  rcases eq_ofHybrid_or_ofSubband hmem with ⟨-, hhybrid⟩ | ⟨sb, hsb, rfl⟩
  · exact absurd hleaf hhybrid
  have hid : sb.id ∈ plan.leaves.map Prod.fst :=
    List.mem_map_of_mem (List.mem_map_of_mem (Plan.mem_subbands_iff.2 ⟨hss, hsb⟩))
  have hids : (plan.leaves.map Prod.fst).Nodup := by
    rw [List.Nodup, List.pairwise_map]
    exact hwell.ascending_leaves.imp fun hlt heq => Nat.ne_of_lt hlt (congrArg Ranked.rank heq)
  rw [← Routing.countP_demanded hroutable.served hids hid q, ← hserves.assignments_eq hwell]
  show (routing.assignments.map Route.ofAssignment).countP _ = _
  rw [List.countP_map]
  apply List.countP_congr
  intro a _
  have hname : a.window.name = sb.id.name ↔ a.window = sb.id :=
    ⟨WindowId.name_injective, congrArg WindowId.name⟩
  simp [Route.ofAssignment, Window.ofSubband, hname]

/-- A configuration of at least one subsystem has a window that is no hybrid. -/
theorem exists_leaf_of_yields (h : (i.configure o).Yields d c) (hsome : o.subsystems ≠ []) :
    ∃ w ∈ c.windows, w.subbands = [] := by
  obtain ⟨mode, plan, routing, cubes, timing, -, hplan, -, -, -, rfl⟩ := yields_configure_iff.1 h
  obtain ⟨ss, hss⟩ : ∃ ss, ss ∈ plan.subsystems := by
    rw [← List.length_pos_iff_exists_mem, length_of_yields_ofSubsystems hplan]
    exact List.length_pos_iff.2 hsome
  obtain ⟨sb, hsb⟩ : ∃ sb, sb ∈ ss.subbands := by
    rw [← List.length_pos_iff_exists_mem, ← List.length_map (·.id)]
    rcases ((wellFormed_of_yields hplan).wellCut ss hss).ids with hids | hids
    · rw [hids]
      exact Nat.zero_lt_one
    · rw [hids]
      exact Nat.zero_lt_two
  exact ⟨.ofSubband ss sb, ofSubband_mem_windows (Plan.mem_subbands_iff.2 ⟨hss, hsb⟩), rfl⟩

/-- What is accepted behind calls has every window that is no hybrid routed as often for a receptor
as the calls have enabled the receptor. So each of them is routed once for each receptor exactly if
no receptor is enabled twice. -/
theorem timesRouted_of_accepted {movement : Movement α} {switching : Switching}
    {calls : List (Draft.Call α)}
    (hbuild : ((Draft.begun movement switching).after calls).build = .ok o)
    (h : (i.configure o).Yields d c) :
    (∀ q ∈ o.receptors, ∀ w ∈ c.windows, w.subbands = [] →
      c.correlator.timesRouted q w.id = (calls.flatMap Draft.Call.enabled).count q) ∧
    ((∀ q ∈ o.receptors, ∀ w ∈ c.windows, w.subbands = [] →
        c.correlator.timesRouted q w.id = 1) ↔
      (calls.flatMap Draft.Call.enabled).Nodup) := by
  obtain ⟨hasked, hvalid⟩ := Draft.build_after_eq_ok_iff.1 hbuild
  rw [← hasked.receptors]
  refine ⟨fun q _ w hw hleaf => timesRouted_of_yields h q hw hleaf, ?_⟩
  rw [List.nodup_iff_count_eq_one]
  constructor
  · intro honce q hq
    obtain ⟨w, hw, hleaf⟩ := exists_leaf_of_yields h hvalid.subsystems
    rw [← timesRouted_of_yields h q hw hleaf]
    exact honce q hq w hw hleaf
  · intro hcount q hq w hw hleaf
    rw [timesRouted_of_yields h q hw hleaf]
    exact hcount q hq

end Configurations

/-! ## Receptors that are enabled twice -/

/-- Calls that ask for the small map and enable one of its receptors again. -/
def enabledAgain : List (Draft.Call Binary64) :=
  Routing.twoSubsystems.map .subsystem ++
    [.receptors ["H00", "H01"], .receptors ["H00"], .nyquist smallMap.nyquist]

/-- The small map with one of its receptors listed twice. -/
def repeatedMap : Descriptor Binary64 := { smallMap with receptors := ["H00", "H01", "H00"] }

/-- The calls are accepted. -/
theorem build_enabledAgain :
    ((Draft.begun smallMap.movement smallMap.switching).after enabledAgain).build =
      .ok repeatedMap := by
  have hpositive : ¬ smallMap.nyquist.notPositive := by decide +kernel
  exact Draft.build_eq_ok_iff.2 ⟨rfl, List.cons_ne_nil _ _, rfl, List.cons_ne_nil _ _, by decide, _,
    rfl, hpositive, rfl⟩

/-- What routes the receptors of the small map routes them again. -/
theorem exists_yields_repeatedMap :
    ∃ c, ((⟨Settings.standard, Routing.twoReceptors⟩ : Instrument Binary64).configure
      repeatedMap).Yields false c := by
  obtain ⟨c, hyields, -⟩ := exists_yields_smallMap
  obtain ⟨mode, plan, routing, cubes, timing, hmode, hplan, hrouting, hcubes, htiming, -⟩ :=
    yields_configure_iff.1 hyields
  have hagain : ∀ q ∈ repeatedMap.receptors, q ∈ smallMap.receptors := by decide
  obtain ⟨routing', hrouting'⟩ :=
    Routing.exists_yields_ofPlan_iff.2 ((Routing.yields_ofPlan hrouting).1.mono hagain)
  exact ⟨_, yields_configure_iff.2
    ⟨mode, plan, routing', cubes, timing, hmode, hplan, hrouting', hcubes, htiming, rfl⟩⟩

/-- The windows of the receptor that is enabled twice are routed twice, and those of the other one
once. -/
theorem timesRouted_enabledAgain :
    ∃ c, ((Draft.begun smallMap.movement smallMap.switching).after enabledAgain).build =
        .ok repeatedMap ∧
      ((⟨Settings.standard, Routing.twoReceptors⟩ : Instrument Binary64).configure
        repeatedMap).Yields false c ∧
      ∀ w ∈ c.windows, w.subbands = [] →
        c.correlator.timesRouted "H00" w.id = 2 ∧ c.correlator.timesRouted "H01" w.id = 1 := by
  obtain ⟨c, hyields⟩ := exists_yields_repeatedMap
  obtain ⟨htimes, -⟩ := timesRouted_of_accepted build_enabledAgain hyields
  refine ⟨c, build_enabledAgain, hyields, fun w hw hleaf => ⟨?_, ?_⟩⟩
  · exact htimes "H00" (by decide) w hw hleaf
  · exact htimes "H01" (by decide) w hw hleaf

/-- The windows of an accepted observation need not be routed once for each enabled receptor. -/
theorem not_timesRouted_eq_one :
    ¬ ∀ (o : Descriptor Binary64) (c : Configuration Binary64),
      ((Draft.begun smallMap.movement smallMap.switching).after enabledAgain).build = .ok o →
      ((⟨Settings.standard, Routing.twoReceptors⟩ : Instrument Binary64).configure o).Yields
        false c →
      ∀ q ∈ o.receptors, ∀ w ∈ c.windows, w.subbands = [] →
        c.correlator.timesRouted q w.id = 1 := by
  intro honce
  obtain ⟨c, hyields⟩ := exists_yields_repeatedMap
  obtain ⟨w, hw, hleaf⟩ := exists_leaf_of_yields hyields (List.cons_ne_nil _ _)
  have htimes := honce repeatedMap c build_enabledAgain hyields "H00" (by decide) w hw hleaf
  rw [timesRouted_of_yields hyields "H00" hw hleaf] at htimes
  exact absurd htimes (by decide)

end Heterodyne
