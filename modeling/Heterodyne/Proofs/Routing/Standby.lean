import Heterodyne.Proofs.Routing.Planned
/-!
# Modes of quadrants

Quadrants are put into a mode twice: first by the windows that are routed through them, and then,
where no window is, by the standby modes of the wiring. Windows take precedence over every standby
mode, whichever receptor's slot it is of; among standby modes the first one in the order of the
wiring does, even if its receptor is not enabled.

* `mem_allSlots_of_slots?`: the slots of a receptor are slots of the wiring.
* `Serves.standby`: the mode of a quadrant that no window is routed through.
* `quadrantModes_of_yields`: which quadrants have a mode, and which mode it is.
-/

namespace Heterodyne

open Ranked (rank)

/-! ## Slots of a wiring -/

namespace Wiring

variable {w : Wiring}

/-- The standby mode of a quadrant, which the first slot in it decides, receptors taken in the order
of their wiring and the slots of each in their own order. -/
def standby? (w : Wiring) (q : UInt32) : Option String :=
  (w.allSlots.find? fun p => p.2.quadrant = q).map fun p => p.2.standby

/-- A quadrant has a standby mode exactly if a slot is in it. -/
theorem exists_standby?_iff {q : UInt32} :
    (∃ m, w.standby? q = some m) ↔ ∃ p ∈ w.allSlots, p.2.quadrant = q := by
  rw [← Option.isSome_iff_exists, standby?, Option.isSome_map, List.find?_isSome]
  simp only [decide_eq_true_eq]

/-- The slots of a receptor are slots of the wiring. -/
theorem mem_allSlots_of_slots? {r : Receptor} {slots : List Slot} {slot : Slot}
    (h : w.slots? r = some slots) (hslot : slot ∈ slots) : (r, slot) ∈ w.allSlots := by
  obtain ⟨before, behind, hentries, -⟩ := List.lookup_eq_some_iff.1 h
  rw [allSlots, hentries, List.mem_flatMap]
  exact ⟨(r, slots), by simp, List.mem_map_of_mem hslot⟩

end Wiring

namespace Claims

/-- A quadrant that is not claimed has the standby mode of the wiring. -/
theorem get?_quadrantModes_addStandby_wiring (c : Claims) (wiring : Wiring) (q : UInt32) :
    (c.addStandby (wiring.allSlots.map Prod.snd)).quadrantModes.get? q =
      (c.quadrantModes.get? q).or (wiring.standby? q) := by
  have hfind : (fun s : Slot => decide (rank q = rank s.quadrant)) ∘ Prod.snd =
      fun p : Receptor × Slot => decide (p.2.quadrant = q) := by
    funext p
    exact decide_eq_decide.2 ⟨fun h => (Ranked.rank_injective h).symm, fun h => h ▸ rfl⟩
  rw [get?_quadrantModes_addStandby, List.find?_map, Option.map_map, hfind]
  rfl

end Claims

/-! ## Routings -/

namespace Routing

variable {α : Type} {plan : Plan α} {wiring : Wiring} {rs : List Receptor} {r : Routing α}
  {d : Bool}

/-- A quadrant that no window is routed through has its standby mode. -/
theorem Serves.standby (h : r.Serves plan wiring rs) {q : UInt32}
    (hq : ∀ a ∈ r.assignments, a.slot.quadrant ≠ q) :
    r.claims.quadrantModes.get? q = wiring.standby? q := by
  obtain ⟨c, hc, hclaims⟩ := h.claims
  have hfree : c.quadrantModes.get? q = none := by
    rw [Option.eq_none_iff_forall_ne_some]
    intro m hm
    obtain ⟨a, ha, hquadrant, -⟩ := (hc.quadrants q m).1 hm
    exact hq a ha hquadrant
  rw [hclaims, Claims.get?_quadrantModes_addStandby_wiring, hfree, Option.none_or]

/-- Windows are routed through slots of the wiring. -/
theorem Serves.mem_allSlots (h : r.Serves plan wiring rs) {a : Assignment}
    (ha : a ∈ r.assignments) : (a.receptor, a.slot) ∈ wiring.allSlots := by
  rw [h.assignments, mem_demanded_iff] at ha
  obtain ⟨-, k, -, hslot⟩ := ha
  cases hslots : wiring.slots? a.receptor with
  | none => simp [hslots] at hslot
  | some slots =>
    rw [hslots, Option.getD_some] at hslot
    exact Wiring.mem_allSlots_of_slots? hslots (List.mem_of_getElem? hslot)

/-- The quadrants that have a mode are those of the wiring. -/
theorem Serves.mem_keys_quadrantModes (h : r.Serves plan wiring rs) {q : UInt32} :
    q ∈ r.claims.quadrantModes.keys ↔ ∃ p ∈ wiring.allSlots, p.2.quadrant = q := by
  rw [Table.mem_keys]
  by_cases hq : ∃ a ∈ r.assignments, a.slot.quadrant = q
  · obtain ⟨a, ha, rfl⟩ := hq
    exact iff_of_true ⟨a.label, h.quadrant ha⟩ ⟨_, h.mem_allSlots ha, rfl⟩
  · have hunused : ∀ a ∈ r.assignments, a.slot.quadrant ≠ q := fun a ha hquadrant =>
      hq ⟨a, ha, hquadrant⟩
    rw [h.standby hunused, Wiring.exists_standby?_iff]

/-- The quadrants of the wiring have a mode, and no others. Where a window is routed through a
quadrant the mode is the label of the window, and elsewhere it is the standby mode of the first
slot in the quadrant. -/
theorem quadrantModes_of_yields (h : (ofPlan plan wiring rs).Yields d r) :
    (∀ q, q ∈ r.claims.quadrantModes.keys ↔ ∃ p ∈ wiring.allSlots, p.2.quadrant = q) ∧
    (∀ a ∈ r.assignments, r.claims.quadrantModes.get? a.slot.quadrant = some a.label) ∧
    ∀ q, (∀ a ∈ r.assignments, a.slot.quadrant ≠ q) →
      r.claims.quadrantModes.get? q = wiring.standby? q := by
  obtain ⟨-, hserves⟩ := yields_ofPlan h
  exact ⟨fun _ => hserves.mem_keys_quadrantModes, fun _ => hserves.quadrant,
    fun _ => hserves.standby⟩

/-- Two receptors whose slots are in the same quadrants, for which they have different standby
modes. -/
def sharedQuadrants : Wiring :=
  .ofList [("H00", [0, 1, 2, 3].map fun s => ⟨s, s, s, "500MHzx4096", s⟩),
    ("H01", [0, 1, 2, 3].map fun s => ⟨4 + s, 4 + s, s, "1GHzx2048", s⟩)]

/-- With the second receptor alone, a quadrant that it uses runs the label of its window, and the
one that it does not use is in the standby mode of the first receptor. -/
theorem quadrantModes_sharedQuadrants :
    ∃ plan, (Plan.ofSubsystems Settings.standard twoSubsystems).Yields false plan ∧
      ∃ r, (ofPlan plan sharedQuadrants ["H01"]).Yields false r ∧
        (∀ q, q ∈ r.claims.quadrantModes.keys ↔ ∃ p ∈ sharedQuadrants.allSlots,
          p.2.quadrant = q) ∧
        r.claims.quadrantModes.get? 2 = some "250MHzx8192" ∧
        r.claims.quadrantModes.get? 3 = some "500MHzx4096" := by
  obtain ⟨plan, hplan, hleaves⟩ := exists_plan_twoSubsystems
  have hwell := wellFormed_of_yields hplan
  obtain ⟨r, hr⟩ := exists_yields_of_routable (d := false) hwell
    (show Routable sharedQuadrants plan.leaves ["H01"] by
      rw [hleaves]
      decide +kernel)
  obtain ⟨hkeys, hused, hstandby⟩ := quadrantModes_of_yields hr
  have hassignments := (yields_ofPlan hr).2.assignments_eq hwell
  rw [hleaves] at hassignments
  have hthird : ⟨"H01", .ofSubsystem 2, ⟨6, 6, 2, "1GHzx2048", 2⟩, "250MHzx8192"⟩ ∈
      r.assignments := by
    rw [hassignments]
    decide +kernel
  have hunused : ∀ a ∈ r.assignments, a.slot.quadrant ≠ 3 := by
    rw [hassignments]
    decide +kernel
  refine ⟨plan, hplan, r, hr, hkeys, hused _ hthird, ?_⟩
  rw [hstandby 3 hunused]
  decide +kernel

end Routing

end Heterodyne
