import Heterodyne.Proofs.Routing.Planned
import Heterodyne.Proofs.Wiring.Listed
import Heterodyne.Spectrum.WindowId
/-!
# Routing on an array receiver

The receptors of an array are wired alike. Each has modules and down-converters of its own, every
fourth one shares the quadrants, and all share the synthesizers: the slots of one place in all
receptors hang on the same synthesizer, and a quadrant serves one place only. Since the windows
are given to the slots in order, one place is always given one window, and nothing conflicts.

* `arrayName_injective`: the receptors have different names.
* `number_inj`: the number of a slot tells its receptor and its place.
* `routable_array`: whatever windows fit into the slots are routable for all receptors.
* `array_outcome`: they are routed, place by place.
-/

namespace Heterodyne

namespace Wiring

/-! ## Wiring of an array -/

/-- The name of a receptor of an array, whose number has at least two digits. -/
def arrayName (r : Nat) : Receptor := "H" ++ (if r < 10 then "0" else "") ++ toString r

/-- The slot of a receptor at a place among `k` ones. -/
def arraySlot (k r s : Nat) : Slot where
  module := .ofNat (r * k + s)
  converter := .ofNat (r * k + s)
  quadrant := .ofNat (r % 4 * k + s)
  standby := "1GHzx2048"
  synth := .ofNat s

/-- An array of `n` receptors with `k` slots each. -/
def array (n k : Nat) : Wiring :=
  .ofList ((List.range n).map fun r => (arrayName r, (List.range k).map (arraySlot k r)))

/-- The digits of a name write the number of the receptor. -/
theorem ofDigitChars_arrayName (r : Nat) :
    Nat.ofDigitChars 10 (arrayName r).toList.tail 0 = r := by
  have htail : (arrayName r).toList.tail =
      (if r < 10 then ['0'] else []) ++ Nat.toDigits 10 r := by
    simp only [arrayName, String.toList_append, Nat.toString_eq_repr, Nat.toList_repr]
    split <;> rfl
  rw [htail]
  split
  · show Nat.ofDigitChars 10 (Nat.toDigits 10 r) 0 = r
    exact Nat.ofDigitChars_ten_toDigits
  · exact Nat.ofDigitChars_ten_toDigits

/-- Different receptors have different names. -/
theorem arrayName_injective : Function.Injective arrayName := by
  intro r r' h
  rw [← ofDigitChars_arrayName r, h, ofDigitChars_arrayName]

variable {n k : Nat}

/-- No name is listed twice. -/
theorem nodup_arrayNames (n k : Nat) :
    (((List.range n).map fun r =>
      (arrayName r, (List.range k).map (arraySlot k r))).map Prod.fst).Nodup := by
  rw [List.map_map]
  exact List.nodup_range.map arrayName_injective

/-- A receptor of an array has its slots in the order of their places. -/
theorem slots?_array {r : Nat} (hr : r < n) :
    (array n k).slots? (arrayName r) = some ((List.range k).map (arraySlot k r)) := by
  apply slots?_ofList_of_mem (nodup_arrayNames n k)
  exact List.mem_map.2 ⟨r, List.mem_range.2 hr, rfl⟩

/-- The receptors of an array are the numbered ones. -/
theorem mem_receptors_array {q : Receptor} :
    q ∈ (array n k).receptors ↔ ∃ r < n, arrayName r = q := by
  rw [array, receptors_ofList, List.mem_eraseDups, List.map_map]
  simp

/-! ## Numbers of slots -/

/-- The number of a slot is below the number of all slots. -/
theorem number_lt {r s : Nat} (hr : r < n) (hs : s < k) : r * k + s < n * k :=
  calc
    r * k + s < r * k + k := Nat.add_lt_add_left hs _
    _ = (r + 1) * k := (Nat.succ_mul r k).symm
    _ ≤ n * k := Nat.mul_le_mul_right k hr

/-- The number of a slot tells its receptor and its place. -/
theorem number_inj {r s r' s' : Nat} (hs : s < k) (hs' : s' < k)
    (h : r * k + s = r' * k + s') : r = r' ∧ s = s' := by
  have hplace : s = s' := by
    have hmod := congrArg (· % k) h
    simpa [Nat.mod_eq_of_lt hs, Nat.mod_eq_of_lt hs'] using hmod
  subst hplace
  exact ⟨Nat.eq_of_mul_eq_mul_right (Nat.zero_lt_of_lt hs) (Nat.add_right_cancel h), rfl⟩

/-- Equal identifiers stand for equal numbers in range. -/
theorem eq_of_ofNat_eq {i j : Nat} (hi : i < 2 ^ 32) (hj : j < 2 ^ 32)
    (h : UInt32.ofNat i = UInt32.ofNat j) : i = j := by
  have hnat := congrArg UInt32.toNat h
  rwa [UInt32.toNat_ofNat_of_lt' hi, UInt32.toNat_ofNat_of_lt' hj] at hnat

end Wiring

namespace Routing

open Ranked (rank)
open Wiring (array arrayName arraySlot)

variable {α : Type} {n k : Nat} {ws : List (WindowId × String)} {rs : List Receptor}
  {a b : Assignment}

/-! ## Assignments on an array -/

/-- The assignment gives the window of a place to the receptor of a number, on its slot of the
same place. -/
structure OnArray (n k : Nat) (ws : List (WindowId × String)) (a : Assignment) (r s : Nat) :
    Prop where
  receptor_lt : r < n
  place_lt : s < k
  receptor : a.receptor = arrayName r
  slot : a.slot = arraySlot k r s
  window : ws[s]? = some (a.window, a.label)

/-- What the receptors of an array ask for is one window for every place. -/
theorem exists_onArray (hrs : ∀ q ∈ rs, q ∈ (array n k).receptors)
    (ha : a ∈ demanded (array n k) ws rs) : ∃ r s, OnArray n k ws a r s := by
  obtain ⟨hq, s, hwindow, hslot⟩ := mem_demanded_iff.1 ha
  obtain ⟨r, hr, hname⟩ := Wiring.mem_receptors_array.1 (hrs _ hq)
  rw [← hname, Wiring.slots?_array hr, Option.getD_some, List.getElem?_map,
    Option.map_eq_some_iff] at hslot
  obtain ⟨s', hs', hslot⟩ := hslot
  obtain ⟨hs, rfl⟩ := List.getElem?_eq_some_iff.1 hs'
  rw [List.length_range] at hs
  rw [List.getElem_range] at hslot
  exact ⟨r, s, hr, hs, hname.symm, hslot.symm, hwindow⟩

section Numbers

variable {r s r' s' : Nat}

/-- Assignments at one place have one window with one label. -/
theorem OnArray.agree (ha : OnArray n k ws a r s) (hb : OnArray n k ws b r' s) :
    a.window = b.window ∧ a.label = b.label := by
  have h := ha.window
  rw [hb.window, Option.some.injEq, Prod.mk.injEq] at h
  exact ⟨h.1.symm, h.2.symm⟩

/-- A slot's number is an identifier. -/
theorem OnArray.number_lt (ha : OnArray n k ws a r s) (hsize : n * k < 2 ^ 32) :
    r * k + s < 2 ^ 32 :=
  Nat.lt_trans (Wiring.number_lt ha.receptor_lt ha.place_lt) hsize

/-- The number that a quadrant has is an identifier. -/
theorem OnArray.quadrant_lt (ha : OnArray n k ws a r s) (hsize : n * k < 2 ^ 32) :
    r % 4 * k + s < 2 ^ 32 := by
  have hquadrant : r % 4 < n := Nat.lt_of_le_of_lt (Nat.mod_le r 4) ha.receptor_lt
  exact Nat.lt_trans (Wiring.number_lt hquadrant ha.place_lt) hsize

/-- A place is an identifier. -/
theorem OnArray.place_lt_size (ha : OnArray n k ws a r s) (hsize : n * k < 2 ^ 32) :
    s < 2 ^ 32 :=
  Nat.lt_of_le_of_lt (Nat.le_add_left s (r * k)) (ha.number_lt hsize)

/-- A module belongs to one receptor and one place. -/
theorem OnArray.number_eq (ha : OnArray n k ws a r s) (hb : OnArray n k ws b r' s')
    (hsize : n * k < 2 ^ 32) (h : a.slot.module = b.slot.module) : r = r' ∧ s = s' := by
  rw [ha.slot, hb.slot] at h
  apply Wiring.number_inj ha.place_lt hb.place_lt
  exact Wiring.eq_of_ofNat_eq (ha.number_lt hsize) (hb.number_lt hsize) h

/-- A quadrant belongs to one place. -/
theorem OnArray.place_eq_of_quadrant (ha : OnArray n k ws a r s) (hb : OnArray n k ws b r' s')
    (hsize : n * k < 2 ^ 32) (h : a.slot.quadrant = b.slot.quadrant) : s = s' := by
  rw [ha.slot, hb.slot] at h
  have hnumber : r % 4 * k + s = r' % 4 * k + s' :=
    Wiring.eq_of_ofNat_eq (ha.quadrant_lt hsize) (hb.quadrant_lt hsize) h
  exact (Wiring.number_inj ha.place_lt hb.place_lt hnumber).2

/-- A synthesizer belongs to one place. -/
theorem OnArray.place_eq_of_synth (ha : OnArray n k ws a r s) (hb : OnArray n k ws b r' s')
    (hsize : n * k < 2 ^ 32) (h : a.slot.synth = b.slot.synth) : s = s' := by
  rw [ha.slot, hb.slot] at h
  exact Wiring.eq_of_ofNat_eq (ha.place_lt_size hsize) (hb.place_lt_size hsize) h

/-- Assignments on an array are compatible: what they share belongs to one place. -/
theorem OnArray.compatible (ha : OnArray n k ws a r s) (hb : OnArray n k ws b r' s')
    (hsize : n * k < 2 ^ 32) : a.Compatible b where
  module h := by
    obtain ⟨rfl, rfl⟩ := ha.number_eq hb hsize h
    exact (ha.agree hb).2
  quadrant h := by
    obtain rfl := ha.place_eq_of_quadrant hb hsize h
    exact (ha.agree hb).2
  converter h := by
    -- A slot's down-converter has the number of its module.
    have hmodule : a.slot.module = b.slot.module := by
      rw [ha.slot, hb.slot] at h ⊢
      exact h
    obtain ⟨rfl, rfl⟩ := ha.number_eq hb hsize hmodule
    rw [(ha.agree hb).2]
  synth h := by
    obtain rfl := ha.place_eq_of_synth hb hsize h
    exact (ha.agree hb).1

end Numbers

/-! ## Routings -/

/-- Windows that fit into the slots are routable for all receptors of an array. -/
theorem routable_array (hsize : n * k < 2 ^ 32) (hfit : ws.length ≤ k)
    (hrs : ∀ q ∈ rs, q ∈ (array n k).receptors) : Routable (array n k) ws rs where
  served q hq := by
    obtain ⟨r, hr, rfl⟩ := Wiring.mem_receptors_array.1 (hrs q hq)
    refine ⟨_, Wiring.slots?_array hr, ?_⟩
    rw [List.length_map, List.length_range]
    exact hfit
  accord a ha b hb := by
    obtain ⟨r, s, ha⟩ := exists_onArray hrs ha
    obtain ⟨r', s', hb⟩ := exists_onArray hrs hb
    exact ha.compatible hb hsize

/-- A receptor of an array asks for the window of every place. -/
theorem exists_demanded_array {q : Receptor} (hfit : ws.length ≤ k) (hq : q ∈ rs)
    (hrs : q ∈ (array n k).receptors) {s : Nat} {w : WindowId × String} (hw : ws[s]? = some w) :
    ∃ a ∈ demanded (array n k) ws rs, a.window = w.1 ∧ a.slot.synth = .ofNat s := by
  obtain ⟨r, hr, rfl⟩ := Wiring.mem_receptors_array.1 hrs
  have hs : s < k := Nat.lt_of_lt_of_le (List.getElem?_eq_some_iff.1 hw).1 hfit
  refine ⟨⟨arrayName r, w.1, arraySlot k r s, w.2⟩, mem_demanded_iff.2 ⟨hq, s, hw, ?_⟩, rfl, rfl⟩
  rw [Wiring.slots?_array hr, Option.getD_some, List.getElem?_map, List.getElem?_range hs]
  rfl

/-- On an array with a slot for every window of a planned spectrum, every list of receptors is
routed. The windows ascend, the synthesizer of each place is tuned for the window of the same
place, and no module serves two receptors or two windows. -/
theorem array_outcome [Scalar α] {settings : Settings α} {requests : List (Subsystem α)}
    {plan : Plan α} {d : Bool} (hplan : (Plan.ofSubsystems settings requests).Yields d plan)
    (hsize : n * k < 2 ^ 32) (hfit : plan.subbands.length ≤ k) (hsome : rs ≠ [])
    (hrs : ∀ q ∈ rs, q ∈ (array n k).receptors) (e : Bool) :
    ∃ routing, (ofPlan plan (array n k) rs).Yields e routing ∧
      ((windows plan).Pairwise fun v w => rank v.1 < rank w.1) ∧
      (∀ s w, (windows plan)[s]? = some w →
        routing.claims.synthWindows.get? (.ofNat s) = some w.1) ∧
      ∀ a ∈ routing.assignments, ∀ b ∈ routing.assignments,
        a.slot.module = b.slot.module → a.receptor = b.receptor ∧ a.window = b.window := by
  have hwell := wellFormed_of_yields hplan
  have hlen : (windows plan).length ≤ k := by
    rw [windows, List.length_mergeSort, List.length_map]
    exact hfit
  obtain ⟨routing, hrouting⟩ := exists_yields_ofPlan_iff.2 (routable_array hsize hlen hrs)
  obtain ⟨-, hserves⟩ := yields_ofPlan hrouting
  refine ⟨routing, hrouting, ?_, ?_, ?_⟩
  · rw [windows_eq_leaves hwell]
    exact hwell.ascending_leaves
  · intro s w hw
    obtain ⟨q, hq⟩ := List.exists_mem_of_ne_nil rs hsome
    obtain ⟨a, ha, hwindow, hsynth⟩ := exists_demanded_array hlen hq (hrs q hq) hw
    rw [← hserves.assignments] at ha
    rw [← hwindow, ← hsynth]
    exact hserves.synths.get? ha
  · intro a ha b hb hmodule
    rw [hserves.assignments] at ha hb
    obtain ⟨r, s, ha⟩ := exists_onArray hrs ha
    obtain ⟨r', s', hb⟩ := exists_onArray hrs hb
    obtain ⟨rfl, rfl⟩ := ha.number_eq hb hsize hmodule
    exact ⟨ha.receptor.trans hb.receptor.symm, (ha.agree hb).1⟩

/-- Sixteen receptors with four slots each serve the three windows of two subsystems. -/
theorem array_outcome_sixteen :
    ∃ plan, (Plan.ofSubsystems Settings.standard twoSubsystems).Yields false plan ∧
      plan.subbands.length = 3 ∧ 16 * 4 < 2 ^ 32 ∧
      ∃ routing, (ofPlan plan (array 16 4) ["H05", "H00", "H13"]).Yields false routing ∧
        routing.claims.synthWindows.get? 2 = some (.ofSubsystem 2) := by
  obtain ⟨plan, hplan, hleaves⟩ := exists_plan_twoSubsystems
  have hwindows : windows plan = _ := (windows_eq_leaves (wellFormed_of_yields hplan)).trans hleaves
  have hlen : plan.subbands.length = 3 := by
    have hlength := congrArg List.length hwindows
    rwa [windows, List.length_mergeSort, List.length_map] at hlength
  have hnames : ∀ q ∈ ["H05", "H00", "H13"], q ∈ (array 16 4).receptors := by
    decide +kernel
  obtain ⟨routing, hrouting, -, hsynths, -⟩ :=
    array_outcome hplan (show 16 * 4 < 2 ^ 32 by decide) (by rw [hlen]; decide) (by simp)
      hnames false
  refine ⟨plan, hplan, hlen, by decide, routing, hrouting, ?_⟩
  exact hsynths 2 (.ofSubsystem 2, "250MHzx8192") (by rw [hwindows]; rfl)

end Routing

end Heterodyne
