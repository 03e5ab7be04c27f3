import Heterodyne.Proofs.Outcome
import Heterodyne.Proofs.Table
import Heterodyne.Routing
/-!
# Claims and compatible assignments

Assignments are recorded one after another, and each is checked against the tables only. Yet the
tables record assignments exactly if these are pairwise compatible, so neither the order in
which they are recorded nor repetitions have an influence.

* `add_eq_ok_iff`: an assignment is recorded exactly if it is compatible with all before it.
* `yields_assignAll_iff`: a list of assignments is recorded exactly if it is in accord.
-/

namespace Heterodyne

/-- Two assignments do not want one piece of hardware in two states. -/
structure Assignment.Compatible (a b : Assignment) : Prop where
  module : a.slot.module = b.slot.module → a.label = b.label
  quadrant : a.slot.quadrant = b.slot.quadrant → a.label = b.label
  converter : a.slot.converter = b.slot.converter →
    Bandwidth.nominal a.label = Bandwidth.nominal b.label
  synth : a.slot.synth = b.slot.synth → a.window = b.window

/-- An assignment is compatible with itself. -/
theorem Assignment.Compatible.refl (a : Assignment) : a.Compatible a :=
  ⟨fun _ => rfl, fun _ => rfl, fun _ => rfl, fun _ => rfl⟩

/-- Compatibility goes both ways. -/
theorem Assignment.Compatible.symm {a b : Assignment} (h : a.Compatible b) : b.Compatible a where
  module e := (h.module e.symm).symm
  quadrant e := (h.quadrant e.symm).symm
  converter e := (h.converter e.symm).symm
  synth e := (h.synth e.symm).symm

instance (a b : Assignment) : Decidable (a.Compatible b) :=
  decidable_of_iff
    ((a.slot.module = b.slot.module → a.label = b.label) ∧
      (a.slot.quadrant = b.slot.quadrant → a.label = b.label) ∧
      (a.slot.converter = b.slot.converter →
        Bandwidth.nominal a.label = Bandwidth.nominal b.label) ∧
      (a.slot.synth = b.slot.synth → a.window = b.window))
    ⟨fun ⟨hm, hq, hc, hs⟩ => ⟨hm, hq, hc, hs⟩,
      fun h => ⟨h.module, h.quadrant, h.converter, h.synth⟩⟩

/-- Every two of the assignments are compatible. -/
def Accord (as : List Assignment) : Prop := ∀ a ∈ as, ∀ b ∈ as, a.Compatible b

instance (as : List Assignment) : Decidable (Accord as) :=
  inferInstanceAs (Decidable (∀ a ∈ as, ∀ b ∈ as, a.Compatible b))

/-- Fewer assignments are in accord if all are. -/
theorem Accord.mono {as bs : List Assignment} (h : Accord bs) (hsub : ∀ a ∈ as, a ∈ bs) :
    Accord as :=
  fun a ha b hb => h a (hsub a ha) b (hsub b hb)

namespace Claims

variable {α : Type} {c c' : Claims} {as bs : List Assignment} {a : Assignment} {d : Bool}

/-- The claims are those of the listed assignments. -/
structure Records (c : Claims) (as : List Assignment) : Prop where
  modules : c.moduleModes.Collects (·.slot.module) (·.label) as
  quadrants : c.quadrantModes.Collects (·.slot.quadrant) (·.label) as
  converters : c.converterBandwidths.Collects (·.slot.converter)
    (fun a => Bandwidth.nominal a.label) as
  synths : c.synthWindows.Collects (·.slot.synth) (·.window) as

/-- Without claims nothing is recorded. -/
theorem records_nil : Records {} [] :=
  ⟨Table.collects_nil, Table.collects_nil, Table.collects_nil, Table.collects_nil⟩

/-- Recorded assignments are in accord. -/
theorem Records.accord (h : c.Records as) : Accord as := fun _ ha _ hb =>
  ⟨h.modules.agree ha hb, h.quadrants.agree ha hb, h.converters.agree ha hb, h.synths.agree ha hb⟩

/-- The claims depend on which assignments are recorded only. -/
theorem Records.eq_of_mem_iff (h : c.Records as) (h' : c'.Records bs) (hmem : ∀ a, a ∈ as ↔ a ∈ bs) :
    c = c' := by
  have hto : ∀ a ∈ as, a ∈ bs := fun a ha => (hmem a).1 ha
  have hfrom : ∀ a ∈ bs, a ∈ as := fun a ha => (hmem a).2 ha
  obtain ⟨moduleModes, quadrantModes, converterBandwidths, synthWindows⟩ := c
  congr 1
  · exact (h.modules.isPartOf h'.modules hto).antisymm (h'.modules.isPartOf h.modules hfrom)
  · exact (h.quadrants.isPartOf h'.quadrants hto).antisymm
      (h'.quadrants.isPartOf h.quadrants hfrom)
  · exact (h.converters.isPartOf h'.converters hto).antisymm
      (h'.converters.isPartOf h.converters hfrom)
  · exact (h.synths.isPartOf h'.synths hto).antisymm (h'.synths.isPartOf h.synths hfrom)

/-- The claims with those of one more assignment. -/
def after (c : Claims) (a : Assignment) : Claims where
  moduleModes := c.moduleModes.insert a.slot.module a.label
  quadrantModes := c.quadrantModes.insert a.slot.quadrant a.label
  converterBandwidths := c.converterBandwidths.insert a.slot.converter (Bandwidth.nominal a.label)
  synthWindows := c.synthWindows.insert a.slot.synth a.window

/-- An assignment that is compatible with the recorded ones is recorded with them. -/
theorem Records.after (h : c.Records as) (hc : ∀ b ∈ as, b.Compatible a) :
    (c.after a).Records (as ++ [a]) where
  modules := h.modules.insert fun b hb => (hc b hb).module
  quadrants := h.quadrants.insert fun b hb => (hc b hb).quadrant
  converters := h.converters.insert fun b hb => (hc b hb).converter
  synths := h.synths.insert fun b hb => (hc b hb).synth

/-! ## One assignment -/

section Record

variable {κ β γ : Type} [Ranked κ] [DecidableEq β] {t t' : Table κ β} {key : γ → κ}
  {value : γ → β} {xs : List γ} {conflict : β → Refusal α}

/-- A state is recorded exactly if no collected element contradicts it. -/
theorem record_eq_ok_iff (h : t.Collects key value xs) (x : γ) :
    record t (key x) (value x) conflict = .ok t' ↔
      (∀ y ∈ xs, key y = key x → value y = value x) ∧ t' = t.insert (key x) (value x) := by
  -- The table is asked for one state, and the elements that were collected all have it.
  have hfree : (∀ v, t.get? (key x) = some v → v = value x) ↔
      ∀ y ∈ xs, key y = key x → value y = value x := by
    constructor
    · intro hv y hy hk
      exact hv _ (hk ▸ h.get? hy)
    · intro hy v hv
      obtain ⟨y, hmem, hk, rfl⟩ := (h _ _).1 hv
      exact hy y hmem hk
  rw [← hfree, ← claim_eq_ok_iff]
  unfold record
  cases claim t (key x) (value x) <;> simp

/-- A state is refused for the cause that the other state makes. -/
theorem exists_conflict_of_record {k : κ} {v : β} {cause : Refusal α}
    (h : record t k v conflict = .error cause) : ∃ w, cause = conflict w := by
  unfold record at h
  cases hcl : claim t k v with
  | ok _ => simp [hcl] at h
  | error w =>
    simp only [hcl, Except.error.injEq] at h
    exact ⟨w, h.symm⟩

end Record

/-- An assignment is recorded exactly if it is compatible with all that are. -/
theorem add_eq_ok_iff (h : c.Records as) :
    (c.add a : Except (Refusal α) Claims) = .ok c' ↔
      (∀ b ∈ as, b.Compatible a) ∧ c' = c.after a := by
  simp only [add, check_bind_eq_ok, pure, Except.pure, Except.ok.injEq]
  constructor
  · rintro ⟨m, hm, q, hq, v, hv, s, hs, rfl⟩
    obtain ⟨hmodule, rfl⟩ := (record_eq_ok_iff h.modules a).1 hm
    obtain ⟨hquadrant, rfl⟩ := (record_eq_ok_iff h.quadrants a).1 hq
    obtain ⟨hconverter, rfl⟩ := (record_eq_ok_iff h.converters a).1 hv
    obtain ⟨hsynth, rfl⟩ := (record_eq_ok_iff h.synths a).1 hs
    exact ⟨fun b hb => ⟨hmodule b hb, hquadrant b hb, hconverter b hb, hsynth b hb⟩, rfl⟩
  · rintro ⟨hc, rfl⟩
    exact ⟨_, (record_eq_ok_iff h.modules a).2 ⟨fun b hb => (hc b hb).module, rfl⟩,
      _, (record_eq_ok_iff h.quadrants a).2 ⟨fun b hb => (hc b hb).quadrant, rfl⟩,
      _, (record_eq_ok_iff h.converters a).2 ⟨fun b hb => (hc b hb).converter, rfl⟩,
      _, (record_eq_ok_iff h.synths a).2 ⟨fun b hb => (hc b hb).synth, rfl⟩, rfl⟩

/-- An assignment is refused for a conflict only. -/
theorem kind_of_add {cause : Refusal α} (h : c.add a = .error cause) :
    cause.kind = .conflict := by
  simp only [add, check_bind_eq_error, pure, Except.pure, reduceCtorEq, and_false, exists_false,
    or_false] at h
  rcases h with h | ⟨_, -, h | ⟨_, -, h | ⟨_, -, h⟩⟩⟩ <;>
    obtain ⟨w, rfl⟩ := exists_conflict_of_record h <;> rfl

/-! ## Lists of assignments -/

open Routing (assignAll)

/-- Assignments are recorded behind others exactly if all together are in accord. -/
theorem yields_assignAll_iff (h : c.Records as) :
    (∃ c', (assignAll bs c : Run α Claims).Yields d c') ↔ Accord (as ++ bs) := by
  -- Along the list, the claims record the assignments that have been passed.
  induction bs generalizing c as with
  | nil => simpa [assignAll] using h.accord
  | cons a bs ih =>
    simp only [assignAll, Run.yields_bind, Run.yields_ofCheck, add_eq_ok_iff h]
    constructor
    · rintro ⟨c', c₁, ⟨hc, rfl⟩, -, -, hrest⟩
      rw [List.append_cons]
      exact (ih (h.after hc)).1 ⟨c', hrest⟩
    · intro hacc
      have hc : ∀ b ∈ as, b.Compatible a := fun b hb =>
        hacc b (List.mem_append_left _ hb) a (by simp)
      rw [List.append_cons] at hacc
      obtain ⟨c', hrest⟩ := (ih (h.after hc)).2 hacc
      exact ⟨c', c.after a, ⟨hc, rfl⟩, (), Run.yields_tell, hrest⟩

/-- The claims that are reached record the assignments behind the others. -/
theorem Records.assignAll (h : c.Records as)
    (hrun : (Routing.assignAll bs c : Run α Claims).Yields d c') : c'.Records (as ++ bs) := by
  induction bs generalizing c as with
  | nil =>
    simp only [Routing.assignAll, Run.yields_pure] at hrun
    rw [List.append_nil, ← hrun]
    exact h
  | cons a bs ih =>
    simp only [Routing.assignAll, Run.yields_bind, Run.yields_ofCheck, add_eq_ok_iff h] at hrun
    obtain ⟨c₁, ⟨hc, rfl⟩, -, -, hrest⟩ := hrun
    rw [List.append_cons]
    exact ih (h.after hc) hrest

/-- Assignments are refused for a conflict only. -/
theorem kind_of_refuses_assignAll {cause : Refusal α} (h : (assignAll bs c).Refuses d cause) :
    cause.kind = .conflict := by
  induction bs generalizing c with
  | nil => simp [assignAll] at h
  | cons a bs ih =>
    simp only [assignAll, Run.refuses_bind, Run.refuses_ofCheck, Run.not_refuses_tell,
      false_or] at h
    rcases h with hadd | ⟨c₁, -, -, -, hrest⟩
    · exact kind_of_add hadd
    · exact ih hrest

/-- Recording assignments does no arithmetic, so it does not break off. -/
theorem not_breaksOff_assignAll : ¬ (assignAll bs c : Run α Claims).BreaksOff d := by
  induction bs generalizing c with
  | nil => exact Run.not_breaksOff_pure
  | cons a bs ih =>
    simp only [assignAll, Run.breaksOff_bind, Run.not_breaksOff_ofCheck, Run.not_breaksOff_tell,
      false_or]
    rintro ⟨c₁, -, -, -, hrest⟩
    exact ih hrest

/-! ## Standby modes -/

/-- A quadrant that is claimed keeps its mode, and another one has the standby mode of the first
slot in it. -/
theorem get?_quadrantModes_addStandby (c : Claims) (slots : List Slot) (q : UInt32) :
    (c.addStandby slots).quadrantModes.get? q =
      (c.quadrantModes.get? q).or
        ((slots.find? fun s => Ranked.rank q = Ranked.rank s.quadrant).map Slot.standby) :=
  Table.get?_foldl_insertNew Slot.quadrant Slot.standby slots c.quadrantModes q

end Claims

end Heterodyne
