import Heterodyne.Proofs.Routing.Claims
import Heterodyne.Proofs.Spectrum.Planned
/-!
# When windows can be routed

Receptors are routed one after another, and the first that cannot be routed stops the routing.
What decides is nevertheless a condition on the receptors as a whole: each is wired with slots
enough, and what they ask of the hardware is compatible.

* `exists_yields_routeReceptors`, `yields_routeReceptors`: receptors are routed exactly if they
  are routable, and then as they ask.
* `refuses_routeReceptors`: otherwise the first receptor that is not routable behind those before
  it decides on the refusal.
* `yields_ofPlan`: what a routing holds.
-/

namespace Heterodyne

namespace Routing

open Claims (Records)

variable {α : Type} {wiring : Wiring} {ws : List (WindowId × String)} {d : Bool}

/-! ## What receptors ask for -/

/-- What receptors ask for in order: the first window for the first slot of the receptor, the
second window for its second slot, and so on. -/
def demanded (wiring : Wiring) (ws : List (WindowId × String)) (rs : List Receptor) :
    List Assignment :=
  rs.flatMap fun r =>
    List.zipWith (fun w slot => ⟨r, w.1, slot, w.2⟩) ws ((wiring.slots? r).getD [])

/-- Asked for is a window, for a listed receptor, on the slot of the same place. -/
theorem mem_demanded_iff {rs : List Receptor} {a : Assignment} :
    a ∈ demanded wiring ws rs ↔
      a.receptor ∈ rs ∧ ∃ k : Nat, ws[k]? = some (a.window, a.label) ∧
        ((wiring.slots? a.receptor).getD [])[k]? = some a.slot := by
  simp only [demanded, List.mem_flatMap]
  constructor
  · rintro ⟨r, hr, ha⟩
    obtain ⟨k, hk⟩ := List.mem_iff_getElem?.1 ha
    obtain ⟨w, slot, hw, hslot, rfl⟩ := List.getElem?_zipWith_eq_some.1 hk
    exact ⟨hr, k, hw, hslot⟩
  · rintro ⟨hr, k, hw, hslot⟩
    refine ⟨a.receptor, hr, List.mem_iff_getElem?.2 ⟨k, ?_⟩⟩
    exact List.getElem?_zipWith_eq_some.2 ⟨_, _, hw, hslot, rfl⟩

/-- Fewer receptors ask for fewer windows. -/
theorem demanded_subset {rs rs' : List Receptor} (hsub : ∀ r ∈ rs', r ∈ rs) :
    ∀ a ∈ demanded wiring ws rs', a ∈ demanded wiring ws rs :=
  fun _ ha => mem_demanded_iff.2 ((mem_demanded_iff.1 ha).imp_left (hsub _))

/-- Receptors in a longer list ask for more. -/
theorem demanded_append (before rest : List Receptor) :
    demanded wiring ws (before ++ rest) = demanded wiring ws before ++ demanded wiring ws rest :=
  List.flatMap_append

/-- A wired receptor asks for its slots. -/
theorem demanded_singleton {r : Receptor} {slots : List Slot} (h : wiring.slots? r = some slots) :
    demanded wiring ws [r] = demands ws r slots := by
  simp [demanded, demands, h]

/-- Every receptor is wired with a slot for every window, and what the receptors ask for is
compatible. -/
structure Routable (wiring : Wiring) (ws : List (WindowId × String)) (rs : List Receptor) :
    Prop where
  served : ∀ r ∈ rs, ∃ slots, wiring.slots? r = some slots ∧ ws.length ≤ slots.length
  accord : Accord (demanded wiring ws rs)

instance (wiring : Wiring) (ws : List (WindowId × String)) (rs : List Receptor) :
    Decidable (Routable wiring ws rs) :=
  decidable_of_iff
    ((∀ r ∈ rs, ∃ slots ∈ wiring.slots? r, ws.length ≤ slots.length) ∧
      Accord (demanded wiring ws rs))
    ⟨fun ⟨hserved, haccord⟩ => ⟨hserved, haccord⟩, fun h => ⟨h.served, h.accord⟩⟩

/-- No receptors are routable. -/
theorem routable_nil : Routable wiring ws [] :=
  ⟨fun _ hr => absurd hr List.not_mem_nil, fun _ ha => absurd ha List.not_mem_nil⟩

/-- Whether receptors are routable depends on which ones they are, and fewer are routable if all
are. -/
theorem Routable.mono {rs rs' : List Receptor} (h : Routable wiring ws rs)
    (hsub : ∀ r ∈ rs', r ∈ rs) : Routable wiring ws rs' where
  served r hr := h.served r (hsub r hr)
  accord := h.accord.mono (demanded_subset hsub)

/-- Why a receptor cannot be routed: it is not wired, or has too few slots, or wants hardware
that is taken. -/
def Obstructed (wiring : Wiring) (windows : Nat) (r : Receptor) (cause : Refusal α) : Prop :=
  match wiring.slots? r with
  | none => cause = .unknownReceptor r
  | some slots =>
    if slots.length < windows then cause = .tooFewSlots r windows slots.length
    else cause.kind = .conflict

/-! ## Receptors one after another -/

/-- A receptor is given its slots if there is one for every window. -/
theorem slotsFor_eq_ok_iff {windows : Nat} {r : Receptor} {slots : List Slot} :
    (slotsFor wiring windows r : Except (Refusal α) (List Slot)) = .ok slots ↔
      wiring.slots? r = some slots ∧ windows ≤ slots.length := by
  unfold slotsFor
  cases wiring.slots? r with
  | none => simp
  | some slots' =>
    by_cases hlen : slots'.length < windows
    · simp only [hlen, if_true, reduceCtorEq, Option.some.injEq, false_iff]
      rintro ⟨rfl, hle⟩
      omega
    · simp only [hlen, if_false, Except.ok.injEq, Option.some.injEq]
      constructor
      · rintro rfl
        exact ⟨rfl, by omega⟩
      · exact And.left

/-- A receptor that is given no slots is obstructed. -/
theorem obstructed_of_slotsFor {windows : Nat} {r : Receptor} {cause : Refusal α}
    (h : slotsFor wiring windows r = .error cause) : Obstructed wiring windows r cause := by
  unfold slotsFor at h
  unfold Obstructed
  cases hslots : wiring.slots? r with
  | none =>
    simp only [hslots, Except.error.injEq] at h
    exact h.symm
  | some slots =>
    simp only [hslots] at h
    split at h
    · rename_i hlen
      simp only [hlen, if_true]
      exact (Except.error.inj h).symm
    · cases h

section Receptors

variable {before rest : List Receptor} {c c' : Claims} {as : List Assignment}

/-- A receptor whose assignments are recorded behind routable receptors is routable with them. -/
theorem routable_append_singleton {r : Receptor} {slots : List Slot}
    (hbefore : Routable wiring ws before)
    (hc : c.Records (demanded wiring ws before)) (hslots : wiring.slots? r = some slots)
    (hlen : ws.length ≤ slots.length)
    (hassign : (assignAll (demands ws r slots) c : Run α Claims).Yields d c') :
    Routable wiring ws (before ++ [r]) ∧ c'.Records (demanded wiring ws (before ++ [r])) := by
  rw [← demanded_singleton hslots] at hassign
  have hc' := hc.assignAll hassign
  rw [← demanded_append] at hc'
  refine ⟨⟨?_, hc'.accord⟩, hc'⟩
  intro q hq
  rcases List.mem_append.1 hq with hq | hq
  · exact hbefore.served q hq
  · rw [List.mem_singleton.1 hq]
    exact ⟨slots, hslots, hlen⟩

/-- Receptors that are routed behind others are routable with them, and get what they ask for. -/
theorem yields_routeReceptors (hbefore : Routable wiring ws before)
    (hc : c.Records (demanded wiring ws before))
    (h : (routeReceptors wiring ws rest c : Run α _).Yields d (as, c')) :
    Routable wiring ws (before ++ rest) ∧ as = demanded wiring ws rest ∧
      c'.Records (demanded wiring ws (before ++ rest)) := by
  induction rest generalizing before c as with
  | nil =>
    simp only [routeReceptors, Run.yields_pure, Prod.mk.injEq] at h
    obtain ⟨rfl, rfl⟩ := h
    rw [List.append_nil]
    exact ⟨hbefore, rfl, hc⟩
  | cons r rest ih =>
    simp only [routeReceptors, Run.yields_bind, Run.yields_ofCheck, slotsFor_eq_ok_iff,
      Run.yields_pure] at h
    obtain ⟨slots, ⟨hslots, hlen⟩, c₁, hassign, ⟨others, c₂⟩, hothers, heq⟩ := h
    obtain ⟨rfl, rfl⟩ := Prod.mk.inj heq
    -- The claims that go on record what the receptors up to this one ask for.
    obtain ⟨hnext, hc₁⟩ := routable_append_singleton hbefore hc hslots hlen hassign
    obtain ⟨hall, rfl, hrec⟩ := ih hnext hc₁ hothers
    rw [← List.append_cons] at hall hrec
    rw [← demanded_singleton hslots]
    exact ⟨hall, (demanded_append [r] rest).symm, hrec⟩

/-- Receptors that are routable with those before them are routed behind them. -/
theorem exists_yields_routeReceptors (hc : c.Records (demanded wiring ws before))
    (h : Routable wiring ws (before ++ rest)) :
    ∃ out, (routeReceptors wiring ws rest c : Run α _).Yields d out := by
  induction rest generalizing before c with
  | nil => exact ⟨([], c), by simp [routeReceptors]⟩
  | cons r rest ih =>
    obtain ⟨slots, hslots, hlen⟩ := h.served r (by simp)
    rw [List.append_cons] at h
    have hnext : Accord (demanded wiring ws before ++ demanded wiring ws [r]) := by
      rw [← demanded_append]
      exact h.accord.mono fun a ha => by
        rw [demanded_append]
        exact List.mem_append_left _ ha
    obtain ⟨c₁, hassign⟩ := (Claims.yields_assignAll_iff hc).2 hnext
    have hc₁ := hc.assignAll hassign
    rw [← demanded_append] at hc₁
    obtain ⟨⟨others, c₂⟩, hothers⟩ := ih hc₁ h
    rw [demanded_singleton hslots] at hassign
    refine ⟨(demands ws r slots ++ others, c₂), ?_⟩
    simp only [routeReceptors, Run.yields_bind, Run.yields_ofCheck, slotsFor_eq_ok_iff,
      Run.yields_pure]
    exact ⟨slots, ⟨hslots, hlen⟩, c₁, hassign, (others, c₂), hothers, rfl⟩

/-- Receptors are refused because of the first one that is not routable behind those before it. -/
theorem refuses_routeReceptors {cause : Refusal α} (hbefore : Routable wiring ws before)
    (hc : c.Records (demanded wiring ws before))
    (h : (routeReceptors wiring ws rest c).Refuses d cause) :
    ∃ routed r behind, rest = routed ++ r :: behind ∧
      Routable wiring ws (before ++ routed) ∧ ¬ Routable wiring ws (before ++ routed ++ [r]) ∧
      Obstructed wiring ws.length r cause := by
  induction rest generalizing before c with
  | nil => simp [routeReceptors] at h
  | cons r rest ih =>
    simp only [routeReceptors, Run.refuses_bind, Run.refuses_ofCheck, Run.yields_ofCheck,
      Run.not_refuses_pure, and_false, exists_false, or_false] at h
    -- The receptor has no slots, or its assignments conflict, or a receptor behind it is refused.
    rcases h with hslots | ⟨slots, hslots, hassign | ⟨c₁, hassign, hothers⟩⟩
    · refine ⟨[], r, rest, rfl, by simpa using hbefore, ?_, obstructed_of_slotsFor hslots⟩
      intro hroutable
      obtain ⟨slots, hwired⟩ := hroutable.served r (by simp)
      rw [slotsFor_eq_ok_iff.2 hwired] at hslots
      cases hslots
    · obtain ⟨hwired, hlen⟩ := slotsFor_eq_ok_iff.1 hslots
      refine ⟨[], r, rest, rfl, by simpa using hbefore, ?_, ?_⟩
      · intro hroutable
        have hacc := hroutable.accord
        rw [List.append_nil, demanded_append, demanded_singleton hwired] at hacc
        obtain ⟨c', hyields⟩ := (Claims.yields_assignAll_iff hc).2 hacc
        exact hyields.not_refuses cause hassign
      · simp only [Obstructed, hwired, Nat.not_lt.2 hlen, if_false]
        exact Claims.kind_of_refuses_assignAll hassign
    · obtain ⟨hwired, hlen⟩ := slotsFor_eq_ok_iff.1 hslots
      obtain ⟨hnext, hc₁⟩ := routable_append_singleton hbefore hc hwired hlen hassign
      obtain ⟨routed, q, behind, rfl, hrouted, hnot, hcause⟩ := ih hnext hc₁ hothers
      rw [← List.append_cons] at hrouted hnot
      exact ⟨r :: routed, q, behind, rfl, hrouted, hnot, hcause⟩

/-- Routing receptors does no arithmetic, so it does not break off. -/
theorem not_breaksOff_routeReceptors :
    ¬ (routeReceptors wiring ws rest c : Run α _).BreaksOff d := by
  induction rest generalizing c with
  | nil => exact Run.not_breaksOff_pure
  | cons r rest ih =>
    simp only [routeReceptors, Run.breaksOff_bind, Run.not_breaksOff_ofCheck,
      Run.not_breaksOff_pure, and_false, exists_false, or_false, false_or]
    rintro ⟨slots, -, hassign | ⟨c₁, -, hothers⟩⟩
    · exact Claims.not_breaksOff_assignAll hassign
    · exact ih hothers

end Receptors

/-! ## Synthesizers -/

/-- Synthesizers are tuned if their windows have frequencies. -/
theorem exists_tuneSynths {t : Table WindowId (Frequency α)} {es : List (UInt32 × WindowId)}
    (h : ∀ e ∈ es, ∃ f, t.get? e.2 = some f) : ∃ out, tuneSynths t es = .ok out := by
  induction es with
  | nil => exact ⟨[], rfl⟩
  | cons e es ih =>
    obtain ⟨f, hf⟩ := h e List.mem_cons_self
    obtain ⟨out, hout⟩ := ih fun e' he' => h e' (List.mem_cons_of_mem _ he')
    refine ⟨(e.1, f) :: out, ?_⟩
    simp only [tuneSynths, hf, hout]
    rfl

/-- A synthesizer is tuned to the frequency of its window. -/
theorem mem_tuneSynths_iff {t : Table WindowId (Frequency α)} {es : List (UInt32 × WindowId)}
    {out : List (UInt32 × Frequency α)} (h : tuneSynths t es = .ok out) (s : UInt32)
    (f : Frequency α) : (s, f) ∈ out ↔ ∃ w, (s, w) ∈ es ∧ t.get? w = some f := by
  induction es generalizing out with
  | nil =>
    obtain rfl : [] = out := Except.ok.inj h
    simp
  | cons e es ih =>
    obtain ⟨synth, window⟩ := e
    simp only [tuneSynths] at h
    split at h
    · cases h
    · rename_i lo2 hlo2
      simp only [check_bind_eq_ok, pure, Except.pure, Except.ok.injEq] at h
      obtain ⟨others, hothers, rfl⟩ := h
      rw [List.mem_cons, ih hothers]
      constructor
      · rintro (heq | ⟨w, hw, hf⟩)
        · obtain ⟨rfl, rfl⟩ := Prod.mk.inj heq
          exact ⟨window, List.mem_cons_self, hlo2⟩
        · exact ⟨w, List.mem_cons_of_mem _ hw, hf⟩
      · rintro ⟨w, hw, hf⟩
        rcases List.mem_cons.1 hw with heq | hw
        · obtain ⟨rfl, rfl⟩ := Prod.mk.inj heq
          exact .inl (by rw [Option.some.inj (hlo2.symm.trans hf)])
        · exact .inr ⟨w, hw, hf⟩

/-- The table of tuned synthesizers leads from a synthesizer to its window and on to the window's
frequency. -/
theorem get?_ofList_tuneSynths {t : Table WindowId (Frequency α)} {synths : Table UInt32 WindowId}
    {out : List (UInt32 × Frequency α)} (h : tuneSynths t synths.entries = .ok out) (s : UInt32) :
    (Table.ofList out).get? s = (synths.get? s).bind t.get? := by
  have hmem : ∀ s f, (s, f) ∈ out ↔ (synths.get? s).bind t.get? = some f := fun s f => by
    simp only [mem_tuneSynths_iff h, Option.bind_eq_some_iff, Table.get?_eq_some_iff]
  have hcollects := Table.collects_ofList out fun e he e' he' hk => by
    have hf := (hmem e.1 e.2).1 he
    rw [hk, (hmem e'.1 e'.2).1 he'] at hf
    exact (Option.some.inj hf).symm
  apply Option.ext
  intro f
  rw [hcollects s f, ← hmem]
  constructor
  · rintro ⟨_, he, rfl, rfl⟩
    exact he
  · intro he
    exact ⟨_, he, rfl, rfl⟩

/-! ## Routings -/

section Routings

variable {plan : Plan α} {rs : List Receptor} {r : Routing α}

/-- What a routing of receptors holds: the assignments they ask for, the claims of these and the
standby modes, and for every synthesizer the frequency of its window. -/
structure Serves (r : Routing α) (plan : Plan α) (wiring : Wiring) (rs : List Receptor) :
    Prop where
  assignments : r.assignments = demanded wiring (windows plan) rs
  claims : ∃ c : Claims, c.Records r.assignments ∧
    r.claims = c.addStandby (wiring.allSlots.map Prod.snd)
  lo2 : ∀ s, r.lo2.get? s = (r.claims.synthWindows.get? s).bind plan.lo2ByWindow.get?

/-- Modules run the labels of the windows routed through them. -/
theorem Serves.modules (h : r.Serves plan wiring rs) :
    r.claims.moduleModes.Collects (·.slot.module) (·.label) r.assignments := by
  obtain ⟨c, hc, hclaims⟩ := h.claims
  rw [hclaims]
  exact hc.modules

/-- Down-converters are set to the bandwidths of the windows routed through them. -/
theorem Serves.converters (h : r.Serves plan wiring rs) :
    r.claims.converterBandwidths.Collects (·.slot.converter)
      (fun a => Bandwidth.nominal a.label) r.assignments := by
  obtain ⟨c, hc, hclaims⟩ := h.claims
  rw [hclaims]
  exact hc.converters

/-- Synthesizers are tuned for the windows routed through them. -/
theorem Serves.synths (h : r.Serves plan wiring rs) :
    r.claims.synthWindows.Collects (·.slot.synth) (·.window) r.assignments := by
  obtain ⟨c, hc, hclaims⟩ := h.claims
  rw [hclaims]
  exact hc.synths

/-- A quadrant runs the label of the windows routed through it. -/
theorem Serves.quadrant (h : r.Serves plan wiring rs) {a : Assignment} (ha : a ∈ r.assignments) :
    r.claims.quadrantModes.get? a.slot.quadrant = some a.label := by
  obtain ⟨c, hc, hclaims⟩ := h.claims
  rw [hclaims, Claims.get?_quadrantModes_addStandby, hc.quadrants.get? ha]
  rfl

/-- Every window that is asked for has a frequency. -/
theorem exists_lo2_of_mem_demanded {a : Assignment} (h : a ∈ demanded wiring (windows plan) rs) :
    ∃ f, plan.lo2ByWindow.get? a.window = some f := by
  obtain ⟨-, k, hk, -⟩ := mem_demanded_iff.1 h
  have hmem := List.mem_of_getElem? hk
  rw [windows, List.mem_mergeSort, List.mem_map] at hmem
  obtain ⟨w, hw, heq⟩ := hmem
  apply Table.exists_get?_ofList
  rw [List.map_map, List.mem_map]
  exact ⟨w, hw, congrArg Prod.fst heq⟩

/-- Receptors that are routed are routable, and their routing serves them. -/
theorem yields_ofPlan (h : (ofPlan plan wiring rs).Yields d r) :
    Routable wiring (windows plan) rs ∧ r.Serves plan wiring rs := by
  simp only [ofPlan, Run.yields_bind, Run.yields_ofCheck, Run.yields_pure] at h
  obtain ⟨⟨as, c⟩, hrs, out, hout, rfl⟩ := h
  obtain ⟨hroutable, rfl, hc⟩ := yields_routeReceptors routable_nil Claims.records_nil hrs
  exact ⟨hroutable, rfl, ⟨c, hc, rfl⟩, get?_ofList_tuneSynths hout⟩

/-- Receptors are routed exactly if they are routable. -/
theorem exists_yields_ofPlan_iff :
    (∃ r, (ofPlan plan wiring rs).Yields d r) ↔ Routable wiring (windows plan) rs := by
  constructor
  · rintro ⟨r, h⟩
    exact (yields_ofPlan h).1
  · intro h
    have hnone : Claims.Records {} (demanded wiring (windows plan) []) := Claims.records_nil
    have hrun : ∃ out, (routeReceptors wiring (windows plan) rs {} : Run α _).Yields d out :=
      exists_yields_routeReceptors hnone h
    obtain ⟨⟨as, c⟩, hrs⟩ := hrun
    obtain ⟨-, rfl, hc⟩ := yields_routeReceptors routable_nil hnone hrs
    -- Synthesizers are held for windows that are asked for, so tuning them is not refused.
    have htuned : ∀ e ∈ c.synthWindows.entries, ∃ f, plan.lo2ByWindow.get? e.2 = some f := by
      intro e he
      obtain ⟨a, ha, -, hw⟩ := (hc.synths e.1 e.2).1 (Table.get?_eq_some_iff.2 he)
      rw [← hw]
      exact exists_lo2_of_mem_demanded ha
    obtain ⟨out, hout⟩ := exists_tuneSynths htuned
    exact ⟨_, by
      simp only [ofPlan, Run.yields_bind, Run.yields_ofCheck, Run.yields_pure]
      exact ⟨_, hrs, out, hout, rfl⟩⟩

/-- Receptors that are not routable are refused because of the first one that is not routable
behind those before it. -/
theorem exists_refuses_ofPlan (h : ¬ Routable wiring (windows plan) rs) :
    ∃ routed q behind cause, rs = routed ++ q :: behind ∧ Routable wiring (windows plan) routed ∧
      ¬ Routable wiring (windows plan) (routed ++ [q]) ∧
      (ofPlan plan wiring rs).Refuses d cause ∧
      Obstructed wiring (windows plan).length q cause := by
  have hfails : ∀ out, ¬ (routeReceptors wiring (windows plan) rs {} : Run α _).Yields d out :=
    fun _ hout => h (yields_routeReceptors routable_nil Claims.records_nil hout).1
  have hgoes : ¬ (routeReceptors wiring (windows plan) rs {} : Run α _).BreaksOff d :=
    not_breaksOff_routeReceptors
  rcases Run.yields_or_refuses hgoes with ⟨out, hout⟩ | ⟨cause, hcause⟩
  · exact absurd hout (hfails out)
  · obtain ⟨routed, q, behind, hrs, hrouted, hnot, hobstructed⟩ :=
      refuses_routeReceptors routable_nil Claims.records_nil hcause
    refine ⟨routed, q, behind, cause, hrs, hrouted, hnot, ?_, hobstructed⟩
    exact Run.refuses_bind.2 (.inl hcause)

/-- Routing does not break off. -/
theorem not_breaksOff_ofPlan : ¬ (ofPlan plan wiring rs).BreaksOff d := by
  simp only [ofPlan, Run.breaksOff_bind, Run.not_breaksOff_ofCheck, Run.not_breaksOff_pure,
    and_false, exists_false, or_false]
  exact not_breaksOff_routeReceptors

end Routings

end Routing

end Heterodyne
