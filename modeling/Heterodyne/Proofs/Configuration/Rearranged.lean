import Heterodyne.Proofs.Configuration.Consistent
import Heterodyne.Proofs.Grid.Distinct
/-!
# Positions in another order

The grid of an observation is fitted to the distinct positions on its two axes. So an observation
is configured alike, and tells the same, if its offsets or the points of its pattern are given in
another order, or if it visits an offset again whose positions are numbers. This holds to the last
bit, also of positions that are no numbers.

* `Grid.fit_congr`: the grid depends on the distinct positions only.
* `Instrument.configure_congr`: a configuration depends on the grid and the timing of a movement.
* `configure_rearranged`: rearranged movements are configured alike.
-/

namespace Heterodyne

variable {α : Type} [Scalar α]

/-! ## Grids of the same positions -/

/-- An axis depends on the distinct positions only. -/
theorem Axis.fit_congr {positions others : List α}
    (h : distinctSorted positions = distinctSorted others) (nyquist tolerance : Arcsec α) :
    fit positions nyquist tolerance = fit others nyquist tolerance := by
  unfold fit
  rw [h]

namespace Grid

variable {angle : Degrees α} {offsets others more : List (Offset α)}

/-- Two lists of offsets have the same distinct positions on both axes of a frame. -/
structure SamePositions (angle : Degrees α) (offsets others : List (Offset α)) : Prop where
  x : Axis.distinctSorted ((offsets.map (·.intoFrame angle)).map (·.x.value)) =
    Axis.distinctSorted ((others.map (·.intoFrame angle)).map (·.x.value))
  y : Axis.distinctSorted ((offsets.map (·.intoFrame angle)).map (·.y.value)) =
    Axis.distinctSorted ((others.map (·.intoFrame angle)).map (·.y.value))

/-- A grid depends on the distinct positions only. -/
theorem fit_congr (h : SamePositions angle offsets others) (nyquist : Arcsec α)
    (toleranceFactor : α) :
    fit offsets angle nyquist toleranceFactor = fit others angle nyquist toleranceFactor := by
  unfold fit
  simp only [Axis.fit_congr h.x, Axis.fit_congr h.y]

/-- Distinct positions are compared through a third list. -/
theorem SamePositions.trans (h : SamePositions angle offsets others)
    (h' : SamePositions angle others more) : SamePositions angle offsets more where
  x := h.x.trans h'.x
  y := h.y.trans h'.y

variable [SortsUniquely α]

/-- Offsets in another order have the same distinct positions. -/
theorem samePositions_of_perm (h : offsets.Perm others) : SamePositions angle offsets others where
  x := Axis.distinctSorted_congr ((h.map _).map _)
  y := Axis.distinctSorted_congr ((h.map _).map _)

/-- Both positions of an offset in a frame are close to themselves. -/
def CloseSelf (angle : Degrees α) (o : Offset α) : Prop :=
  Axis.CloseSelf (o.intoFrame angle).x.value ∧ Axis.CloseSelf (o.intoFrame angle).y.value

/-- What is given again leaves the distinct positions that are read off as they are. -/
theorem distinctSorted_map_append {β : Type} {f : β → α} {items more : List β}
    (h : ∀ o ∈ more, o ∈ items ∧ Axis.CloseSelf (f o)) :
    Axis.distinctSorted ((items ++ more).map f) = Axis.distinctSorted (items.map f) := by
  rw [List.map_append]
  refine Axis.distinctSorted_append fun v hv => ?_
  obtain ⟨o, ho, rfl⟩ := List.mem_map.1 hv
  exact ⟨List.mem_map_of_mem (h o ho).1, (h o ho).2⟩

/-- Offsets that are given again leave the distinct positions as they are. -/
theorem samePositions_append (h : ∀ o ∈ more, o ∈ offsets ∧ CloseSelf angle o) :
    SamePositions angle (offsets ++ more) offsets where
  x := by
    rw [List.map_map, List.map_map]
    exact distinctSorted_map_append fun o ho => ⟨(h o ho).1, (h o ho).2.1⟩
  y := by
    rw [List.map_map, List.map_map]
    exact distinctSorted_map_append fun o ho => ⟨(h o ho).1, (h o ho).2.2⟩

end Grid

/-! ## Movements that make no difference -/

/-- Two movements make no difference to an observation: they have one iterator, one grid, one step
time and one cadence. -/
structure Descriptor.SameMovement (o : Descriptor α) (settings : Settings α)
    (movement other : Movement α) : Prop where
  iterator : movement.iterator = other.iterator
  grid : { o with movement }.spatialGrid settings =
    { o with movement := other }.spatialGrid settings
  step : Timing.stepTimeOf { o with movement } settings =
    Timing.stepTimeOf { o with movement := other } settings
  cadence : ∀ mode cubes step, Timing.cadenceOf { o with movement } mode cubes settings step =
    Timing.cadenceOf { o with movement := other } mode cubes settings step

/-- Movements that make no difference are configured alike. -/
theorem Instrument.configure_congr {i : Instrument α} {o : Descriptor α}
    {movement other : Movement α} (h : o.SameMovement i.settings movement other) :
    i.configure { o with movement } = i.configure { o with movement := other } := by
  simp only [configure, Descriptor.cubes, Timing.budget, Descriptor.iterator, h.iterator, h.grid,
    h.step, h.cadence]

section Movements

variable {settings : Settings α}

/-- Offsets with the same distinct positions make no difference to a stare. -/
theorem sameMovement_stare (o : Descriptor α) {s : Stare α} {offsets : List (Offset α)}
    (h : Grid.SamePositions s.angle offsets s.offsets) :
    o.SameMovement settings (.stare { s with offsets }) (.stare s) where
  iterator := rfl
  grid := Grid.fit_congr h _ _
  step := rfl
  cadence mode _ _ := by
    unfold Timing.cadenceOf
    cases mode.mapping <;> cases mode.switching <;> rfl

variable [SortsUniquely α]

/-- A pattern of the same points in another order makes the same offsets. -/
theorem samePositions_offsets {j : Jiggle α} {points : List (Offset α)}
    (h : points.Perm j.pattern.points) :
    Grid.SamePositions j.angle ({ j with pattern := { j.pattern with points } } : Jiggle α).offsets
      j.offsets :=
  Grid.samePositions_of_perm (h.map _)

omit [Scalar α] [SortsUniquely α] in
/-- A chopped pattern of the same points in another order is repeated alike. -/
theorem ofJiggle_congr {j : Jiggle α} {points : List (Offset α)}
    (h : points.Perm j.pattern.points) :
    Timing.ChopRequest.ofJiggle { j with pattern := { j.pattern with points } } =
      Timing.ChopRequest.ofJiggle j := by
  simp only [Timing.ChopRequest.ofJiggle, h.length_eq]

/-- The order of the points makes no difference to a jiggle or to a pointing observation. -/
theorem sameMovement_jiggle (o : Descriptor α) {move : Jiggle α → Movement α}
    (hmove : move = .jiggle ∨ move = .pointing) {j : Jiggle α} {points : List (Offset α)}
    (h : points.Perm j.pattern.points) :
    o.SameMovement settings (move { j with pattern := { j.pattern with points } }) (move j) := by
  have hgrid := Grid.fit_congr (samePositions_offsets h) o.nyquist settings.gridTolerance
  have hchop := fun step => congrArg (Timing.ofChop · step settings.maxNodTime) (ofJiggle_congr h)
  rcases hmove with rfl | rfl
  all_goals
    refine ⟨rfl, hgrid, rfl, fun mode cubes step => ?_⟩
    unfold Timing.cadenceOf
    cases mode.mapping with
    | raster | grid => rfl
    | jiggle =>
      cases mode.switching with
      | chop => exact hchop step
      | position | frequency | self | unswitched => rfl

end Movements

/-! ## Rearranged movements -/

/-- A movement visits the positions of another one in another order. A stare may visit an offset
again if its positions in the frame of the stare are numbers. -/
inductive Movement.Rearranges : Movement Binary64 → Movement Binary64 → Prop
  | stare (s : Stare Binary64) {offsets more : List (Offset Binary64)}
      (hmore : ∀ o ∈ more, o ∈ s.offsets ∧ (o.intoFrame s.angle).x.value.IsFinite ∧
        (o.intoFrame s.angle).y.value.IsFinite)
      (hperm : offsets.Perm (s.offsets ++ more)) :
      Rearranges (.stare { s with offsets }) (.stare s)
  | jiggle (j : Jiggle Binary64) {points : List (Offset Binary64)}
      (hperm : points.Perm j.pattern.points) :
      Rearranges (.jiggle { j with pattern := { j.pattern with points } }) (.jiggle j)
  | pointing (j : Jiggle Binary64) {points : List (Offset Binary64)}
      (hperm : points.Perm j.pattern.points) :
      Rearranges (.pointing { j with pattern := { j.pattern with points } }) (.pointing j)

/-- A rearranged movement makes no difference to an observation. -/
theorem Movement.Rearranges.sameMovement {movement other : Movement Binary64}
    (h : movement.Rearranges other) (o : Descriptor Binary64) (settings : Settings Binary64) :
    o.SameMovement settings movement other := by
  cases h with
  | @stare s offsets more hmore hperm =>
    have hclose : ∀ o ∈ more, o ∈ s.offsets ∧ Grid.CloseSelf s.angle o := fun o ho =>
      ⟨(hmore o ho).1, Binary64.close_self (hmore o ho).2.1, Binary64.close_self (hmore o ho).2.2⟩
    exact sameMovement_stare o ((Grid.samePositions_of_perm hperm).trans
      (Grid.samePositions_append hclose))
  | jiggle j hperm => exact sameMovement_jiggle o (.inl rfl) hperm
  | pointing j hperm => exact sameMovement_jiggle o (.inr rfl) hperm

/-- An observation is configured alike, tells the same, and is refused or breaks off alike, when
its movement is rearranged. -/
theorem configure_rearranged {movement other : Movement Binary64}
    (h : movement.Rearranges other) (i : Instrument Binary64) (o : Descriptor Binary64) :
    i.configure { o with movement } = i.configure { o with movement := other } :=
  Instrument.configure_congr (h.sameMovement o i.settings)

/-- A position in the first row of the frame. -/
def rowPosition (n : Nat) : Offset Binary64 := ⟨⟨.ofNat n⟩, ⟨.ofNat 0⟩⟩

/-- A stare at three positions in a row, of which the last one lies between two pixels of the
smallest gap. -/
def threePositions : Stare Binary64 :=
  ⟨[rowPosition 0, rowPosition 10, rowPosition 25], ⟨.ofNat 0⟩, ⟨.ofNat 1⟩⟩

/-- The small map as a stare at the three positions. -/
def smallStare : Descriptor Binary64 := { smallMap with movement := .stare threePositions }

/-- The stare has a grid of six pixels in a row. -/
theorem exists_grid_smallStare :
    ∃ grid, (smallStare.spatialGrid Settings.standard).Yields false grid ∧
      (grid.nx, grid.ny) = (6, 1) := by
  have hx : Axis.distinctSorted ((threePositions.offsets.map (·.intoFrame threePositions.angle)).map
      (·.x.value)) = [.ofNat 0, .ofNat 10, .ofNat 25] :=
    Axis.distinctSorted_eq_self (by decide +kernel) (by decide +kernel)
  have hy : Axis.distinctSorted ((threePositions.offsets.map (·.intoFrame threePositions.angle)).map
      (·.y.value)) = [.ofNat 0] := by
    have hrows : (threePositions.offsets.map (·.intoFrame threePositions.angle)).map (·.y.value) =
        List.replicate 3 (.ofNat 0) := by decide +kernel
    have hsort : (List.replicate 3 (Binary64.ofNat 0)).mergeSort Scalar.before =
        List.replicate 3 (.ofNat 0) := Axis.mergeSort_eq_of_perm (.refl _) (by decide +kernel)
    rw [hrows, Axis.distinctSorted, hsort]
    decide +kernel
  show ∃ grid, (Grid.fit threePositions.offsets threePositions.angle smallMap.nyquist
    (Settings.standard : Settings Binary64).gridTolerance).Yields false grid ∧ _
  unfold Grid.fit Axis.fit
  dsimp only
  rw [hx, hy]
  exact Run.exists_yields_of_toOption (by decide +kernel)

/-- The stare is configured. -/
theorem exists_yields_smallStare :
    ∃ c, ((⟨Settings.standard, Routing.twoReceptors⟩ : Instrument Binary64).configure
      smallStare).Yields false c := by
  obtain ⟨plan, hplan, hleaves⟩ := Routing.exists_plan_twoSubsystems
  obtain ⟨routing, hrouting, -⟩ := exists_routing_smallMap hplan hleaves
  obtain ⟨grid, hgrid, -⟩ := exists_grid_smallStare
  have hcubes : (smallStare.cubes plan Settings.standard).Yields false (Cube.ofPlan grid plan) :=
    Run.yields_bind.2 ⟨grid, hgrid, rfl⟩
  have htiming : ∃ timing, (Timing.budget smallStare ⟨.grid, .position, .science⟩
      (Cube.ofPlan grid plan) Settings.standard).Yields false timing ∧ timing.cycles = 1 :=
    Run.exists_yields_of_toOption rfl
  obtain ⟨timing, htiming, -⟩ := htiming
  exact ⟨_, yields_configure_iff.2
    ⟨_, plan, routing, _, timing, rfl, hplan, hrouting, hcubes, htiming, rfl⟩⟩

/-- With the middle one visited twice, the three positions are configured alike in any other
order, and they are configured. -/
theorem configure_threePositions :
    (⟨Settings.standard, Routing.twoReceptors⟩ : Instrument Binary64).configure
        { smallMap with movement := .stare { threePositions with
          offsets := [rowPosition 10, rowPosition 25, rowPosition 0, rowPosition 10] } } =
      (⟨Settings.standard, Routing.twoReceptors⟩ : Instrument Binary64).configure smallStare ∧
    ∃ c, ((⟨Settings.standard, Routing.twoReceptors⟩ : Instrument Binary64).configure
      smallStare).Yields false c := by
  have hmore : ∀ o ∈ [rowPosition 10], o ∈ threePositions.offsets ∧
      (o.intoFrame threePositions.angle).x.value.IsFinite ∧
      (o.intoFrame threePositions.angle).y.value.IsFinite := by
    intro o ho
    rw [List.mem_singleton.1 ho]
    exact ⟨by decide +kernel, by decide +kernel, by decide +kernel⟩
  have hperm : [rowPosition 10, rowPosition 25, rowPosition 0, rowPosition 10].Perm
      (threePositions.offsets ++ [rowPosition 10]) := by decide +kernel
  exact ⟨configure_rearranged (.stare threePositions hmore hperm) _ smallMap,
    exists_yields_smallStare⟩

end Heterodyne
