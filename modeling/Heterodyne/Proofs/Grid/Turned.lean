import Heterodyne.Proofs.Grid.Jiggled
/-!
# Turned patterns

The points of a pattern are turned out of the frame of its position angle, and their grid is fitted
after they have been turned back into it. In exact numbers the points are then where the pattern
has them, so the grid does not depend on the angle but for being turned as a whole: turning a
pattern and fitting its grid commute.

* `Grid.result_fit_turned`: offsets with the same coordinates in two frames have the same grid.
* `Grid.pixelCentres_turned`: the pixels of a turned grid.
* `Descriptor.result_spatialGrid`: the grid of a pattern, from that of the upright pattern.
* `Descriptor.spatialGrid_turned`: turned patterns have turned grids.
-/

namespace Heterodyne

/-! ## Upright patterns -/

section Upright

variable {α : Type} [Scalar α]

/-- The pattern at no position angle. -/
def Jiggle.upright (j : Jiggle α) : Jiggle α := { j with angle := .zero }

/-- The movement with its pattern, if it has one, at no position angle. -/
def Movement.upright : Movement α → Movement α
  | .jiggle j => .jiggle j.upright
  | .pointing j => .pointing j.upright
  | movement => movement

/-- The observation with its pattern, if it has one, at no position angle. -/
def Descriptor.upright (o : Descriptor α) : Descriptor α :=
  { o with movement := o.movement.upright }

/-- The grid turned about the origin, from no position angle to another one. -/
def Grid.turned (g : Grid α) (angle : Degrees α) : Grid α :=
  { g with centre := g.centre.fromFrame angle, angle }

/-- The two axes of a grid are fitted to the coordinates of the offsets. -/
theorem Grid.fit_eq (offsets : List (Offset α)) (angle : Degrees α) (nyquist : Arcsec α)
    (factor : α) :
    fit offsets angle nyquist factor =
      if nyquist.value ≤ Scalar.zero then Run.refuse (.gridNyquistNotPositive nyquist)
      else (do
        let x ← Axis.fit (columns offsets angle) nyquist (nyquist * factor)
        let y ← Axis.fit (rows offsets angle) nyquist (nyquist * factor)
        Run.tell (.gridFitted x.count y.count x.pixel y.pixel angle)
        Run.ofCount (ofAxes x y angle)) := by
  simp only [fit, List.map_map]
  rfl

end Upright

/-- The rotation by no angle turns nothing. -/
structure Apparatus.Upright {K : Type} [Field K] (F : Apparatus K) : Prop where
  sine : (F.rotation 0).sine = 0
  cosine : (F.rotation 0).cosine = 1

variable {K : Type} [Field K] [LinearOrder K] [FloorRing K] {F : Apparatus K} {d : Bool}

/-- The points of a pattern have the same first coordinates in its frame at every position
angle. -/
theorem Jiggle.columns_offsets (j : Jiggle (Exact F)) :
    Grid.columns j.offsets j.angle = j.pattern.points.map (·.x.value) := by
  simp only [Grid.columns, offsets, List.map_map, Function.comp_def, Exact.intoFrame_fromFrame]

/-- The points of a pattern have the same second coordinates in its frame at every position
angle. -/
theorem Jiggle.rows_offsets (j : Jiggle (Exact F)) :
    Grid.rows j.offsets j.angle = j.pattern.points.map (·.y.value) := by
  simp only [Grid.rows, offsets, List.map_map, Function.comp_def, Exact.intoFrame_fromFrame]

variable [IsStrictOrderedRing K]

/-- Nothing is turned out of the upright frame. -/
theorem Offset.fromFrame_zero (h : F.Upright) (o : Offset (Exact F)) : o.fromFrame .zero = o := by
  have hangle : (Quantity.zero : Degrees (Exact F)).value.val = 0 := Exact.val_zero
  apply Exact.offset_ext <;>
    simp only [fromFrame, Scalar.sinCosDegrees, Quantity.value_add, Quantity.value_sub,
      Quantity.value_mul, Exact.val_add, Exact.val_sub, Exact.val_mul, hangle, h.sine, h.cosine]
  · ring
  · ring

/-- Nothing is turned into the upright frame. -/
theorem Offset.intoFrame_zero (h : F.Upright) (o : Offset (Exact F)) : o.intoFrame .zero = o := by
  conv_lhs => rw [← fromFrame_zero h o]
  exact Exact.intoFrame_fromFrame o .zero

/-! ## Turned grids -/

namespace Grid

variable {x y : Axis (Exact F)} {angle : Degrees (Exact F)} {g : Grid (Exact F)}

/-- The grid of two axes at a position angle is the upright one, turned. -/
theorem ofAxes_eq_map (h : F.Upright) (x y : Axis (Exact F)) (angle : Degrees (Exact F)) :
    ofAxes x y angle = (ofAxes x y .zero).map (·.turned angle) := by
  unfold ofAxes
  cases x.centre with
  | error fault => rfl
  | ok cx =>
    cases y.centre with
    | error fault => rfl
    | ok cy =>
      simp only [Count.ok_bind, pure, Except.pure, Except.map, turned,
        Offset.fromFrame_zero h]

/-- Offsets that have the same coordinates in a frame as others have in the upright one have the
grid of these, turned. -/
theorem result_fit_turned (h : F.Upright) {offsets upright : List (Offset (Exact F))}
    (hcolumns : columns offsets angle = columns upright .zero)
    (hrows : rows offsets angle = rows upright .zero) (nyquist : Arcsec (Exact F))
    (factor : Exact F) :
    (fit offsets angle nyquist factor d).result =
      (fit upright .zero nyquist factor d).result.map (·.turned angle) := by
  rw [fit_eq, fit_eq, hcolumns, hrows]
  by_cases hnyquist : nyquist.value ≤ Scalar.zero
  · rw [if_pos hnyquist, if_pos hnyquist]
    rfl
  rw [if_neg hnyquist, if_neg hnyquist]
  simp only [Run.result_bind, ofAxes_eq_map h _ _ angle]
  -- whichever part stops, it does so for both
  cases (Axis.fit (columns upright .zero) nyquist (nyquist * factor) d).result with
  | error stop => rfl
  | ok x =>
    cases (Axis.fit (rows upright .zero) nyquist (nyquist * factor) d).result with
    | error stop => rfl
    | ok y =>
      show (Run.ofCount ((ofAxes x y .zero).map (·.turned angle)) d).result =
        (Run.ofCount (ofAxes x y .zero) d).result.map (·.turned angle)
      cases ofAxes x y .zero <;> rfl

/-- The pixels of a turned grid are those of the upright one, turned. -/
theorem pixelCentres_turned (h : F.Upright) (hg : g.angle = .zero) (angle : Degrees (Exact F)) :
    (g.turned angle).pixelCentres = g.pixelCentres.map fun centres =>
      centres.map (·.fromFrame angle) := by
  unfold pixelCentres
  simp only [turned, hg, Exact.intoFrame_fromFrame, Offset.intoFrame_zero h,
    Offset.fromFrame_zero h]
  cases Count.sub g.nx 1 with
  | error fault => rfl
  | ok lastX =>
    cases Count.sub g.ny 1 with
    | error fault => rfl
    | ok lastY =>
      simp only [Count.ok_bind, pure, Except.pure, Except.map, List.map_flatMap, List.map_map]
      rfl

/-- A grid is the upright one turned to a position angle: it has the same pixels in number and
size, and its centre and those of its pixels are turned, in the same order. -/
structure TurnedFrom (g upright : Grid (Exact F)) (angle : Degrees (Exact F)) : Prop where
  nx : g.nx = upright.nx
  ny : g.ny = upright.ny
  pixelX : g.pixelX = upright.pixelX
  pixelY : g.pixelY = upright.pixelY
  centre : g.centre = upright.centre.fromFrame angle
  position : g.angle = angle
  pixelCentres : ∃ centres, upright.pixelCentres = .ok centres ∧
    g.pixelCentres = .ok (centres.map (·.fromFrame angle))

/-- An upright grid that has been fitted can be turned. -/
theorem turnedFrom_of_yields_fit (h : F.Upright) {offsets : List (Offset (Exact F))}
    {nyquist : Arcsec (Exact F)} {factor : Exact F}
    (hg : (fit offsets .zero nyquist factor).Yields d g) (angle : Degrees (Exact F)) :
    (g.turned angle).TurnedFrom g angle := by
  obtain ⟨x, y, haxes⟩ : ∃ x y, ofAxes x y .zero = .ok g := by
    rw [fit_eq] at hg
    split at hg
    · exact absurd hg Run.not_yields_refuse
    · simp only [Run.yields_bind, Run.yields_ofCount] at hg
      obtain ⟨x, -, y, -, -, -, haxes⟩ := hg
      exact ⟨x, y, haxes⟩
  have hangle : g.angle = .zero := by
    simp only [ofAxes, check_bind_eq_ok, pure, Except.pure, Except.ok.injEq] at haxes
    obtain ⟨cx, -, cy, -, rfl⟩ := haxes
    rfl
  have hcentres := pixelCentres_ofAxes haxes
  refine ⟨rfl, rfl, rfl, rfl, rfl, rfl, _, hcentres, ?_⟩
  rw [pixelCentres_turned h hangle, hcentres]
  rfl

end Grid

/-! ## Jiggle observations -/

namespace Descriptor

variable {o : Descriptor (Exact F)} {j : Jiggle (Exact F)} {settings : Settings (Exact F)}

omit [IsStrictOrderedRing K] in
/-- The upright observation has the upright pattern. -/
theorem movement_upright (h : o.movement = .jiggle j ∨ o.movement = .pointing j) :
    o.upright.movement = .jiggle j.upright ∨ o.upright.movement = .pointing j.upright := by
  rcases h with h | h <;> simp [upright, h, Movement.upright]

/-- The grid of a pattern is that of the upright pattern, turned; what stops one stops the
other. -/
theorem result_spatialGrid (h : F.Upright)
    (hmovement : o.movement = .jiggle j ∨ o.movement = .pointing j) :
    (o.spatialGrid settings d).result =
      (o.upright.spatialGrid settings d).result.map (·.turned j.angle) := by
  have hcolumns : Grid.columns j.offsets j.angle = Grid.columns j.upright.offsets .zero :=
    j.columns_offsets.trans j.upright.columns_offsets.symm
  have hrows : Grid.rows j.offsets j.angle = Grid.rows j.upright.offsets .zero :=
    j.rows_offsets.trans j.upright.rows_offsets.symm
  rw [spatialGrid_of_pattern hmovement, spatialGrid_of_pattern (movement_upright hmovement)]
  exact Grid.result_fit_turned h hcolumns hrows o.nyquist settings.gridTolerance

/-- The grid of a jiggle or pointing pattern is that of the same pattern at no position angle,
turned: it has the same pixels in number and size, its centre is turned, and the centres of its
pixels are turned one by one. If one of them has no grid, neither has the other, for the same
reason. -/
theorem spatialGrid_turned (h : F.Upright)
    (hmovement : o.movement = .jiggle j ∨ o.movement = .pointing j)
    (settings : Settings (Exact F)) (d : Bool) :
    (∀ g, (o.spatialGrid settings).Yields d g →
      ∃ upright, (o.upright.spatialGrid settings).Yields d upright ∧
        g.TurnedFrom upright j.angle) ∧
    (∀ upright, (o.upright.spatialGrid settings).Yields d upright →
      ∃ g, (o.spatialGrid settings).Yields d g ∧ g.TurnedFrom upright j.angle) ∧
    (∀ cause, (o.spatialGrid settings).Refuses d cause ↔
      (o.upright.spatialGrid settings).Refuses d cause) ∧
    (∀ fault, (o.spatialGrid settings).Faults d fault ↔
      (o.upright.spatialGrid settings).Faults d fault) := by
  have hresult : (o.spatialGrid settings d).result =
      (o.upright.spatialGrid settings d).result.map (·.turned j.angle) :=
    result_spatialGrid h hmovement
  have hturned : ∀ g, (o.upright.spatialGrid settings).Yields d g →
      (g.turned j.angle).TurnedFrom g j.angle := by
    intro g hg
    rw [spatialGrid_of_pattern (movement_upright hmovement)] at hg
    exact Grid.turnedFrom_of_yields_fit h hg j.angle
  refine ⟨?_, ?_, fun cause => Run.refuses_of_result_eq_map hresult,
    fun fault => Run.faults_of_result_eq_map hresult⟩
  · intro g hg
    obtain ⟨upright, hupright, rfl⟩ := (Run.yields_of_result_eq_map hresult).1 hg
    exact ⟨upright, hupright, hturned upright hupright⟩
  · intro upright hupright
    exact ⟨_, (Run.yields_of_result_eq_map hresult).2 ⟨upright, hupright, rfl⟩,
      hturned upright hupright⟩

/-- A pattern of three points at the corners of a square that lies beside the origin, turned to 37
degrees. -/
def corner : Jiggle (Exact rationals) where
  pattern := ⟨"corner", [⟨⟨⟨3⟩⟩, ⟨⟨1⟩⟩⟩, ⟨⟨⟨3⟩⟩, ⟨⟨8⟩⟩⟩, ⟨⟨⟨10⟩⟩, ⟨⟨8⟩⟩⟩]⟩
  angle := ⟨⟨37⟩⟩
  secondsPerPoint := ⟨⟨30⟩⟩
  jigglesPerChop := none
  offCycles := 2

/-- The corner has two columns and two rows. -/
theorem isRow_corner :
    Axis.IsRow (corner.pattern.points.map (·.x.value)) ⟨⟨7 / 5⟩⟩ 3 7 2 ∧
      Axis.IsRow (corner.pattern.points.map (·.y.value)) ⟨⟨7 / 5⟩⟩ 1 7 2 := by
  have hrowX : Axis.row 3 7 2 = [(⟨3⟩ : Exact rationals), ⟨10⟩] := by decide +kernel
  have hrowY : Axis.row 1 7 2 = [(⟨1⟩ : Exact rationals), ⟨8⟩] := by decide +kernel
  constructor
  · refine ⟨fun v => ?_, by decide, by decide, by norm_num, by norm_num, by decide +kernel⟩
    rw [hrowX]
    simp [corner]
  · refine ⟨fun v => ?_, by decide, by decide, by norm_num, by norm_num, by decide +kernel⟩
    rw [hrowY]
    simp [corner]

/-- The grid of the corner has a pixel more than the corner has points, and its centre is turned
from 6.5 and 4.5 to 2.5 and 7.5. -/
theorem spatialGrid_turned_corner :
    let o := jiggling corner.pattern 37 7
    let settings := tolerating (1 / 5)
    rationals.Upright ∧ ∃ upright g, (o.upright.spatialGrid settings).Yields true upright ∧
      upright.nx.toNat = 2 ∧ upright.ny.toNat = 2 ∧
      upright.pixelX = ⟨⟨7⟩⟩ ∧ upright.pixelY = ⟨⟨7⟩⟩ ∧
      upright.centre = ⟨⟨⟨13 / 2⟩⟩, ⟨⟨9 / 2⟩⟩⟩ ∧
      (o.spatialGrid settings).Yields true g ∧ g.TurnedFrom upright ⟨⟨37⟩⟩ ∧
      g.centre = ⟨⟨⟨5 / 2⟩⟩, ⟨⟨15 / 2⟩⟩⟩ := by
  intro o settings
  have hrationals : rationals.Upright := ⟨by decide +kernel, by decide +kernel⟩
  have htolerance : o.nyquist * settings.gridTolerance = ⟨⟨7 / 5⟩⟩ := by decide +kernel
  have hmovement : o.movement = .jiggle corner := rfl
  have hx : Axis.IsRow (Grid.columns corner.upright.offsets .zero)
      (o.nyquist * settings.gridTolerance) 3 7 2 := by
    rw [htolerance]
    exact corner.upright.columns_offsets ▸ isRow_corner.1
  have hy : Axis.IsRow (Grid.rows corner.upright.offsets .zero)
      (o.nyquist * settings.gridTolerance) 1 7 2 := by
    rw [htolerance]
    exact corner.upright.rows_offsets ▸ isRow_corner.2
  obtain ⟨upright, hupright, hnx, hny, -, hpixelX, hpixelY, hmiddleX, hmiddleY⟩ :=
    Grid.exists_yields_fit_rows (d := true) (by decide +kernel) (by decide +kernel) hx hy
  have hcentre : upright.centre = ⟨⟨⟨13 / 2⟩⟩, ⟨⟨9 / 2⟩⟩⟩ := by
    rw [Offset.intoFrame_zero hrationals, Axis.rowReference, if_pos le_rfl] at hmiddleX hmiddleY
    apply Exact.offset_ext
    · rw [hmiddleX]
      norm_num
    · rw [hmiddleY]
      norm_num
  obtain ⟨-, hturned, -, -⟩ := spatialGrid_turned hrationals (.inl hmovement) settings true
  obtain ⟨g, hg, hfrom⟩ := hturned upright hupright
  refine ⟨hrationals, upright, g, hupright, hnx, hny, hpixelX, hpixelY, hcentre, hg, hfrom, ?_⟩
  rw [hfrom.centre, hcentre]
  decide +kernel

end Descriptor

end Heterodyne
