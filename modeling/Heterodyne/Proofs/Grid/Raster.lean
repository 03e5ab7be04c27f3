import Heterodyne.Proofs.Configuration.FewerSubsystems
import Heterodyne.Proofs.Grid.RoundTrip
import Heterodyne.Proofs.Observation.Valid
/-!
# Grids of rasters

A raster is sampled at as few equal steps as its length needs, and the samples lie around the
middle of the map. So the grid of a raster has the origin as its centre, its outermost pixels are
at least the requested length apart, and they would not be with a pixel less. The pixels themselves
reach beyond the map on all sides.

* `length_le_mul_ceil`, `mul_ceil_sub_one_lt`: the number of steps over a length.
* `Raster.of_axis`, `Raster.of_grid`: the axes and the grid of a raster.
* `Descriptor.spatialGrid_raster`: the grid of an accepted raster, and its footprint.
-/

namespace Heterodyne

open Grid (firstPixel firstPixel_eq crossings pixelCentres_eq_crossings)

variable {K : Type} [Field K] [LinearOrder K]

/-! ## Hypotenuses -/

namespace Apparatus

variable {F : Apparatus K} {x y x' y' : K}

/-- The hypotenuse over two legs is given, not only a number near it. In the rational numbers not
all legs have one. -/
structure Measures (F : Apparatus K) (x y : K) : Prop where
  nonneg : 0 ≤ F.hypot x y
  sq_eq : F.hypot x y ^ 2 = x ^ 2 + y ^ 2

/-- Longer legs have a longer hypotenuse. -/
theorem hypot_lt_hypot [IsStrictOrderedRing K] (h : F.Measures x y) (h' : F.Measures x' y')
    (hx : 0 ≤ x) (hy : 0 ≤ y) (hxx' : x < x') (hyy' : y < y') :
    F.hypot x y < F.hypot x' y' := by
  apply lt_of_pow_lt_pow_left₀ 2 h'.nonneg
  rw [h.sq_eq, h'.sq_eq]
  exact add_lt_add (pow_lt_pow_left₀ hxx' hx two_ne_zero) (pow_lt_pow_left₀ hyy' hy two_ne_zero)

end Apparatus

variable [FloorRing K] [IsStrictOrderedRing K]

/-! ## Samples -/

section Samples

variable {length spacing : K}

/-- As many steps as a length needs reach its end. -/
theorem length_le_mul_ceil (hspacing : 0 < spacing) :
    length ≤ spacing * ⌈length / spacing⌉₊ := by
  rw [← div_le_iff₀' hspacing]
  exact Nat.le_ceil _

/-- With a step less, the end of a length is not reached. -/
theorem mul_ceil_sub_one_lt (hlength : 0 < length) (hspacing : 0 < spacing) :
    spacing * (⌈length / spacing⌉₊ - 1) < length := by
  rw [← lt_div_iff₀' hspacing, sub_lt_iff_lt_add]
  exact Nat.ceil_lt_add_one (div_nonneg hlength.le hspacing.le)

/-- The pixels around as many steps as a length needs are longer than the length. -/
theorem length_lt_mul_ceil_add_one (hspacing : 0 < spacing) :
    length < spacing * (⌈length / spacing⌉₊ + 1) := by
  rw [mul_add_one]
  exact (length_le_mul_ceil hspacing).trans_lt (lt_add_of_pos_right _ hspacing)

end Samples

/-- Coordinates of the first `n` samples along a length, which lie symmetric about the middle. From
the first one to the last one they span the length, and without the last one they would not. -/
structure Raster.Samples (x : ℕ → K) (n : ℕ) (spacing length : K) : Prop where
  one_le : 1 ≤ n
  step : ∀ k, x (k + 1) = x k + spacing
  symmetric : ∀ k < n, x (n - 1 - k) = -x k
  length_le : length ≤ x (n - 1) - x 0
  lt_length : 0 < length → x (n - 2) - x 0 < length

/-- Equal steps around the middle, as many as a length needs, are its samples. -/
theorem Raster.samples_firstPixel {length spacing : K} {n : ℕ} (hspacing : 0 < spacing)
    (hn : n = ⌈length / spacing⌉₊ + 1) :
    Samples (fun k => firstPixel 0 spacing n + spacing * k) n spacing length := by
  have hone : 1 ≤ n := by omega
  have hlast : ((n - 1 : ℕ) : K) = ⌈length / spacing⌉₊ := by rw [hn, Nat.add_sub_cancel]
  constructor
  · exact hone
  · intro k
    push_cast
    ring
  · intro k hk
    rw [Nat.cast_sub (by omega), Nat.cast_sub hone, Nat.cast_one, firstPixel_eq]
    ring
  · rw [hlast, Nat.cast_zero, add_sub_add_left_eq_sub, mul_zero, sub_zero]
    exact length_le_mul_ceil hspacing
  · intro hlength
    have hsteps : 1 ≤ ⌈length / spacing⌉₊ := Nat.one_le_ceil_iff.2 (div_pos hlength hspacing)
    have hbefore : ((n - 2 : ℕ) : K) = ⌈length / spacing⌉₊ - 1 := by
      rw [hn, Nat.add_sub_add_right, Nat.cast_sub hsteps, Nat.cast_one]
    rw [hbefore, Nat.cast_zero, add_sub_add_left_eq_sub, mul_zero, sub_zero]
    exact mul_ceil_sub_one_lt hlength hspacing

/-! ## Axes and grids -/

namespace Raster

variable {F : Apparatus K} {length spacing : Arcsec (Exact F)} {r : Raster (Exact F)}

/-- The samples along a length as a number. -/
theorem toNat_ceil_div : Scalar.toNat (Scalar.ceil (length / spacing : Exact F)) =
    ⌈length.value.val / spacing.value.val⌉₊ := by
  rw [Exact.toNat_eq, Exact.val_ceil, Int.floor_intCast]
  exact Int.ceil_toNat _

/-- An axis overflows if it has `2 ^ 32` pixels or more. -/
theorem axisOverflows_iff :
    AxisOverflows length spacing ↔ 2 ^ 32 ≤ ⌈length.value.val / spacing.value.val⌉₊ + 1 := by
  rw [AxisOverflows, toNat_ceil_div]
  omega

/-- An axis has as many pixels of the spacing as its length needs, and the origin is its middle. -/
theorem of_axis {a : Axis (Exact F)} (h : axis length spacing = .ok a) :
    a.count.toNat = ⌈length.value.val / spacing.value.val⌉₊ + 1 ∧ a.pixel = spacing ∧
      ∃ centre, a.centre = .ok centre ∧ centre.value.val = 0 := by
  obtain ⟨centre, hcentre, hmiddle⟩ := Axis.exists_centre (count_axis_pos h)
  obtain ⟨last', hlast', hhalf⟩ := Axis.exists_half (F := F) (count_axis_pos h)
  simp only [axis, check_bind_eq_ok, pure, Except.pure, Except.ok.injEq] at h
  obtain ⟨count, hadd, last, hlast, rfl⟩ := h
  cases hlast.symm.trans hlast'
  refine ⟨?_, rfl, centre, hcentre, ?_⟩
  · -- a count that is at its limit has no next one
    rw [Count.add_eq_ok_iff, Scalar.toNat_toCount, toNat_ceil_div, UInt32.toNat_one] at hadd
    have hlimit : Scalar.maxCount = 2 ^ 32 - 1 := rfl
    have hlt := count.toNat_lt
    dsimp only
    omega
  · dsimp only at hmiddle hhalf
    rw [hmiddle, Quantity.value_mul, Quantity.value_neg, Exact.val_mul, Exact.val_neg, hhalf]
    ring

/-- The grid of a raster has the samples of both lengths as its pixels, and the origin of its frame
as its centre. -/
theorem of_grid {g : Grid (Exact F)} (h : r.grid = .ok g) :
    g.nx.toNat = ⌈r.width.value.val / r.dx.value.val⌉₊ + 1 ∧
      g.ny.toNat = ⌈r.height.value.val / r.dy.value.val⌉₊ + 1 ∧
      g.pixelX = r.dx ∧ g.pixelY = r.dy ∧ g.angle = r.angle ∧
      (g.centre.intoFrame g.angle).x.value.val = 0 ∧
      (g.centre.intoFrame g.angle).y.value.val = 0 := by
  simp only [grid, Grid.ofAxes, check_bind_eq_ok, pure, Except.pure, Except.ok.injEq] at h
  obtain ⟨x, hx, y, hy, cx, hcx, cy, hcy, rfl⟩ := h
  obtain ⟨hnx, hpixelX, cx', hcx', hzeroX⟩ := of_axis hx
  obtain ⟨hny, hpixelY, cy', hcy', hzeroY⟩ := of_axis hy
  cases hcx.symm.trans hcx'
  cases hcy.symm.trans hcy'
  refine ⟨hnx, hny, hpixelX, hpixelY, rfl, ?_, ?_⟩ <;> rwa [Exact.intoFrame_fromFrame]

/-- A grid around the origin whose pixels, row by row in the frame of a raster, are the crossings of
samples along its width with samples along its height. All pixels together reach beyond the map. -/
structure IsSampledBy (r : Raster (Exact F)) (g : Grid (Exact F)) : Prop where
  nx : g.nx.toNat = ⌈r.width.value.val / r.dx.value.val⌉₊ + 1
  ny : g.ny.toNat = ⌈r.height.value.val / r.dy.value.val⌉₊ + 1
  pixelX : g.pixelX = r.dx
  pixelY : g.pixelY = r.dy
  centre : g.centre = ⟨.zero, .zero⟩
  angle : g.angle = r.angle
  samples : ∃ (centres : List (Offset (Exact F))) (x y : ℕ → K), g.pixelCentres = .ok centres ∧
    centres.map (·.intoFrame r.angle) = ((List.range g.ny.toNat).flatMap fun j =>
      (List.range g.nx.toNat).map fun i => ⟨⟨⟨x i⟩⟩, ⟨⟨y j⟩⟩⟩) ∧
    Samples x g.nx.toNat r.dx.value.val r.width.value.val ∧
    Samples y g.ny.toNat r.dy.value.val r.height.value.val
  width_lt : r.width.value.val < r.dx.value.val * g.nx.toNat
  height_lt : r.height.value.val < r.dy.value.val * g.ny.toNat

/-- The values of a raster that its checks ask for. -/
structure Sized (r : Raster (Exact F)) : Prop where
  dx_pos : 0 < r.dx.value.val
  dy_pos : 0 < r.dy.value.val
  width_nonneg : 0 ≤ r.width.value.val
  height_nonneg : 0 ≤ r.height.value.val

/-- An accepted raster is sized. -/
theorem sized_of_build {draft : Draft (Exact F)} {o : Descriptor (Exact F)}
    (h : draft.build = .ok o) (hmove : o.movement = .raster r) : r.Sized := by
  obtain ⟨hmovement, -, -, -, -, nyquist, -, -, rfl⟩ := Draft.build_eq_ok_iff.1 h
  dsimp only at hmove
  rw [hmove, Movement.check_eq_ok_iff] at hmovement
  obtain ⟨hdx, hdy, hwidth, hheight, -⟩ := hmovement
  simp only [PassesPositive, PassesNonnegative, Exact.le_zero_iff, Exact.lt_iff, Exact.val_zero,
    not_le, not_lt] at hdx hdy hwidth hheight
  exact ⟨hdx, hdy, hwidth, hheight⟩

namespace Sized

variable {g : Grid (Exact F)}

/-- The grid of a sized raster samples its map. -/
theorem isSampledBy (h : r.Sized) (hgrid : r.grid = .ok g) : r.IsSampledBy g := by
  obtain ⟨hnx, hny, hpixelX, hpixelY, hangle, hzeroX, hzeroY⟩ := of_grid hgrid
  refine ⟨hnx, hny, hpixelX, hpixelY, Exact.eq_zero_of_intoFrame hzeroX hzeroY, hangle,
    ?_, ?_, ?_⟩
  · have hcentres := Grid.pixelCentres_eq_crossings (g := g) (by omega) (by omega)
    rw [hzeroX, hzeroY, hpixelX, hpixelY, hangle] at hcentres
    refine ⟨_, _, _, hcentres, ?_, samples_firstPixel h.dx_pos hnx,
      samples_firstPixel h.dy_pos hny⟩
    simp only [crossings, List.map_flatMap, List.map_map, Function.comp_def,
      Exact.intoFrame_fromFrame]
  · rw [hnx, Nat.cast_succ]
    exact length_lt_mul_ceil_add_one h.dx_pos
  · rw [hny, Nat.cast_succ]
    exact length_lt_mul_ceil_add_one h.dy_pos

/-- The pixels have a longer diagonal than the map. -/
theorem lt_diagonal (h : r.Sized) (hsampled : r.IsSampledBy g)
    (hmap : F.Measures r.width.value.val r.height.value.val)
    (hpixels : F.Measures (r.dx.value.val * g.nx.toNat) (r.dy.value.val * g.ny.toNat)) :
    F.hypot r.width.value.val r.height.value.val < g.diagonal.value.val := by
  have hdiagonal : g.diagonal.value.val =
      F.hypot (r.dx.value.val * g.nx.toNat) (r.dy.value.val * g.ny.toNat) := by
    rw [← hsampled.pixelX, ← hsampled.pixelY]
    rfl
  rw [hdiagonal]
  exact Apparatus.hypot_lt_hypot hmap hpixels h.width_nonneg h.height_nonneg
    hsampled.width_lt hsampled.height_lt

end Sized

end Raster

/-! ## Observations with a raster -/

/-- The grid of an accepted observation with a raster, if its pixels can be counted, samples the
map around the origin with the spacings of the raster, and the footprint of the cubes on it is
longer than the diagonal of the map. -/
theorem Descriptor.spatialGrid_raster {F : Apparatus K} {draft : Draft (Exact F)}
    {o : Descriptor (Exact F)} {r : Raster (Exact F)} (haccepted : draft.build = .ok o)
    (hmove : o.movement = .raster r)
    (hcountX : ⌈r.width.value.val / r.dx.value.val⌉₊ + 1 < 2 ^ 32)
    (hcountY : ⌈r.height.value.val / r.dy.value.val⌉₊ + 1 < 2 ^ 32)
    (settings : Settings (Exact F)) (d : Bool) :
    ∃ g, (o.spatialGrid settings).Yields d g ∧ r.IsSampledBy g ∧
      ∀ plan, (Plan.ofSubsystems settings o.subsystems).Yields d plan →
        ∃ cubes diagonal, (o.cubes plan settings).Yields d cubes ∧
          footprint cubes = .ok diagonal ∧
          (F.Measures r.width.value.val r.height.value.val →
            F.Measures (r.dx.value.val * g.nx.toNat) (r.dy.value.val * g.ny.toNat) →
            F.hypot r.width.value.val r.height.value.val < diagonal.value.val) := by
  have hsized := Raster.sized_of_build haccepted hmove
  have hfits : ¬ Count.Fails r.grid := by
    rw [Raster.fails_grid_iff, Raster.axisOverflows_iff, Raster.axisOverflows_iff, not_or]
    exact ⟨hcountX.not_ge, hcountY.not_ge⟩
  obtain ⟨g, hg⟩ := Count.not_fails_iff.1 hfits
  have hgrid : (o.spatialGrid settings).Yields d g := by
    rw [Descriptor.spatialGrid, hmove]
    exact Run.yields_ofCount.2 hg
  have hsampled := hsized.isSampledBy hg
  refine ⟨g, hgrid, hsampled, ?_⟩
  intro plan hplan
  have hsome : plan.subsystems ≠ [] := by
    obtain ⟨-, hne, -, -, -, nyquist, -, -, rfl⟩ := Draft.build_eq_ok_iff.1 haccepted
    rw [← List.length_pos_iff, length_of_yields_ofSubsystems hplan, List.length_pos_iff]
    exact hne
  refine ⟨Cube.ofPlan g plan, g.diagonal, ?_, footprint_ofPlan hsome, ?_⟩
  · simp only [Descriptor.cubes, Run.yields_bind, Run.yields_pure]
    exact ⟨g, hgrid, rfl⟩
  · exact hsized.lt_diagonal hsampled

/-- A turned raster of 120 by 90 arc seconds. Both lengths are seven and a half steps. -/
def legsRaster : Raster (Exact rationals) :=
  ⟨⟨⟨120⟩⟩, ⟨⟨90⟩⟩, ⟨⟨16⟩⟩, ⟨⟨12⟩⟩, ⟨⟨37⟩⟩, ⟨⟨1⟩⟩, none, none, none⟩

/-- A draft of the raster with one window. -/
def legsDraft : Draft (Exact rationals) where
  movement := .raster legsRaster
  switching := .position
  subsystems := [⟨⟨Scalar.whole 345796000000⟩, ⟨Scalar.whole 1000000000⟩, 2048, .zero,
    ⟨Scalar.whole 4000000000⟩⟩]
  receptors := ["H00"]
  nyquist := some ⟨Scalar.whole 7⟩

/-- The diagonal of the map is 150 arc seconds long, and nine by nine pixels reach beyond it. -/
theorem spatialGrid_raster_legs :
    ∃ o g plan cubes diagonal, legsDraft.build = .ok o ∧ o.movement = .raster legsRaster ∧
      ⌈(120 / 16 : ℚ)⌉₊ + 1 < 2 ^ 32 ∧ ⌈(90 / 12 : ℚ)⌉₊ + 1 < 2 ^ 32 ∧
      (o.spatialGrid Settings.standard).Yields false g ∧ legsRaster.IsSampledBy g ∧
      g.nx.toNat = 9 ∧ g.ny.toNat = 9 ∧
      (Plan.ofSubsystems Settings.standard o.subsystems).Yields false plan ∧
      (o.cubes plan Settings.standard).Yields false cubes ∧ footprint cubes = .ok diagonal ∧
      rationals.Measures 120 90 ∧ rationals.Measures 144 108 ∧
      rationals.hypot 120 90 = 150 ∧ 150 < diagonal.value.val := by
  have hbuild : legsDraft.build = .ok ⟨.raster legsRaster, .position, legsDraft.subsystems, 1,
      ["H00"], ⟨Scalar.whole 7⟩⟩ := rfl
  have hceilX : ⌈(120 / 16 : ℚ)⌉₊ = 8 := by norm_num [Nat.ceil_eq_iff]
  have hceilY : ⌈(90 / 12 : ℚ)⌉₊ = 8 := by norm_num [Nat.ceil_eq_iff]
  obtain ⟨g, hgrid, hsampled, hfootprint⟩ := Descriptor.spatialGrid_raster hbuild rfl
    (show ⌈(120 / 16 : ℚ)⌉₊ + 1 < 2 ^ 32 by omega) (show ⌈(90 / 12 : ℚ)⌉₊ + 1 < 2 ^ 32 by omega)
    Settings.standard false
  have hplan : ∃ plan, (Plan.ofSubsystems Settings.standard legsDraft.subsystems).Yields false
      plan ∧ plan.leaves.length = 1 := Run.exists_yields_of_toOption (by decide +kernel)
  obtain ⟨plan, hplan, -⟩ := hplan
  obtain ⟨cubes, diagonal, hcubes, hdiagonal, hlonger⟩ := hfootprint plan hplan
  have hnx : g.nx.toNat = 9 := hsampled.nx.trans (congrArg (· + 1) hceilX)
  have hny : g.ny.toNat = 9 := hsampled.ny.trans (congrArg (· + 1) hceilY)
  have hmap : rationals.Measures 120 90 := ⟨by decide +kernel, by decide +kernel⟩
  have hpixels : rationals.Measures 144 108 := ⟨by decide +kernel, by decide +kernel⟩
  have hlegs : rationals.hypot 120 90 = 150 := by decide +kernel
  refine ⟨_, g, plan, cubes, diagonal, hbuild, rfl, by omega, by omega, hgrid, hsampled, hnx, hny,
    hplan, hcubes, hdiagonal, hmap, hpixels, hlegs, ?_⟩
  rw [← hlegs]
  refine hlonger hmap ?_
  rw [hnx, hny]
  convert hpixels using 1 <;> norm_num [legsRaster]

end Heterodyne
