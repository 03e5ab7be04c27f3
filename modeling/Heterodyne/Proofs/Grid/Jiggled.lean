import Heterodyne.Cube
import Heterodyne.Proofs.Grid.RoundTrip
/-!
# Grids of jiggle patterns

The points of a square pattern lie at the crossings of two equal rows around the origin, wherever
the pattern is turned to. A row of an odd number of points has one at the origin, so its first
position is a multiple of the scale; that of an even number lies half a scale beside one. Unless
half a scale is below the tolerance, the reference stays at the first position, and the grid has a
pixel for each point.

* `Jiggle.offsets_eq_crossings`: the points of a scaled square.
* `snapped_firstPixel`: the reference of a row around the origin is its first position.
* `Descriptor.spatialGrid_square`: the grid of a built-in square.
* `Descriptor.not_spatialGrid_square`: points closer than the closeness are one, and an even
  square of a scale below twice the tolerance gets a pixel more each way.
-/

namespace Heterodyne

/-! ## Built-in squares -/

namespace Pattern

variable {α : Type} [Scalar α]

/-- The number of points of a built-in pattern. -/
theorem length_of_builtIn {name : String} {points : List (Offset α)}
    (h : builtIn.lookup name = some points) : 5 ≤ points.length ∧ points.length ≤ 25 := by
  obtain ⟨before, after, hsplit, -⟩ := List.lookup_eq_some_iff.1 h
  have hmem : (name, points) ∈ (builtIn : List (String × List (Offset α))) := by
    rw [hsplit]
    exact List.mem_append_right before List.mem_cons_self
  simp only [builtIn, List.mem_cons, Prod.mk.injEq, List.not_mem_nil, or_false] at hmem
  have hcross : (cross : List (Offset α)).length = 5 := rfl
  rcases hmem with ⟨-, rfl⟩ | ⟨-, rfl⟩ | ⟨-, rfl⟩ | ⟨-, rfl⟩ | ⟨-, rfl⟩ <;>
    simp only [length_square, hcross] <;> omega

/-- The sides of the built-in squares. -/
theorem side_of_builtIn {name : String} {n : ℕ}
    (h : builtIn.lookup name = some (square n : List (Offset α))) : 3 ≤ n ∧ n ≤ 5 := by
  have hlength := length_of_builtIn h
  rw [length_square] at hlength
  constructor <;> nlinarith

/-- The points of a named pattern are the built-in ones, scaled. -/
theorem points_of_named {name : String} {scale : Arcsec α} {points : List (Offset α)}
    {p : Pattern α} (h : named name scale = .ok p) (hpoints : builtIn.lookup name = some points) :
    p.points = points.map (·.scaled scale.value) := by
  simp only [named, hpoints, Except.ok.injEq] at h
  rw [← h]

end Pattern

variable {d : Bool} {K : Type} [Field K] [LinearOrder K] [FloorRing K] {F : Apparatus K} {n : ℕ}

open Grid (firstPixel firstPixel_eq crossings)

/-- The points of a scaled square are the crossings of two rows around the origin. -/
theorem Jiggle.offsets_eq_crossings {j : Jiggle (Exact F)} {scale : Arcsec (Exact F)}
    (h : j.pattern.points = (Pattern.square n).map (·.scaled scale.value)) :
    j.offsets = crossings (firstPixel 0 scale.value.val n) scale.value.val
      (firstPixel 0 scale.value.val n) scale.value.val n n j.angle := by
  simp only [Jiggle.offsets, h, Pattern.square, List.map_flatMap, List.map_map]
  unfold crossings
  refine List.flatMap_congr fun k _ => List.map_congr_left fun i _ => ?_
  apply congrArg (Offset.fromFrame · j.angle)
  apply Exact.offset_ext <;>
    simp only [Function.comp_apply, Offset.scaled, Scalar.one, Quantity.value_mul,
      Exact.val_mul, Exact.val_sub, Exact.val_div, Exact.val_whole, firstPixel_eq]
  · push_cast
    ring
  · push_cast
    ring

/-- The grid of a pattern is the one that its points are fitted with. -/
theorem Descriptor.spatialGrid_of_pattern {o : Descriptor (Exact F)}
    {settings : Settings (Exact F)} {j : Jiggle (Exact F)}
    (h : o.movement = .jiggle j ∨ o.movement = .pointing j) :
    o.spatialGrid settings = Grid.fit j.offsets j.angle o.nyquist settings.gridTolerance := by
  rcases h with h | h <;> simp only [spatialGrid, h]

/-! ## Rows around the origin -/

namespace Axis

variable {step : K}

/-- The first of an odd number of positions around the origin is a multiple of the step. -/
theorem firstPixel_odd (step : K) (m : ℕ) :
    firstPixel 0 step (2 * m + 1) = ((-m : ℤ) : K) * step := by
  rw [firstPixel_eq]
  push_cast
  ring

variable [IsStrictOrderedRing K]

/-- A half is at least a half away from all whole numbers. -/
theorem half_le_abs_half_sub (k : ℤ) : (1 / 2 : K) ≤ |1 / 2 - (k : K)| := by
  rw [le_abs]
  by_cases hk : k ≤ 0
  · have hk' : (k : K) ≤ 0 := by exact_mod_cast hk
    left
    linarith
  · have hk' : (1 : K) ≤ k := by exact_mod_cast Int.not_le.1 hk
    right
    linarith

/-- The first of an even number of positions around the origin is at least half a step away from
all multiples of the step. -/
theorem half_step_le_abs_sub (hstep : 0 < step) (m : ℕ) (k : ℤ) :
    step / 2 ≤ |firstPixel 0 step (2 * m) - k * step| := by
  have hoff : firstPixel 0 step (2 * m) - k * step = step * (1 / 2 - ((m + k : ℤ) : K)) := by
    rw [firstPixel_eq]
    push_cast
    ring
  rw [hoff, abs_mul, abs_of_pos hstep]
  have hhalf := mul_le_mul_of_nonneg_left (half_le_abs_half_sub (K := K) (m + k)) hstep.le
  linarith

/-- The reference of a row around the origin is its first position, if the number of positions is
odd or half a step is not below the tolerance. -/
theorem snapped_firstPixel {tolerance : Exact F} (hstep : 0 < step)
    (hparity : Odd n ∨ 2 * tolerance.val ≤ step) :
    snapped ⟨firstPixel 0 step n⟩ ⟨step⟩ tolerance = (⟨firstPixel 0 step n⟩ : Exact F) := by
  obtain ⟨m, rfl | rfl⟩ := Nat.even_or_odd' n
  · -- whatever multiple is the nearest one, it is too far away
    have htwice : 2 * tolerance.val ≤ step := by
      rcases hparity with hodd | htwice
      · exact absurd hodd (by simp)
      · exact htwice
    have hfar := half_step_le_abs_sub hstep m (roundAway (firstPixel 0 step (2 * m) / step))
    rw [snapped, if_neg]
    rw [Exact.lt_iff, not_lt, Exact.val_abs, Exact.val_sub, Exact.val_mul, Exact.val_round,
      Exact.val_div]
    linarith
  · have hmultiple : (Scalar.round (⟨firstPixel 0 step (2 * m + 1)⟩ / ⟨step⟩ : Exact F)) *
        (⟨step⟩ : Exact F) = ⟨firstPixel 0 step (2 * m + 1)⟩ := by
      apply Exact.ext
      rw [Exact.val_mul, Exact.val_round, Exact.val_div]
      dsimp only
      rw [firstPixel_odd, mul_div_cancel_right₀ _ hstep.ne', roundAway_intCast]
    rw [snapped, hmultiple, ite_self]

end Axis

variable [IsStrictOrderedRing K] {nyquist : Arcsec (Exact F)} {factor : Exact F} {step : K}

/-- Crossings of two equal rows around the origin have a grid of as many pixels around the origin,
if the number is odd or half a step is not below the tolerance. -/
theorem Grid.exists_yields_fit_square (angle : Degrees (Exact F)) (hn : 2 ≤ n)
    (hcount : n < 2 ^ 32) (hnyquist : 0 < nyquist.value.val)
    (htolerance : 0 < nyquist.value.val * factor.val)
    (habove : nyquist.value.val * factor.val < step) (hclose : 1 / 10 ^ 9 ≤ step)
    (hparity : Odd n ∨ 2 * (nyquist.value.val * factor.val) ≤ step) :
    ∃ g, (fit (crossings (firstPixel 0 step n) step (firstPixel 0 step n) step n n angle)
        angle nyquist factor).Yields d g ∧
      g.nx.toNat = n ∧ g.ny.toNat = n ∧ g.pixelX = ⟨⟨step⟩⟩ ∧ g.pixelY = ⟨⟨step⟩⟩ ∧
      g.centre = ⟨.zero, .zero⟩ ∧ g.angle = angle := by
  have hone : 1 ≤ n := by omega
  have hreference : Axis.snapped ⟨firstPixel 0 step n⟩ ⟨step⟩ (nyquist * factor).value =
      (⟨firstPixel 0 step n⟩ : Exact F) :=
    Axis.snapped_firstPixel (htolerance.trans habove) hparity
  have hrow {positions : List (Exact F)}
      (hmem : ∀ v, v ∈ positions ↔ v ∈ Axis.row (firstPixel 0 step n) step n) :
      Axis.IsRow positions (nyquist * factor) (firstPixel 0 step n) step n := by
    refine ⟨hmem, hone, hcount, hclose, habove, ?_⟩
    rw [hreference, sub_self, abs_zero]
    linarith
  have hstays : Axis.rowReference (nyquist * factor) (firstPixel 0 step n) step n =
      (⟨firstPixel 0 step n⟩ : Exact F) := by
    rw [Axis.rowReference, hreference, ite_self]
  obtain ⟨g, hyields, hnx, hny, hangle, hpixelX, hpixelY, hmiddleX, hmiddleY⟩ :=
    exists_yields_fit_rows (d := d) hnyquist htolerance
      (hrow (mem_columns_crossings angle hone))
      (hrow (mem_rows_crossings angle hone))
  rw [hstays, sub_self, add_zero, firstPixel_add_half] at hmiddleX hmiddleY
  refine ⟨g, hyields, hnx, hny, ?_, ?_, Exact.eq_zero_of_intoFrame hmiddleX hmiddleY, hangle⟩
  · rw [hpixelX, if_neg (by omega)]
  · rw [hpixelY, if_neg (by omega)]

/-! ## Jiggle observations -/

namespace Descriptor

variable {o : Descriptor (Exact F)} {settings : Settings (Exact F)} {j : Jiggle (Exact F)}

/-- The grid of a built-in square of `n` by `n` points has a pixel for each point, of the size of
the scale, around the origin, at every position angle. The scale lies above the tolerance and not
below the closeness; half of it is not below the tolerance if the number is even. -/
theorem spatialGrid_square {name : String} {scale : Arcsec (Exact F)}
    (hmovement : o.movement = .jiggle j ∨ o.movement = .pointing j)
    (hnamed : Pattern.named name scale = .ok j.pattern)
    (hsquare : Pattern.builtIn.lookup name = some (Pattern.square n : List (Offset (Exact F))))
    (hnyquist : 0 < o.nyquist.value.val) (hfactor : 0 < settings.gridTolerance.val)
    (habove : o.nyquist.value.val * settings.gridTolerance.val < scale.value.val)
    (hclose : 1 / 10 ^ 9 ≤ scale.value.val)
    (hparity : Odd n ∨
      2 * (o.nyquist.value.val * settings.gridTolerance.val) ≤ scale.value.val) :
    ∃ g, (o.spatialGrid settings).Yields d g ∧
      g.nx.toNat = n ∧ g.ny.toNat = n ∧ g.pixelX = scale ∧ g.pixelY = scale ∧
      g.centre = ⟨.zero, .zero⟩ ∧ g.angle = j.angle := by
  obtain ⟨hthree, hfive⟩ := Pattern.side_of_builtIn hsquare
  rw [spatialGrid_of_pattern hmovement,
    Jiggle.offsets_eq_crossings (Pattern.points_of_named hnamed hsquare)]
  exact Grid.exists_yields_fit_square j.angle (by omega) (by omega) hnyquist
    (mul_pos hnyquist hfactor) habove hclose hparity

/-- An observation that jiggles a pattern. -/
def jiggling (pattern : Pattern (Exact rationals)) (angle nyquist : ℚ) :
    Descriptor (Exact rationals) where
  movement := .jiggle ⟨pattern, ⟨⟨angle⟩⟩, ⟨⟨30⟩⟩, none, 2⟩
  switching := .chop
  subsystems := [⟨⟨⟨345796000000⟩⟩, ⟨⟨250000000⟩⟩, 8192, ⟨⟨0⟩⟩, ⟨⟨4000000000⟩⟩⟩]
  repeats := 1
  receptors := ["H00"]
  nyquist := ⟨⟨nyquist⟩⟩

/-- A square of a name, a side and a scale. -/
def scaledSquare (name : String) (n : ℕ) (scale : ℚ) : Pattern (Exact rationals) :=
  ⟨name, (Pattern.square n).map (·.scaled ⟨scale⟩)⟩

/-- Settings with a part of the Nyquist value as the tolerance. -/
def tolerating (factor : ℚ) : Settings (Exact rationals) :=
  ⟨⟨⟨1 / 10⟩⟩, ⟨⟨10⟩⟩, ⟨⟨30⟩⟩, ⟨⟨200000⟩⟩, ⟨⟨1000000⟩⟩, ⟨factor⟩⟩

/-- The tolerance may be half the scale of an even square. -/
theorem spatialGrid_square_sixteen :
    let o := jiggling (scaledSquare "HARP4" 4 7) 37 7
    let settings := tolerating (1 / 2)
    Pattern.named "HARP4" ⟨⟨7⟩⟩ = .ok (scaledSquare "HARP4" 4 7) ∧
      Pattern.builtIn.lookup "HARP4" = some (Pattern.square 4 : List (Offset (Exact rationals))) ∧
      0 < o.nyquist.value.val ∧ 0 < settings.gridTolerance.val ∧
      o.nyquist.value.val * settings.gridTolerance.val < 7 ∧ (1 : ℚ) / 10 ^ 9 ≤ 7 ∧
      2 * (o.nyquist.value.val * settings.gridTolerance.val) ≤ 7 ∧
      ∃ g, (o.spatialGrid settings).Yields true g ∧
        g.nx.toNat = 4 ∧ g.ny.toNat = 4 ∧ g.pixelX = ⟨⟨7⟩⟩ ∧ g.pixelY = ⟨⟨7⟩⟩ ∧
        g.centre = ⟨.zero, .zero⟩ ∧ g.angle = ⟨⟨37⟩⟩ := by
  intro o settings
  have hnamed : Pattern.named "HARP4" ⟨⟨7⟩⟩ = .ok (scaledSquare "HARP4" 4 7) := rfl
  have hsquare : Pattern.builtIn.lookup "HARP4" =
      some (Pattern.square 4 : List (Offset (Exact rationals))) := rfl
  have hnyquist : 0 < o.nyquist.value.val := by decide +kernel
  have hfactor : 0 < settings.gridTolerance.val := by decide +kernel
  have habove : o.nyquist.value.val * settings.gridTolerance.val < 7 := by decide +kernel
  have hclose : (1 : ℚ) / 10 ^ 9 ≤ 7 := by norm_num
  have htwice : 2 * (o.nyquist.value.val * settings.gridTolerance.val) ≤ 7 := by decide +kernel
  exact ⟨hnamed, hsquare, hnyquist, hfactor, habove, hclose, htwice,
    spatialGrid_square (.inl rfl) hnamed hsquare hnyquist hfactor habove hclose (.inr htwice)⟩

/-- The grid of a square has the count each way that its rows are fitted with. -/
theorem exists_spatialGrid_of_rows {scale : Arcsec (Exact F)} {count : UInt32}
    (hmovement : o.movement = .jiggle j ∨ o.movement = .pointing j)
    (hpoints : j.pattern.points = (Pattern.square n).map (·.scaled scale.value)) (hn : 1 ≤ n)
    (hnyquist : 0 < o.nyquist.value.val)
    (hfit : ∀ positions : List (Exact F),
      (∀ v, v ∈ positions ↔ v ∈ Axis.row (firstPixel 0 scale.value.val n) scale.value.val n) →
      ∃ a, (Axis.fit positions o.nyquist (o.nyquist * settings.gridTolerance)).Yields d a ∧
        a.count = count) :
    ∃ g, (o.spatialGrid settings).Yields d g ∧ g.nx = count ∧ g.ny = count := by
  have hpositive : ¬ o.nyquist.value ≤ Scalar.zero := mt Exact.le_zero_iff.1 hnyquist.not_ge
  rw [spatialGrid_of_pattern hmovement, Jiggle.offsets_eq_crossings hpoints]
  obtain ⟨x, hx, hcountX⟩ := hfit _ (Grid.mem_columns_crossings j.angle hn)
  obtain ⟨y, hy, hcountY⟩ := hfit _ (Grid.mem_rows_crossings j.angle hn)
  obtain ⟨g, hgrid, hyields⟩ := Grid.yields_fit_of_axes hpositive hx hy
  simp only [Grid.ofAxes, check_bind_eq_ok, pure, Except.pure, Except.ok.injEq] at hgrid
  obtain ⟨cx, -, cy, -, rfl⟩ := hgrid
  exact ⟨_, hyields, hcountX, hcountY⟩

/-- A row of three positions that is shorter than the closeness. -/
def shortRow : List (Exact rationals) := Axis.row (firstPixel 0 (4 / 10 ^ 10) 3) (4 / 10 ^ 10) 3

/-- Points that are further apart than the tolerance, but not than the closeness, share a pixel.
An even square of a scale between the tolerance and twice the tolerance gets a pixel more each
way: its first position is near a multiple of the scale, and the reference is moved there. -/
theorem not_spatialGrid_square :
    (let o := jiggling (scaledSquare "3x3" 3 (4 / 10 ^ 10)) 0 (1 / 10 ^ 9)
      let settings := tolerating (1 / 5)
      Pattern.named "3x3" ⟨⟨4 / 10 ^ 10⟩⟩ = .ok (scaledSquare "3x3" 3 (4 / 10 ^ 10)) ∧
        0 < o.nyquist.value.val ∧ 0 < settings.gridTolerance.val ∧
        settings.gridTolerance.val ≤ 1 / 2 ∧
        o.nyquist.value.val * settings.gridTolerance.val < 4 / 10 ^ 10 ∧
        ∃ g, (o.spatialGrid settings).Yields true g ∧ g.nx = 1 ∧ g.ny = 1) ∧
    (let o := jiggling (scaledSquare "HARP4" 4 5) 0 7
      let settings := tolerating (1 / 2)
      Pattern.named "HARP4" ⟨⟨5⟩⟩ = .ok (scaledSquare "HARP4" 4 5) ∧
        0 < o.nyquist.value.val ∧ 0 < settings.gridTolerance.val ∧
        settings.gridTolerance.val ≤ 1 / 2 ∧
        o.nyquist.value.val * settings.gridTolerance.val < 5 ∧
        ∃ g, (o.spatialGrid settings).Yields true g ∧ g.nx = 5 ∧ g.ny = 5) := by
  constructor
  · intro o settings
    have hnyquist : 0 < o.nyquist.value.val := by decide +kernel
    refine ⟨rfl, hnyquist, by decide +kernel, by decide +kernel, by decide +kernel,
      exists_spatialGrid_of_rows (.inl rfl) rfl (by decide) hnyquist ?_⟩
    intro positions hmem
    have hclose : ∀ v ∈ shortRow, ∀ w ∈ shortRow, |v.val - w.val| < 1 / 10 ^ 9 := by
      decide +kernel
    have hfirst : (⟨-4 / 10 ^ 10⟩ : Exact rationals) ∈ shortRow := by decide +kernel
    obtain ⟨v, hsingle⟩ := Axis.exists_distinctSorted_eq_singleton
      (List.ne_nil_of_mem ((hmem _).2 hfirst))
      fun v hv w hw => hclose v ((hmem v).1 hv) w ((hmem w).1 hw)
    refine ⟨⟨1, o.nyquist, ⟨v⟩⟩, ?_, rfl⟩
    simp only [Axis.fit, hsingle]
    exact Run.yields_pure.2 rfl
  · intro o settings
    have hnyquist : 0 < o.nyquist.value.val := by decide +kernel
    refine ⟨rfl, hnyquist, by decide +kernel, by decide +kernel, by decide +kernel,
      exists_spatialGrid_of_rows (.inl rfl) rfl (by decide) hnyquist ?_⟩
    intro positions hmem
    have hdistinct := Axis.distinctSorted_eq_of_mem_iff hmem
      (Axis.pairwise_apart_row (by decide +kernel))
    -- the last position is three and a half steps from the reference, and a half is rounded up
    have hsteps : Scalar.toNat (Axis.stepsTo ⟨firstPixel 0 5 4 + 5 * (1 + 2 : ℕ)⟩
        (Axis.snapped ⟨firstPixel 0 5 4⟩ ⟨5⟩ (o.nyquist * settings.gridTolerance).value)
        (⟨5⟩ / Scalar.whole 1 : Exact rationals) (o.nyquist * settings.gridTolerance).value) =
        4 := by decide +kernel
    obtain ⟨a, hyields, hcount, -⟩ := Axis.exists_yields_fit_of_row (d := true) (m := 1) o.nyquist
      hdistinct (by decide +kernel) (by decide +kernel) hsteps (by norm_num)
    exact ⟨a, hyields, UInt32.toNat_inj.1 hcount⟩

end Descriptor

end Heterodyne
