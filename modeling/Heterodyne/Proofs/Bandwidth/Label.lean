import Heterodyne.Bandwidth.Label
import Heterodyne.Proofs.Binary64.Range
import Heterodyne.Proofs.Decimal.Plain
import Heterodyne.Proofs.Spectrum.WindowName
/-!
# Bandwidths told from their labels

A bandwidth becomes a label by a division, by writing the quotient with its shortest digits and by
a channel count behind it, and the label is read without its count in upper case. Only digits
become digits in upper case, digits tell the quotient, and no other bandwidth than a multiple of
the divisor has a whole quotient of so few digits. So a label names a mode exactly if it is that of
the mode's own bandwidth.

* `Text.eq_of_upperCase`: what is digits in upper case is these digits.
* `Binary64.eq_mul_of_div`: a whole quotient tells its dividend.
* `mode?_label_iff`: which labels name a mode.
-/

namespace Heterodyne

/-! ## Digits in upper case -/

namespace Text

/-- No code behind the digits, whether it is that of a character or not, gives a digit. -/
theorem isDigit_ofNat {code : ℕ} (h : 57 < code) : (Char.ofNat code).isDigit = false := by
  rw [← Bool.not_eq_true, Char.isDigit_iff_toNat]
  have hzero : '0'.toNat = 48 := rfl
  have hnine : '9'.toNat = 57 := rfl
  by_cases hvalid : code.isValidChar
  · have hcode : (Char.ofNat code).toNat = code := by
      rw [Char.ofNat, dif_pos hvalid]
      rfl
    omega
  · have hcode : (Char.ofNat code).toNat = 0 := by
      rw [Char.ofNat, dif_neg hvalid]
      rfl
    omega

/-- The capitals of a character that is not left as it is do not begin with a digit. -/
theorem upperChar_cases (c : Char) :
    upperChar c = [c] ∨ ∃ d rest, upperChar c = d :: rest ∧ d.isDigit = false := by
  have hexpansions : ∀ e ∈ caseExpansions,
      ((e.2.map Char.ofNat).head?.any fun d => !d.isDigit) = true := by decide +kernel
  have hruns : ∀ run ∈ caseRuns, 57 < run.first + run.distance := by decide +kernel
  unfold upperChar
  split
  next k capitals hfind =>
    right
    have hhead := hexpansions _ (List.mem_of_find?_eq_some hfind)
    cases hcapitals : capitals.map Char.ofNat with
    | nil => simp [hcapitals] at hhead
    | cons d rest => exact ⟨d, rest, rfl, by simpa [hcapitals] using hhead⟩
  next =>
    split
    next run hfind =>
      right
      have hholds := List.find?_some hfind
      have hfirst := hruns _ (List.mem_of_find?_eq_some hfind)
      simp only [CaseRun.holds, Bool.and_eq_true, decide_eq_true_eq] at hholds
      exact ⟨_, [], rfl, isDigit_ofNat (by omega)⟩
    next => exact .inl rfl

/-- What is digits in upper case is these digits. -/
theorem eq_of_upperCase {s digits : List Char} (hdigits : ∀ c ∈ digits, c.isDigit = true)
    (h : upperCase s = digits) : s = digits := by
  induction s generalizing digits with
  | nil => exact h
  | cons c rest ih =>
    rw [upperCase, List.flatMap_cons, ← upperCase] at h
    rcases upperChar_cases c with hsame | ⟨d, capitals, hcapitals, hnot⟩
    · rw [hsame, List.singleton_append] at h
      subst h
      exact congrArg (c :: ·) (ih (fun c hc => hdigits c (List.mem_cons_of_mem _ hc)) rfl)
    · rw [hcapitals, List.cons_append] at h
      subst h
      rw [hdigits d List.mem_cons_self] at hnot
      cases hnot

end Text

/-! ## Whole quotients -/

namespace Binary64

variable {x : Binary64} {g n : ℕ}

/-- Among the patterns, a natural number is told by its value. -/
theorem eq_ofNat_of_value (hn : n < 2 ^ 53) (hpos : 0 < n) (h : x.value = n) : x = ofNat n := by
  obtain ⟨-, hvalue⟩ := value_ofNat hn
  have hx : 0 < x.value := by
    rw [h]
    exact_mod_cast hpos
  refine eq_of_size ((isNegative_of_value_pos hx).trans (isNegative_ofNat hn).symm) ?_
  rw [← value_of_nonneg hx.le, ← value_of_nonneg (by rw [hvalue]; exact Nat.cast_nonneg n), h,
    hvalue]

/-- If a quotient is rounded to a natural number, the dividend is the multiple of the divisor,
provided that half a step beside the quotient, times the divisor, is less than the spacing of the
numbers beside the multiple. -/
theorem eq_mul_of_div {e d : ℕ} (hg : 0 < g) (hn : 0 < n) (he : e ≤ 1074)
    (hmul : g * n < 2 ^ 53) (hstep : n * 2 ^ e < 2 ^ 53) (hfine : g * 2 ^ d < 2 * 2 ^ e)
    (hlarge : 2 ^ 52 < g * n * 2 ^ d) (h : x / ofNat g = ofNat n) : x = ofNat (g * n) := by
  have hg53 : g < 2 ^ 53 := (Nat.le_mul_of_pos_right g hn).trans_lt hmul
  have hn53 : n < 2 ^ 53 := (Nat.le_mul_of_pos_left n hg).trans_lt hmul
  obtain ⟨hgfinite, hgvalue⟩ := value_ofNat hg53
  obtain ⟨hnfinite, hnvalue⟩ := value_ofNat hn53
  have hround := (rounds_div_of_isFinite hgfinite (h ▸ hnfinite)).isNearest
  rw [h, hnvalue, hgvalue] at hround
  have hgpos : (0 : ℚ) < g := by exact_mod_cast hg
  have hepos : (0 : ℚ) < 2 ^ e := by positivity
  have hdpos : (0 : ℚ) < 2 ^ d := by positivity
  have hbeside (j : ℤ) (hj : |j| ≤ 1) : Representable ((n : ℚ) + j / 2 ^ e) := by
    refine ⟨n * 2 ^ e + j, -e, ?_, by omega, ?_⟩
    · have hint : (n : ℤ) * 2 ^ e < 2 ^ 53 := by exact_mod_cast hstep
      have hnonneg : (0 : ℤ) < n * 2 ^ e := by positivity
      rw [abs_le] at hj ⊢
      omega
    · rw [zpow_neg, zpow_natCast]
      push_cast
      field_simp
  -- the dividend is as close to the multiple as the divisor times half a step
  have hmove : |(n : ℚ) - x.value / g| ≤ 1 / 2 ^ e / 2 :=
    hround.abs_sub_le (by simpa using hbeside 1 (by norm_num))
      (by simpa [neg_div, sub_eq_add_neg] using hbeside (-1) (by norm_num)) (by positivity)
  have hclose : |x.value - g * n| < 1 / 2 ^ d := by
    have hsplit : x.value - g * n = -(g * (n - x.value / g)) := by
      field_simp
      ring
    rw [hsplit, abs_neg, abs_mul, abs_of_pos hgpos]
    refine (mul_le_mul_of_nonneg_left hmove hgpos.le).trans_lt ?_
    have hfine' : (g : ℚ) * 2 ^ d < 2 * 2 ^ e := by exact_mod_cast hfine
    rw [div_div, mul_one_div, div_lt_div_iff₀ (by positivity) hdpos]
    linarith
  have hunit : (2 : ℚ) ^ (-d : ℤ) = 1 / 2 ^ d := by rw [zpow_neg, zpow_natCast, one_div]
  have hmultiple : ((g * n * 2 ^ d : ℕ) : ℤ) * (2 : ℚ) ^ (-d : ℤ) = g * n := by
    rw [hunit]
    push_cast
    field_simp
  have hvalue : x.value = g * n := by
    rw [← hmultiple]
    refine (representable_value x).eq_of_abs_sub_lt (.inl ?_) (by rwa [hmultiple, hunit])
    have hlow := (abs_lt.1 hclose).1
    have hlarge' : (2 ^ 52 + 1 : ℚ) * (1 / 2 ^ d) ≤ g * n := by
      rw [mul_one_div, div_le_iff₀ hdpos]
      exact_mod_cast hlarge
    rw [hunit]
    linarith
  exact eq_ofNat_of_value hmul (Nat.mul_pos hg hn) (by rw [hvalue]; push_cast; rfl)

end Binary64

/-! ## Nominal bandwidths -/

namespace BandwidthMode

/-- The whole number of units in the bandwidth of a mode. -/
def count : BandwidthMode → ℕ
  | .ghz1 => 1
  | .mhz500 => 500
  | .mhz250 => 250

/-- The unit in which the bandwidth of a mode is given, in hertz. -/
def hertzPerUnit : BandwidthMode → ℕ
  | .ghz1 => 1000000000
  | .mhz500 | .mhz250 => 1000000

/-- The symbol of the unit in upper case. -/
def unitName : BandwidthMode → List Char
  | .ghz1 => ['G', 'H', 'Z']
  | .mhz500 | .mhz250 => ['M', 'H', 'Z']

/-- The bandwidth of a mode in hertz. -/
def hertz : BandwidthMode → ℕ
  | .ghz1 => 1000000000
  | .mhz500 => 500000000
  | .mhz250 => 250000000

/-- The bandwidth of a mode. -/
def bandwidth {α : Type} [Scalar α] (m : BandwidthMode) : Frequency α := ⟨Scalar.whole m.hertz⟩

/-- The units make up the bandwidth. -/
theorem hertzPerUnit_mul_count (m : BandwidthMode) : m.hertzPerUnit * m.count = m.hertz := by
  cases m <;> rfl

/-- A mode is named by the digits of its bandwidth and the unit. -/
theorem toList_name (m : BandwidthMode) :
    m.name.toList = Nat.toDigits 10 m.count ++ m.unitName := by
  cases m <;> decide

/-- A quotient by the unit of a mode that is rounded to its number of units is that of its
bandwidth. -/
theorem eq_of_div {x : Binary64} (m : BandwidthMode)
    (h : x / Binary64.ofNat m.hertzPerUnit = Binary64.ofNat m.count) :
    x = Binary64.ofNat m.hertz := by
  rw [← hertzPerUnit_mul_count]
  cases m with
  | ghz1 =>
    exact Binary64.eq_mul_of_div (e := 52) (d := 23) (by decide) (by decide) (by decide)
      (by decide) (by decide) (by decide) (by decide) h
  | mhz500 =>
    exact Binary64.eq_mul_of_div (e := 44) (d := 24) (by decide) (by decide) (by decide)
      (by decide) (by decide) (by decide) (by decide) h
  | mhz250 =>
    exact Binary64.eq_mul_of_div (e := 45) (d := 25) (by decide) (by decide) (by decide)
      (by decide) (by decide) (by decide) (by decide) h

end BandwidthMode

namespace Bandwidth

section Labels

variable {α : Type} {l : String} {m : BandwidthMode}

/-- A label names the mode whose name it is in upper case without its channel count. -/
theorem mode?_eq_some_iff : mode? l = some m ↔ m.name = nominal l := by
  unfold mode?
  constructor
  · intro h
    simpa using List.find?_some h
  · intro h
    cases hfind : BandwidthMode.all.find? fun mode => mode.name == nominal l with
    | none =>
      have hnone := List.find?_eq_none.1 hfind m (BandwidthMode.mem_all m)
      exact absurd (beq_iff_eq.2 h) hnone
    | some found =>
      have hname : found.name = nominal l := by simpa using List.find?_some hfind
      rw [BandwidthMode.name_injective (hname.trans h.symm)]

/-- A label is read as the mode that it names. -/
theorem read_eq_ok_iff :
    (read l : Except (Refusal α) BandwidthMode) = .ok m ↔ mode? l = some m := by
  unfold read
  cases mode? l with
  | none => simp
  | some found => simp

/-- A label is refused as an unknown one exactly if it names no mode. -/
theorem read_eq_error_iff :
    (read l : Except (Refusal α) BandwidthMode) = .error (.unknownBandwidth l) ↔
      mode? l = none := by
  unfold read
  cases mode? l with
  | none => simp
  | some found => simp

variable [Scalar α]

/-- Whether a bandwidth is written in gigahertz. -/
def InGiga (b : Frequency α) : Prop :=
  Scalar.whole 1000000000 ≤ b.value ∧
    Scalar.equal (b.value / Scalar.whole 1000000000 -
      Scalar.floor (b.value / Scalar.whole 1000000000)) (Scalar.zero : α) = true

instance (b : Frequency α) : Decidable (InGiga b) :=
  inferInstanceAs (Decidable (_ ∧ _))

/-- The bandwidth of a label as it is written. -/
def size (b : Frequency α) : String :=
  if InGiga b then Scalar.plain (b.value / Scalar.whole 1000000000) ++ "GHz"
  else Scalar.plain (b.value / Scalar.whole 1000000) ++ "MHz"

/-- A label is the written bandwidth, a mark and the channel count. -/
theorem label_eq (b : Frequency α) (channels : UInt32) :
    label b channels = size b ++ "x" ++ Count.text channels := rfl

/-- Without its channel count a label is the written bandwidth. -/
theorem withoutChannels_label (b : Frequency α) (channels : UInt32) :
    withoutChannels (label b channels).toList = (size b).toList := by
  have hlist : (label b channels).toList =
      (size b).toList ++ 'x' :: (Count.text channels).toList := by
    simp [label_eq]
  have hdigits : ∀ c ∈ (Count.text channels).toList, c.isDigit = true := by
    intro c hc
    rw [Count.toList_text] at hc
    exact Nat.isDigit_of_mem_toDigits (by decide) (by decide) hc
  have hne : (Count.text channels).toList ≠ [] := by
    rw [Count.toList_text]
    exact Nat.toDigits_ne_nil
  rw [hlist, withoutChannels_append rfl hne hdigits]

/-- The nominal bandwidth of a label is the written bandwidth in upper case. -/
theorem nominal_label (b : Frequency α) (channels : UInt32) :
    (nominal (label b channels)).toList = Text.upperCase (size b).toList := by
  rw [nominal, String.toList_ofList, withoutChannels_label]

end Labels

/-- A bandwidth that is written with a unit and has the name of a mode in upper case is that of the
mode, if the unit is. -/
theorem eq_bandwidth_of_name {b : Frequency Binary64} {m : BandwidthMode} {hertz : ℕ}
    {unit : String}
    (hlength : (Text.upperCase unit.toList).length = 3)
    (hunit : m.unitName = Text.upperCase unit.toList → m.hertzPerUnit = hertz)
    (h : m.name.toList =
      Text.upperCase (Scalar.plain (b.value / Scalar.whole hertz) ++ unit).toList) :
    b = m.bandwidth := by
  rw [BandwidthMode.toList_name, String.toList_append, Text.upperCase_append] at h
  have hthree : m.unitName.length = (Text.upperCase unit.toList).length := by
    rw [hlength]
    cases m <;> rfl
  obtain ⟨hdigits, hname⟩ := List.append_inj' h hthree
  have hplain := Text.eq_of_upperCase
    (fun c hc => Nat.isDigit_of_mem_toDigits (by decide) (by decide) hc) hdigits.symm
  have hcount : m.count < 2 ^ 53 := by cases m <;> decide
  have hquotient : b.value / Binary64.ofNat m.hertzPerUnit = Binary64.ofNat m.count := by
    rw [hunit hname]
    exact Binary64.eq_ofNat_of_plain hcount hplain
  exact congrArg Quantity.mk (m.eq_of_div hquotient)

/-- The label of a bandwidth names a mode exactly if the bandwidth is that of the mode. -/
theorem mode?_label_iff {b : Frequency Binary64} {channels : UInt32} {m : BandwidthMode} :
    mode? (label b channels) = some m ↔ b = m.bandwidth := by
  rw [mode?_eq_some_iff, ← String.toList_inj, nominal_label]
  constructor
  · intro h
    rw [size] at h
    split at h
    · exact eq_bandwidth_of_name (by decide) (by cases m <;> decide) h
    · exact eq_bandwidth_of_name (by decide) (by cases m <;> decide) h
  · rintro rfl
    cases m <;> decide +kernel

end Bandwidth

end Heterodyne
