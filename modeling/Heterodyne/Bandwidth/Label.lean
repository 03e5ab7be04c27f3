import Heterodyne.Refusal
import Heterodyne.Text.UpperCase
/-!
# Bandwidth labels

A label writes a bandwidth and a channel count, as in `1GHzx2048`. The mode of a label depends
on its bandwidth alone, in whatever case it is written.

* `withoutChannels_append`: a channel count behind a mark is taken off again.
-/

namespace Heterodyne

namespace Bandwidth

/-- The mark between bandwidth and channel count. -/
def isMark (c : Char) : Bool := c == 'x' || c == 'X'

/-- A label without its channel count: without the last mark and the digits behind it. A label
that does not end in a mark and digits is left whole. -/
def withoutChannels (label : List Char) : List Char :=
  let reversed := label.reverse
  match reversed.takeWhile Char.isDigit, reversed.dropWhile Char.isDigit with
  | _ :: _, mark :: bandwidth => if isMark mark then bandwidth.reverse else label
  | _, _ => label

/-- A mark and a run of digits at the end of a label are dropped. -/
theorem withoutChannels_append {bandwidth digits : List Char} {mark : Char}
    (hmark : isMark mark = true) (hne : digits ≠ [])
    (hdigits : ∀ c ∈ digits, c.isDigit = true) :
    withoutChannels (bandwidth ++ mark :: digits) = bandwidth := by
  have hstop : mark.isDigit = false := by
    rcases Bool.or_eq_true_iff.1 hmark with h | h <;> (rw [beq_iff_eq] at h; subst h; decide)
  have hrev : (bandwidth ++ mark :: digits).reverse
      = digits.reverse ++ mark :: bandwidth.reverse := by simp
  have hall : ∀ c ∈ digits.reverse, c.isDigit = true := fun c hc =>
    hdigits c (List.mem_reverse.1 hc)
  have htake : (digits.reverse ++ mark :: bandwidth.reverse).takeWhile Char.isDigit
      = digits.reverse := by
    rw [List.takeWhile_append_of_pos hall, List.takeWhile_cons_of_neg (by simp [hstop])]
    simp
  have hdrop : (digits.reverse ++ mark :: bandwidth.reverse).dropWhile Char.isDigit
      = mark :: bandwidth.reverse := by
    rw [List.dropWhile_append_of_pos hall, List.dropWhile_cons_of_neg (by simp [hstop])]
  unfold withoutChannels
  simp only [hrev, htake, hdrop]
  cases hd : digits.reverse with
  | nil => exact absurd (List.reverse_eq_nil_iff.1 hd) hne
  | cons d ds => simp [hmark]

/-- The label of a bandwidth and a channel count. Whole gigahertz are written in gigahertz, and
every other bandwidth in megahertz. -/
def label {α : Type} [Scalar α] (bandwidth : Frequency α) (channels : UInt32) : String :=
  let hertz := bandwidth.value
  let giga := Scalar.whole 1000000000
  let inGiga := hertz / giga
  let size :=
    if giga ≤ hertz ∧ Scalar.equal (inGiga - Scalar.floor inGiga) Scalar.zero = true then
      Scalar.plain inGiga ++ "GHz"
    else Scalar.plain (hertz / Scalar.whole 1000000) ++ "MHz"
  size ++ "x" ++ Count.text channels

/-- The bandwidth that a label names: the label without its channel count, in upper case. -/
def nominal (label : String) : String :=
  String.ofList (Text.upperCase (withoutChannels label.toList))

/-- The mode that a label names. -/
def mode? (label : String) : Option BandwidthMode :=
  BandwidthMode.all.find? fun mode => mode.name == nominal label

/-- The mode that a label names, which has to be one of the correlator's. -/
def read {α : Type} (label : String) : Except (Refusal α) BandwidthMode :=
  match mode? label with
  | some mode => .ok mode
  | none => .error (.unknownBandwidth label)

end Bandwidth

end Heterodyne
