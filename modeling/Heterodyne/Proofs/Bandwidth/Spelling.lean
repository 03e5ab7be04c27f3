import Heterodyne.Proofs.Bandwidth.Label
/-!
# Spellings of modes

A label names a mode by the mode's name in any case, alone or with a channel count behind a mark.
The count is cut off at the last mark, before the case is changed, and only if digits and nothing
else follow. The names of modes have no mark in them, so a name without a count is left whole.

* `withoutChannels_cases`: what is cut off a label is a channel count behind a mark.
* `mode?_eq_some_iff_spells`: a label names the mode that it spells, and no other.
* `read_outcome`: which labels are read, which are refused, and what is left of a written label.
-/

namespace Heterodyne

namespace Bandwidth

/-- A channel count behind a mark. -/
def IsChannels (s : List Char) : Prop :=
  ∃ mark digits, isMark mark = true ∧ digits ≠ [] ∧ (∀ c ∈ digits, c.isDigit = true) ∧
    s = mark :: digits

/-- The spellings of a mode. -/
inductive Spells (m : BandwidthMode) : List Char → Prop
  /-- The name in any case. -/
  | alone {b : List Char} : Text.upperCase b = m.name.toList → Spells m b
  /-- The name in any case with a channel count behind it. -/
  | counted {b channels : List Char} : Text.upperCase b = m.name.toList → IsChannels channels →
      Spells m (b ++ channels)

section Spellings

variable {b channels : List Char} {m : BandwidthMode}

/-- A channel count is cut off. -/
theorem withoutChannels_append_channels (h : IsChannels channels) :
    withoutChannels (b ++ channels) = b := by
  obtain ⟨mark, digits, hmark, hne, hdigits, rfl⟩ := h
  exact withoutChannels_append hmark hne hdigits

/-- What is cut off a label is a channel count, or there is nothing cut off. -/
theorem withoutChannels_cases (label : List Char) :
    (∃ channels, IsChannels channels ∧ label = withoutChannels label ++ channels) ∨
      withoutChannels label = label := by
  have hsplit : label = (label.reverse.dropWhile Char.isDigit).reverse ++
      (label.reverse.takeWhile Char.isDigit).reverse := by
    rw [← List.reverse_append, List.takeWhile_append_dropWhile, List.reverse_reverse]
  have hdigits : ∀ c ∈ label.reverse.takeWhile Char.isDigit, c.isDigit = true :=
    List.all_eq_true.1 List.all_takeWhile
  unfold withoutChannels
  dsimp only
  split
  next d ds mark bandwidth htake hdrop =>
    rw [htake] at hdigits
    rw [htake, hdrop, List.reverse_cons, List.append_assoc, List.singleton_append] at hsplit
    split
    next hmark =>
      refine .inl ⟨_, ⟨mark, _, hmark, ?_, ?_, rfl⟩, hsplit⟩
      · simp
      · exact fun c hc => hdigits c (List.mem_reverse.1 hc)
    next => exact .inr rfl
  next => exact .inr rfl

/-- A mark stays a mark in upper case. -/
theorem mem_upperCase_of_isMark {c : Char} (hc : c ∈ b) (hmark : isMark c = true) :
    'X' ∈ Text.upperCase b := by
  refine List.mem_flatMap.2 ⟨c, hc, ?_⟩
  rcases Bool.or_eq_true_iff.1 hmark with h | h
  · rw [beq_iff_eq.1 h]
    decide +kernel
  · rw [beq_iff_eq.1 h]
    decide +kernel

/-- A name in any case is left whole, since it has no mark in it. -/
theorem withoutChannels_of_upperCase (h : Text.upperCase b = m.name.toList) :
    withoutChannels b = b := by
  rcases withoutChannels_cases b with
    ⟨channels, ⟨mark, digits, hmark, -, -, hchannels⟩, hb⟩ | hwhole
  · have hmem : mark ∈ b := by
      rw [hb, hchannels]
      simp
    have hname := mem_upperCase_of_isMark hmem hmark
    rw [h] at hname
    exact absurd hname (by cases m <;> decide)
  · exact hwhole

/-- A label names the mode that it spells, and no other. -/
theorem mode?_eq_some_iff_spells {l : String} : mode? l = some m ↔ Spells m l.toList := by
  rw [mode?_eq_some_iff, ← String.toList_inj, nominal, String.toList_ofList]
  generalize l.toList = s
  constructor
  · intro h
    rcases withoutChannels_cases s with ⟨channels, hchannels, hs⟩ | hwhole
    · rw [hs]
      exact .counted h.symm hchannels
    · rw [hwhole] at h
      exact .alone h.symm
  · intro h
    cases h with
    | alone hname => rw [withoutChannels_of_upperCase hname, hname]
    | counted hname hchannels => rw [withoutChannels_append_channels hchannels, hname]

end Spellings

section Reading

variable {α : Type} [Scalar α]

/-- A label is read as a mode exactly if it is the mode's name in any case, alone or with a channel
count behind a mark, and every other label is refused as one that means nothing. The label of a
bandwidth, whatever number it is, consists of the written bandwidth, a mark and the channel count;
the mark and the count are what is cut off, so the mode does not depend on the count. -/
theorem read_outcome (l : String) (m : BandwidthMode) (b : Frequency α) (channels : UInt32) :
    ((read l : Except (Refusal α) BandwidthMode) = .ok m ↔ Spells m l.toList) ∧
      ((read l : Except (Refusal α) BandwidthMode) = .error (.unknownBandwidth l) ↔
        ∀ mode, ¬ Spells mode l.toList) ∧
      (Refusal.unknownBandwidth l : Refusal α).kind = .unrecognized ∧
      label b channels = size b ++ "x" ++ Count.text channels ∧
      withoutChannels (label b channels).toList = (size b).toList ∧
      ∀ others, mode? (label b others) = mode? (label b channels) := by
  refine ⟨read_eq_ok_iff.trans mode?_eq_some_iff_spells, ?_, rfl, label_eq b channels,
    withoutChannels_label b channels, ?_⟩
  · rw [read_eq_error_iff, Option.eq_none_iff_forall_ne_some]
    exact forall_congr' fun mode => not_congr mode?_eq_some_iff_spells
  · intro others
    have hnominal : nominal (label b others) = nominal (label b channels) := by
      rw [← String.toList_inj, nominal_label, nominal_label]
    rw [mode?, mode?, hnominal]

/-- Of two marks the last one is cut off, and a mark needs digits behind it. -/
example : [mode? "1ghzX12", mode? "250MHZ", mode? "1GHzxX3", mode? "1GHzx"] =
    [some .ghz1, some .mhz250, none, none] := by
  decide +kernel

end Reading

end Bandwidth

end Heterodyne
