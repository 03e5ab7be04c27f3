import Heterodyne.Observation.Descriptor
import Heterodyne.Proofs.Outcome
/-!
# Accepted drafts

A draft is accepted if it is complete and all of its parts pass their checks, and then the
descriptor holds what the draft asks for.

* `build_eq_ok_iff`: when a draft is accepted, and which descriptor it becomes.
-/

namespace Heterodyne

namespace Draft

variable {α : Type} [Scalar α]

/-- The Nyquist sampling value is accepted if it is given and lies above zero or is no number. -/
theorem checkedNyquist_eq_ok_iff {d : Draft α} {nyquist : Arcsec α} :
    d.checkedNyquist = .ok nyquist ↔ d.nyquist = some nyquist ∧ ¬ nyquist.notPositive := by
  unfold checkedNyquist
  cases d.nyquist with
  | none => simp
  | some given =>
    simp only [check_then_eq_ok, objectIf_eq_ok_iff, pure, Except.pure, Except.ok.injEq,
      Option.some.injEq]
    constructor
    · rintro ⟨hpositive, rfl⟩
      exact ⟨rfl, hpositive⟩
    · rintro ⟨rfl, hpositive⟩
      exact ⟨hpositive, rfl⟩

/-- A draft is accepted exactly if its movement and its subsystems pass their checks, it has
subsystems, receptors and a Nyquist sampling value, and its repeats are not none. -/
theorem build_eq_ok_iff {d : Draft α} {o : Descriptor α} :
    d.build = .ok o ↔
      d.movement.check = .ok () ∧ d.subsystems ≠ [] ∧ checkSubsystems 1 d.subsystems = .ok () ∧
      d.receptors ≠ [] ∧ d.repeats ≠ some 0 ∧
      ∃ nyquist, d.nyquist = some nyquist ∧ ¬ nyquist.notPositive ∧
        o = ⟨d.movement, d.switching, d.subsystems, d.repeats.getD 1, d.receptors, nyquist⟩ := by
  simp only [build, check_then_eq_ok, objectIf_eq_ok_iff, List.isEmpty_iff]
  simp only [check_bind_eq_ok, checkedNyquist_eq_ok_iff, pure, Except.pure, Except.ok.injEq,
    and_assoc, eq_comm (b := o), ne_eq]

end Draft

end Heterodyne
