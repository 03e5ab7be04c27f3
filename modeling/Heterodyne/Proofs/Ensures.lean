import Heterodyne.Proofs.Outcome
/-!
# What runs ensure

A computation ensures a property if its value has the property whenever there is one, and if no
fault stops it but one of excess: a sum or a product beyond the counts, or a search without end.
So it neither takes more away than there is nor divides by zero. Both parts go through a
computation together, since it is the values before a step that keep the step safe.

* `Count.ensures_bind`, `Run.ensures_bind`: steps in a row.
* `Count.ensures_sub`, `Count.ensures_div`: where differences and quotients are safe.
* `Run.ensures_ofCount`: checked arithmetic in a run.
-/

namespace Heterodyne

/-- A sum or a product beyond the counts, or a search that goes on for ever. -/
def Fault.IsExcess (fault : Fault) : Prop :=
  fault = .addition ∨ fault = .multiplication ∨ fault = .search

/-! ## Arithmetic -/

namespace Count

variable {β γ : Type} {P : β → Prop} {Q : γ → Prop} {a b : UInt32}

/-- The result has the property, and only excess keeps it from being there. -/
def Ensures (count : Except Fault β) (P : β → Prop) : Prop :=
  (∀ x, count = .ok x → P x) ∧ ∀ fault, count = .error fault → fault.IsExcess

/-- A result ensures what it has. -/
theorem ensures_ok {x : β} (h : P x) : Ensures (.ok x) P := by
  constructor
  · intro y hy
    cases hy
    exact h
  · intro fault hf
    cases hf

/-- A fault of excess ensures anything. -/
theorem ensures_error {fault : Fault} (h : fault.IsExcess) :
    Ensures (.error fault : Except Fault β) P := by
  constructor
  · intro x hx
    cases hx
  · intro fault' hf
    cases hf
    exact h

/-- What is ensured may be weakened. -/
theorem Ensures.mono {count : Except Fault β} {P' : β → Prop} (h : Ensures count P)
    (hP : ∀ x, P x → P' x) : Ensures count P' :=
  ⟨fun x hx => hP x (h.1 x hx), h.2⟩

/-- The second of two steps ensures something if it does so behind what the first one ensures. -/
theorem ensures_bind {count : Except Fault β} {next : β → Except Fault γ} (h : Ensures count P)
    (hnext : ∀ x, P x → Ensures (next x) Q) : Ensures (count >>= next) Q := by
  cases count with
  | error fault => exact ensures_error (h.2 fault rfl)
  | ok x => exact hnext x (h.1 x rfl)

/-- A computation that does not fail ensures what its result has. -/
theorem ensures_of_not_fails {count : Except Fault β} (h : ¬ Fails count)
    (hP : ∀ x, count = .ok x → P x) : Ensures count P := by
  refine ⟨hP, ?_⟩
  intro fault hf
  exact absurd ⟨fault, hf⟩ h

/-- A number becomes a count, unless it exceeds the counts. -/
theorem ensures_ofNat {fault : Fault} (h : fault.IsExcess) (n : Nat) :
    Ensures (ofNat fault n) fun c => c.toNat = n := by
  cases hcount : ofNat fault n with
  | ok c => exact ensures_ok (ofNat_eq_ok_iff.1 hcount).symm
  | error fault' =>
    unfold ofNat at hcount
    split at hcount
    · cases hcount
    · cases hcount
      exact ensures_error h

/-- A sum is the sum of the numbers, unless it is too large. -/
theorem ensures_add (a b : UInt32) : Ensures (add a b) fun c => c.toNat = a.toNat + b.toNat :=
  ensures_ofNat (.inl rfl) _

/-- A product is the product of the numbers, unless it is too large. -/
theorem ensures_mul (a b : UInt32) : Ensures (mul a b) fun c => c.toNat = a.toNat * b.toNat :=
  ensures_ofNat (.inr (.inl rfl)) _

/-- A difference is safe where there is enough to take away from. -/
theorem ensures_sub (h : b.toNat ≤ a.toNat) :
    Ensures (sub a b) fun c => c.toNat = a.toNat - b.toNat := by
  refine ensures_of_not_fails ?_ ?_
  · rw [fails_sub]
    omega
  · intro c hc
    rw [sub_eq_ok_iff] at hc
    omega

/-- A quotient is safe for a divisor that is not zero. -/
theorem ensures_div (h : 1 ≤ b.toNat) : Ensures (div a b) fun c => c.toNat = a.toNat / b.toNat := by
  refine ensures_of_not_fails ?_ fun c hc => toNat_div hc
  rw [fails_div]
  rintro rfl
  exact absurd h (by decide)

/-- A quotient that is rounded up is safe for a divisor that is not zero. -/
theorem ensures_ceilDiv (h : 1 ≤ b.toNat) :
    Ensures (ceilDiv a b) fun c => c.toNat = (a.toNat + b.toNat - 1) / b.toNat := by
  refine ensures_of_not_fails ?_ fun c hc => toNat_ceilDiv hc
  rw [fails_ceilDiv]
  rintro rfl
  exact absurd h (by decide)

/-- One more than a count is at least one. -/
theorem ensures_add_one (a : UInt32) : Ensures (add a 1) fun c => 1 ≤ c.toNat := by
  refine (ensures_add a 1).mono ?_
  intro c hc
  rw [hc, UInt32.toNat_one]
  omega

end Count

/-! ## Runs -/

namespace Run

variable {α β γ : Type} {d : Bool} {P : β → Prop} {Q : γ → Prop}

/-- The value has the property, and the run breaks off for excess only. -/
def Ensures (run : Run α β) (d : Bool) (P : β → Prop) : Prop :=
  (∀ b, run.Yields d b → P b) ∧ ∀ fault, run.Faults d fault → fault.IsExcess

/-- The second of two runs ensures something if it does so behind what the first one ensures. -/
theorem ensures_bind {run : Run α β} {next : β → Run α γ} (h : run.Ensures d P)
    (hnext : ∀ b, P b → (next b).Ensures d Q) : (run >>= next).Ensures d Q := by
  constructor
  · intro c hc
    obtain ⟨b, hb, hc⟩ := yields_bind.1 hc
    exact (hnext b (h.1 b hb)).1 c hc
  · intro fault hf
    rcases faults_bind.1 hf with hf | ⟨b, hb, hf⟩
    · exact h.2 fault hf
    · exact (hnext b (h.1 b hb)).2 fault hf

/-- A run that does not break off ensures what its value has. -/
theorem ensures_of_not_breaksOff {run : Run α β} (h : ¬ run.BreaksOff d)
    (hP : ∀ b, run.Yields d b → P b) : run.Ensures d P := by
  refine ⟨hP, ?_⟩
  intro fault hf
  exact absurd ⟨fault, hf⟩ h

/-- A pure run ensures what its value has. -/
theorem ensures_pure {b : β} (h : P b) : (pure b : Run α β).Ensures d P := by
  refine ensures_of_not_breaksOff not_breaksOff_pure ?_
  intro c hc
  rwa [← yields_pure.1 hc]

/-- A refusal ensures anything. -/
theorem ensures_refuse {cause : Refusal α} : (refuse cause : Run α β).Ensures d P :=
  ensures_of_not_breaksOff not_breaksOff_refuse fun _ hb => absurd hb not_yields_refuse

/-- A check ensures what its value has. -/
theorem ensures_ofCheck (check : Except (Refusal α) β) :
    (ofCheck check).Ensures d fun b => check = .ok b :=
  ensures_of_not_breaksOff not_breaksOff_ofCheck fun _ hb => yields_ofCheck.1 hb

/-- Arithmetic in a run ensures what it ensures on its own. -/
theorem ensures_ofCount {count : Except Fault β} (h : Count.Ensures count P) :
    (ofCount count : Run α β).Ensures d P :=
  ⟨fun b hb => h.1 b (yields_ofCount.1 hb), fun fault hf => h.2 fault (faults_ofCount.1 hf)⟩

/-- Behind events a run ensures what it ensures on its own. -/
theorem ensures_tellAll_bind {events : List (Event α)} {next : Unit → Run α γ}
    (h : (next ()).Ensures d Q) : (tellAll events >>= next).Ensures d Q := by
  have htold : (tellAll events).Ensures d fun _ => True :=
    ensures_of_not_breaksOff not_breaksOff_tellAll fun _ _ => trivial
  exact ensures_bind htold fun _ _ => h

/-- Behind an event a run ensures what it ensures on its own. -/
theorem ensures_tell_bind {event : Event α} {next : Unit → Run α γ}
    (h : (next ()).Ensures d Q) : (tell event >>= next).Ensures d Q :=
  ensures_tellAll_bind h

end Run

end Heterodyne
