import Heterodyne.Instrument
import Heterodyne.Proofs.Outcome
import Mathlib.Data.List.Basic
/-!
# Repaired settings

Settings are repaired one after another. A repair makes its own setting usable and writes no
other one, so all of them are usable in the end, whatever values they had.

* `usable_sanitize`: repaired settings are usable.
* `get_repairAll`, `changes_repairAll`: what repairs in a row write and report.
* `sanitize_outcome`: the repair of any settings.
* `yields_commission_iff`: an instrument has the repaired settings, and is never refused them.
-/

namespace Heterodyne

variable {α : Type} [Scalar α]

/-- Every setting has one turn. -/
theorem Setting.nodup_all : Setting.all.Nodup := by decide

/-- Every setting has its turn. -/
theorem Setting.mem_all (f : Setting) : f ∈ Setting.all := by
  cases f <;> decide

namespace Settings

/-! ## One repair -/

/-- The value that a setting is left with. -/
def kept (f : Setting) (x : α) : α := (repair? f x).getD x

/-- What the repair of a setting reports, if it has to be replaced. -/
def change? (f : Setting) (x : α) : Option (Change α) := (repair? f x).map (⟨f, x, ·⟩)

/-- A repair leaves the other settings as they are. -/
theorem get_repair_of_ne (s : Settings α) {f g : Setting} (h : g ≠ f) :
    (repair f s).1.get g = s.get g := by
  unfold repair
  split
  · rfl
  · exact get_set_of_ne s _ h

/-- A repair writes its own setting. -/
theorem get_repair_self (s : Settings α) (f : Setting) :
    (repair f s).1.get f = kept f (s.get f) := by
  unfold repair kept
  cases repair? f (s.get f) with
  | none => rfl
  | some x => exact get_set s x f

/-- A repair reports its own setting, if it is replaced. -/
theorem changes_repair (s : Settings α) (f : Setting) :
    (repair f s).2 = (change? f (s.get f)).toList := by
  unfold repair change?
  cases repair? f (s.get f) <;> rfl

/-- A repair leaves the step time as it is. -/
theorem stepTime_repair (s : Settings α) (f : Setting) : (repair f s).1.stepTime = s.stepTime := by
  unfold repair
  cases repair? f (s.get f) with
  | none => rfl
  | some x => exact stepTime_set s x f

/-- The values that take the place of others are usable themselves. -/
def RepairsUsable (α : Type) [Scalar α] : Prop :=
  ∀ (f : Setting) (x y : α), repair? f x = some y → usable f y

/-- A setting is left with a usable value. -/
theorem usable_kept (hrepairs : RepairsUsable α) (f : Setting) (x : α) : usable f (kept f x) := by
  unfold kept
  cases hx : repair? f x with
  | none => exact repair?_eq_none_iff.1 hx
  | some y => exact hrepairs f x y hx

/-! ## Repairs in a row -/

/-- Repairs settings in order, behind those that are repaired. -/
def repairAll (fs : List Setting) (done : Settings α × List (Change α)) :
    Settings α × List (Change α) :=
  fs.foldl (fun done f =>
    let next := repair f done.1
    (next.1, done.2 ++ next.2)) done

/-- Repairs in a row leave the step time as it is. -/
theorem stepTime_repairAll (fs : List Setting) (done : Settings α × List (Change α)) :
    (repairAll fs done).1.stepTime = done.1.stepTime := by
  induction fs generalizing done with
  | nil => rfl
  | cons f fs ih => exact (ih _).trans (stepTime_repair done.1 f)

/-- Repairs of different settings in a row repair each of them once, and write no others. -/
theorem get_repairAll {fs : List Setting} (hfs : fs.Nodup) (done : Settings α × List (Change α))
    (g : Setting) :
    (repairAll fs done).1.get g = if g ∈ fs then kept g (done.1.get g) else done.1.get g := by
  induction fs generalizing done with
  | nil => rfl
  | cons f fs ih =>
    obtain ⟨hf, hfs⟩ := List.nodup_cons.1 hfs
    refine (ih hfs _).trans ?_
    dsimp only
    by_cases hg : g = f
    · subst hg
      rw [if_neg hf, if_pos List.mem_cons_self, get_repair_self]
    · simp only [get_repair_of_ne done.1 hg, List.mem_cons, hg, false_or]

/-- Repairs of different settings in a row report the replaced ones in order. -/
theorem changes_repairAll {fs : List Setting} (hfs : fs.Nodup)
    (done : Settings α × List (Change α)) :
    (repairAll fs done).2 = done.2 ++ fs.filterMap fun f => change? f (done.1.get f) := by
  induction fs generalizing done with
  | nil => exact (List.append_nil _).symm
  | cons f fs ih =>
    obtain ⟨hf, hfs⟩ := List.nodup_cons.1 hfs
    -- the repair of the first setting is not seen by the others
    have hothers : (fs.filterMap fun g => change? g ((repair f done.1).1.get g)) =
        fs.filterMap fun g => change? g (done.1.get g) := by
      refine List.filterMap_congr fun g hg => ?_
      rw [get_repair_of_ne done.1 (ne_of_mem_of_not_mem hg hf)]
    refine (ih hfs _).trans ?_
    dsimp only
    rw [hothers, changes_repair, List.append_assoc]
    cases hchange : change? f (done.1.get f) <;> simp [hchange]

/-! ## Reports -/

/-- A setting is replaced exactly if it is not usable. -/
theorem map_setting_change? (f : Setting) (x : α) :
    (change? f x).map (·.setting) = if usable f x then none else some f := by
  unfold change? repair?
  split
  · rfl
  · split <;> rfl

/-- The settings that are reported are those that are not usable. -/
theorem map_setting_filterMap (s : Settings α) (fs : List Setting) :
    (fs.filterMap fun f => change? f (s.get f)).map (·.setting) =
      fs.filter fun f => ¬ usable f (s.get f) := by
  rw [List.map_filterMap, ← List.filterMap_eq_filter]
  refine List.filterMap_congr fun f _ => ?_
  rw [map_setting_change?]
  by_cases hf : usable f (s.get f) <;> simp [Option.guard, hf]

omit [Scalar α] in
/-- Settings that agree in the step time and in all that are repaired are the same. -/
theorem ext_get {s t : Settings α} (hstep : s.stepTime = t.stepTime)
    (h : ∀ f, s.get f = t.get f) : s = t := by
  rcases s with ⟨step, ⟨cal⟩, ⟨nod⟩, ⟨lo2⟩, ⟨rounding⟩, tolerance⟩
  rcases t with ⟨step', ⟨cal'⟩, ⟨nod'⟩, ⟨lo2'⟩, ⟨rounding'⟩, tolerance'⟩
  obtain rfl : step = step' := hstep
  obtain rfl : cal = cal' := h .calTime
  obtain rfl : nod = nod' := h .maxNodTime
  obtain rfl : lo2 = lo2' := h .lo2Step
  obtain rfl : rounding = rounding' := h .bandwidthRounding
  obtain rfl : tolerance = tolerance' := h .gridTolerance
  rfl

/-- A usable setting is left as it is. -/
theorem kept_eq_self {f : Setting} {x : α} (h : usable f x) : kept f x = x := by
  rw [kept, repair?_eq_none_iff.2 h, Option.getD_none]

/-- A usable setting is not reported. -/
theorem change?_eq_none {f : Setting} {x : α} (h : usable f x) : change? f x = none := by
  rw [change?, repair?_eq_none_iff.2 h, Option.map_none]

/-- Each setting is left with what its own value is repaired to. -/
theorem get_sanitize (s : Settings α) (f : Setting) :
    s.sanitize.1.get f = kept f (s.get f) :=
  (get_repairAll Setting.nodup_all (s, []) f).trans (if_pos (Setting.mem_all f))

/-- Repaired settings are usable. -/
theorem usable_sanitize (hrepairs : RepairsUsable α) (s : Settings α) (f : Setting) :
    usable f (s.sanitize.1.get f) := by
  rw [get_sanitize]
  exact usable_kept hrepairs f (s.get f)

/-- The step time is used as it is given. -/
theorem stepTime_sanitize (s : Settings α) : s.sanitize.1.stepTime = s.stepTime :=
  stepTime_repairAll Setting.all (s, [])

/-- The changes are the repairs of the settings in their order. -/
theorem changes_sanitize (s : Settings α) :
    s.sanitize.2 = Setting.all.filterMap fun f => change? f (s.get f) :=
  (changes_repairAll Setting.nodup_all (s, [])).trans (List.nil_append _)

/-- A change tells the value that is replaced and the one that is kept. -/
theorem of_mem_changes {s : Settings α} {c : Change α} (h : c ∈ s.sanitize.2) :
    c.replaced = s.get c.setting ∧ c.kept = s.sanitize.1.get c.setting ∧
      repair? c.setting c.replaced = some c.kept := by
  rw [changes_sanitize] at h
  obtain ⟨f, -, hf⟩ := List.mem_filterMap.1 h
  obtain ⟨x, hx, rfl⟩ := Option.map_eq_some_iff.1 hf
  refine ⟨rfl, ?_, hx⟩
  show x = s.sanitize.1.get f
  rw [get_sanitize, kept, hx, Option.getD_some]

/-- Usable settings are left as they are, and no change is reported. -/
theorem sanitize_eq_self {s : Settings α} (h : ∀ f, usable f (s.get f)) :
    s.sanitize = (s, []) := by
  apply Prod.ext
  · refine ext_get (stepTime_sanitize s) fun f => ?_
    rw [get_sanitize, kept_eq_self (h f)]
  · rw [changes_sanitize]
    exact List.filterMap_eq_nil_iff.2 fun f _ => change?_eq_none (h f)

/-- The settings that are repaired lie in their ranges. -/
structure InRange (s : Settings α) : Prop where
  calTime : Scalar.zero < s.calTime.value
  maxNodTime : Scalar.zero < s.maxNodTime.value
  lo2Step : Scalar.zero < s.lo2Step.value
  bandwidthRounding : Scalar.zero < s.bandwidthRounding.value
  gridTolerance : Scalar.zero < s.gridTolerance
  gridTolerance_le : s.gridTolerance ≤ Scalar.decimal 5 1

/-- Settings lie in their ranges exactly if each of them is usable. -/
theorem inRange_iff {s : Settings α} : s.InRange ↔ ∀ f, usable f (s.get f) := by
  constructor
  · rintro ⟨hcal, hnod, hlo2, hrounding, htolerance, hle⟩ f
    cases f with
    | calTime => exact hcal
    | maxNodTime => exact hnod
    | lo2Step => exact hlo2
    | bandwidthRounding => exact hrounding
    | gridTolerance => exact ⟨htolerance, hle⟩
  · intro h
    exact ⟨h .calTime, h .maxNodTime, h .lo2Step, h .bandwidthRounding, (h .gridTolerance).1,
      (h .gridTolerance).2⟩

/-! ## Binary64 numbers -/

/-- The standard settings of binary64 numbers are usable, and so is the largest tolerance. -/
theorem repairsUsable_binary64 : RepairsUsable Binary64 := by
  have hmax : usable .gridTolerance (maxGridTolerance : Binary64) := by decide +kernel
  have hstandard : ∀ f, usable f ((standard : Settings Binary64).get f) := by
    intro f
    cases f <;> decide +kernel
  intro f x y h
  unfold repair? at h
  split at h
  · cases h
  · -- a tolerance that is too large is cut down, and all else becomes standard
    split at h
    · rename_i hlarge
      rw [← Option.some.inj h, hlarge.1]
      exact hmax
    · rw [← Option.some.inj h]
      exact hstandard f

/-- Whatever numbers settings hold, among them what is no number, infinities and both zeros, they
are repaired into their ranges. The step time is used as it is given. The changes name the settings
outside their ranges once each and in order, with the value that each of them had and the one that
is stored; all others are left as they are. What is repaired needs no further repair. -/
theorem sanitize_outcome (s : Settings Binary64) :
    s.sanitize.1.InRange ∧ s.sanitize.1.stepTime = s.stepTime ∧
      s.sanitize.2.map (·.setting) = Setting.all.filter (fun f => ¬ usable f (s.get f)) ∧
      (∀ c ∈ s.sanitize.2, c.replaced = s.get c.setting ∧
        c.kept = s.sanitize.1.get c.setting ∧ repair? c.setting c.replaced = some c.kept) ∧
      (∀ f, usable f (s.get f) → s.sanitize.1.get f = s.get f) ∧
      s.sanitize.1.sanitize = (s.sanitize.1, []) := by
  have husable := usable_sanitize repairsUsable_binary64 s
  refine ⟨inRange_iff.2 husable, stepTime_sanitize s, ?_, fun c hc => of_mem_changes hc, ?_,
    sanitize_eq_self husable⟩
  · rw [changes_sanitize, map_setting_filterMap]
  · intro f hf
    rw [get_sanitize, kept_eq_self hf]

/-- A time below zero, a step of zero and a tolerance that is too large are replaced, and a step
time that is no number is not. -/
example : (sanitize ({ standard with
      stepTime := ⟨Binary64.indefinite⟩, calTime := ⟨-Binary64.ofNat 1⟩,
      lo2Step := ⟨Binary64.ofNat 0⟩, gridTolerance := Binary64.ofDecimal 9 1 } :
        Settings Binary64)).2.map (·.setting.name) =
    ["cal_time", "lo2_step", "grid_tolerance_factor"] := by
  decide +kernel

end Settings

/-! ## Instruments -/

/-- An instrument has its wiring and the repaired settings. -/
theorem yields_commission_iff {settings : Settings α} {wiring : Wiring} {d : Bool}
    {i : Instrument α} :
    (Instrument.commission settings wiring).Yields d i ↔ ⟨settings.sanitize.1, wiring⟩ = i := by
  unfold Instrument.commission
  simp only [Run.yields_bind, Run.yields_tellAll, Run.yields_pure, true_and, exists_const]

/-- Settings that need no repair are those of the instrument. -/
theorem yields_commission_of_sanitize_eq {settings : Settings α} {wiring : Wiring} {d : Bool}
    (h : settings.sanitize.1 = settings) :
    (Instrument.commission settings wiring).Yields d ⟨settings, wiring⟩ := by
  rw [yields_commission_iff, h]

end Heterodyne
