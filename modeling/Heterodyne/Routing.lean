import Heterodyne.Bandwidth.Label
import Heterodyne.Run
import Heterodyne.Spectrum.Plan
/-!
# Routing

The windows of every enabled receptor take the receptor's slots in order. A slot claims its
correlator module, its quadrant, its down-converter and its synthesizer for a state, and no
piece of hardware can be claimed for two states.

* `claim_eq_ok_iff`: a claim succeeds exactly if no other state is recorded, and records its own.
-/

namespace Heterodyne

/-- One window of one receptor on one slot. -/
structure Assignment where
  receptor : Receptor
  window : WindowId
  slot : Slot
  /-- The bandwidth label of the window. -/
  label : String
deriving DecidableEq

/-- The states that the hardware is claimed for. -/
structure Claims where
  /-- The label that a correlator module runs. -/
  moduleModes : Table UInt32 String := .empty
  /-- The label that a quadrant runs. -/
  quadrantModes : Table UInt32 String := .empty
  /-- The bandwidth that a down-converter is set to. -/
  converterBandwidths : Table UInt32 String := .empty
  /-- The window that a synthesizer is tuned for. -/
  synthWindows : Table UInt32 WindowId := .empty

/-- The routed windows of an observation. -/
structure Routing (α : Type) where
  /-- The assignments in the order of receptors and windows. -/
  assignments : List Assignment
  /-- The claims, with the standby modes of the quadrants that no window uses. -/
  claims : Claims
  /-- The frequency of every synthesizer in use. -/
  lo2 : Table UInt32 (Frequency α)

/-- Records a state for a piece of hardware, or gives the other state that it is claimed for. -/
def claim {κ β : Type} [Ranked κ] [DecidableEq β] (t : Table κ β) (k : κ) (v : β) :
    Except β (Table κ β) :=
  match t.get? k with
  | none => .ok (t.insert k v)
  | some v' => if v' = v then .ok t else .error v'

/-- A claim is granted exactly if nothing else is recorded under the key, and then it is
recorded. -/
theorem claim_eq_ok_iff {κ β : Type} [Ranked κ] [DecidableEq β] {t t' : Table κ β} {k : κ}
    {v : β} :
    claim t k v = .ok t' ↔ (∀ v', t.get? k = some v' → v' = v) ∧ t' = t.insert k v := by
  unfold claim
  split
  · rename_i h
    simp [h, eq_comm]
  · rename_i v' h
    split
    · rename_i hv
      subst hv
      have hins : t.insert k v' = t := Table.ext fun j => by
        rw [Table.get?_insert]
        split
        · rename_i hj
          rw [Ranked.rank_injective hj, h]
        · rfl
      simp [h, hins, eq_comm]
    · rename_i hv
      simp [h, hv]

namespace Claims

variable {α : Type}

/-- A claim that is refused for the cause that `conflict` makes of the other state. -/
def record {κ β : Type} [Ranked κ] [DecidableEq β] (t : Table κ β) (k : κ) (v : β)
    (conflict : β → Refusal α) : Except (Refusal α) (Table κ β) :=
  match claim t k v with
  | .ok t' => .ok t'
  | .error v' => .error (conflict v')

/-- Records the claims of an assignment: module, quadrant, down-converter, synthesizer. -/
def add (c : Claims) (a : Assignment) : Except (Refusal α) Claims := do
  let bandwidth := Bandwidth.nominal a.label
  let moduleModes ← record c.moduleModes a.slot.module a.label
    fun running => .moduleTaken a.slot.module running a.label a.window a.receptor
  let quadrantModes ← record c.quadrantModes a.slot.quadrant a.label
    fun running => .quadrantTaken a.slot.quadrant running a.label a.window a.receptor
  let converterBandwidths ← record c.converterBandwidths a.slot.converter bandwidth
    fun running => .converterTaken a.slot.converter running bandwidth a.window a.receptor
  let synthWindows ← record c.synthWindows a.slot.synth a.window
    fun holder => .synthTaken a.slot.synth holder a.window a.receptor
  return { moduleModes, quadrantModes, converterBandwidths, synthWindows }

/-- Records the standby mode of every quadrant that is not claimed, the first slot deciding. -/
def addStandby (c : Claims) (slots : List Slot) : Claims :=
  { c with
    quadrantModes := slots.foldl (fun t s => t.insertNew s.quadrant s.standby) c.quadrantModes }

end Claims

namespace Routing

variable {α : Type}

/-- The windows of a plan with their labels, in ascending order of their names. -/
def windows (plan : Plan α) : List (WindowId × String) :=
  (plan.subbands.map fun w => (w.2.id, w.1.label)).mergeSort
    fun a b => Ranked.rank a.1 ≤ Ranked.rank b.1

/-- The assignments of a receptor: its slots taken in order. -/
def demands (windows : List (WindowId × String)) (receptor : Receptor) (slots : List Slot) :
    List Assignment :=
  List.zipWith (fun w slot => ⟨receptor, w.1, slot, w.2⟩) windows slots

/-- The slots of a receptor, if it is wired and has one for every window. -/
def slotsFor (wiring : Wiring) (windows : Nat) (receptor : Receptor) :
    Except (Refusal α) (List Slot) :=
  match wiring.slots? receptor with
  | none => .error (.unknownReceptor receptor)
  | some slots =>
    if slots.length < windows then .error (.tooFewSlots receptor windows slots.length)
    else .ok slots

/-- The event of an assignment. -/
def routed (a : Assignment) : Event α := .windowRouted a.window a.receptor a.slot

/-- Records assignments one after another, behind those that are recorded. -/
def assignAll : List Assignment → Claims → Run α Claims
  | [], claims => pure claims
  | a :: rest, claims => do
    let claims ← Run.ofCheck (claims.add a)
    Run.tell (routed a)
    assignAll rest claims

/-- Routes receptors one after another. -/
def routeReceptors (wiring : Wiring) (windows : List (WindowId × String)) :
    List Receptor → Claims → Run α (List Assignment × Claims)
  | [], claims => pure ([], claims)
  | receptor :: rest, claims => do
    let slots ← Run.ofCheck (slotsFor wiring windows.length receptor)
    let demanded := demands windows receptor slots
    let claims ← assignAll demanded claims
    let (others, claims) ← routeReceptors wiring windows rest claims
    return (demanded ++ others, claims)

/-- The frequency of every synthesizer, which is that of the window it is tuned for. -/
def tuneSynths (lo2ByWindow : Table WindowId (Frequency α)) :
    List (UInt32 × WindowId) → Except (Refusal α) (List (UInt32 × Frequency α))
  | [] => .ok []
  | (synth, window) :: rest =>
    match lo2ByWindow.get? window with
    | none => .error (.untunedSynth window synth)
    | some lo2 => do
      let others ← tuneSynths lo2ByWindow rest
      return (synth, lo2) :: others

/-- Routes the windows of a plan for the enabled receptors. -/
def ofPlan (plan : Plan α) (wiring : Wiring) (receptors : List Receptor) :
    Run α (Routing α) := do
  let (assignments, claims) ← routeReceptors wiring (windows plan) receptors {}
  let claims := claims.addStandby (wiring.allSlots.map Prod.snd)
  let lo2 ← Run.ofCheck (tuneSynths plan.lo2ByWindow claims.synthWindows.entries)
  return { assignments, claims, lo2 := .ofList lo2 }

/-- The assignments of one receptor. -/
def forReceptor (r : Routing α) (receptor : Receptor) : List Assignment :=
  r.assignments.filter fun a => a.receptor == receptor

end Routing

end Heterodyne
