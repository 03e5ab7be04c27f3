/-!
# Correlator wiring

Which hardware the windows of a receptor can be routed through. Every receptor has an ordered
list of slots, and the receptors keep the order in which they were first wired.

* `slots?_insert`: wiring a receptor replaces its slots and no others.
* `receptors_insert`: it keeps the place of a receptor that is already there.
-/

namespace Heterodyne

/-- The name of a receptor. -/
abbrev Receptor := String

/-- One hardware path from a receptor to the correlator. -/
structure Slot where
  /-- The correlator module. -/
  module : UInt32
  /-- The down-converter. -/
  converter : UInt32
  /-- The correlator quadrant that the module belongs to. -/
  quadrant : UInt32
  /-- The mode of the quadrant while no window is routed through it. -/
  standby : String
  /-- The synthesizer of the second local oscillator. -/
  synth : UInt32
deriving DecidableEq

/-- The slots of every receptor, in the order of the receptors' first wiring. -/
structure Wiring where
  entries : List (Receptor × List Slot)
  nodup : (entries.map Prod.fst).Nodup

namespace Wiring

/-- Replaces the slots of a receptor in its place, or appends the receptor. -/
def putEntry (r : Receptor) (slots : List Slot) :
    List (Receptor × List Slot) → List (Receptor × List Slot)
  | [] => [(r, slots)]
  | (r', slots') :: rest =>
    if r' = r then (r, slots) :: rest else (r', slots') :: putEntry r slots rest

/-- A new receptor goes to the end, and a known one stays in its place. -/
theorem map_fst_putEntry (r : Receptor) (slots : List Slot) (es : List (Receptor × List Slot)) :
    (putEntry r slots es).map Prod.fst =
      if r ∈ es.map Prod.fst then es.map Prod.fst else es.map Prod.fst ++ [r] := by
  induction es with
  | nil => simp [putEntry]
  | cons e es ih =>
    simp only [putEntry]
    by_cases h : e.1 = r
    · simp [h]
    · simp only [h, if_false, List.map_cons, ih, List.mem_cons, Ne.symm h, false_or]
      split <;> simp

/-- The wiring without receptors. -/
def empty : Wiring := ⟨[], .nil⟩

/-- Wires a receptor. -/
def insert (w : Wiring) (r : Receptor) (slots : List Slot) : Wiring where
  entries := putEntry r slots w.entries
  nodup := by
    rw [map_fst_putEntry]
    split
    · exact w.nodup
    · rename_i h
      refine List.nodup_append.2 ⟨w.nodup, by simp, fun a ha b hb => ?_⟩
      rw [List.mem_singleton.1 hb]
      exact fun hab => h (hab ▸ ha)

/-- Wires receptors one after another. -/
def ofList (entries : List (Receptor × List Slot)) : Wiring :=
  entries.foldl (fun w e => w.insert e.1 e.2) empty

/-- The slots of a receptor. -/
def slots? (w : Wiring) (r : Receptor) : Option (List Slot) := w.entries.lookup r

/-- The receptors in wiring order. -/
def receptors (w : Wiring) : List Receptor := w.entries.map Prod.fst

/-- All slots in wiring order. -/
def allSlots (w : Wiring) : List (Receptor × Slot) :=
  w.entries.flatMap fun e => e.2.map fun slot => (e.1, slot)

/-- A new receptor goes to the end, and a known one stays in its place. -/
theorem receptors_insert (w : Wiring) (r : Receptor) (slots : List Slot) :
    (w.insert r slots).receptors =
      if r ∈ w.receptors then w.receptors else w.receptors ++ [r] :=
  map_fst_putEntry r slots w.entries

/-- The slots that are put are found, and those of the others as before. -/
theorem lookup_putEntry (r q : Receptor) (slots : List Slot) (es : List (Receptor × List Slot)) :
    (putEntry r slots es).lookup q = if q = r then some slots else es.lookup q := by
  induction es with
  | nil =>
    by_cases hq : q = r
    · simp [putEntry, hq]
    · simp [putEntry, List.lookup_cons, beq_false_of_ne hq, hq]
  | cons e es ih =>
    obtain ⟨r', slots'⟩ := e
    simp only [putEntry]
    by_cases h : r' = r
    · subst h
      by_cases hq : q = r'
      · simp [hq]
      · simp [List.lookup_cons, beq_false_of_ne hq, hq]
    · rw [if_neg h, List.lookup_cons, List.lookup_cons, ih]
      by_cases hq : q = r'
      · simp [hq, h]
      · simp [beq_false_of_ne hq]

/-- A receptor has the slots that were inserted last. -/
theorem slots?_insert (w : Wiring) (r q : Receptor) (slots : List Slot) :
    (w.insert r slots).slots? q = if q = r then some slots else w.slots? q :=
  lookup_putEntry r q slots w.entries

end Wiring

end Heterodyne
