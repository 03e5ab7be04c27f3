import Heterodyne.Wiring.Basic
import Mathlib.Data.List.Induction
import Mathlib.Data.List.Nodup
/-!
# Wirings from lists

What a wiring holds whose receptors are wired one after another. Names may be repeated, and then
the first occurrence decides on the place of the receptor and the last one on its slots.

* `receptors_ofList`: every name occurs once, in the place of its first occurrence.
* `slots?_ofList`: every name has the slots of its last occurrence.
* `ofList_entries`: a wiring is the one from its own entries.
-/

namespace Heterodyne

namespace Wiring

variable {es : List (Receptor × List Slot)} {r : Receptor} {slots : List Slot}

/-- Wiring one receptor more. -/
theorem ofList_concat (es : List (Receptor × List Slot)) (e : Receptor × List Slot) :
    ofList (es ++ [e]) = (ofList es).insert e.1 e.2 := by
  unfold ofList
  exact List.foldl_concat _ _ _ _

/-! ## Names and slots -/

/-- The receptors of a list are its names without the repeated ones. -/
theorem receptors_ofList (es : List (Receptor × List Slot)) :
    (ofList es).receptors = (es.map Prod.fst).eraseDups := by
  induction es using List.reverseRecOn with
  | nil => rfl
  | append_singleton es e ih =>
    rw [ofList_concat, receptors_insert, ih, List.map_append, List.eraseDups_append]
    by_cases h : e.1 ∈ es.map Prod.fst
    · have hgone : ([e].map Prod.fst).removeAll (es.map Prod.fst) = [] := by
        simp [List.removeAll, h]
      rw [if_pos (List.mem_eraseDups.2 h), hgone, List.eraseDups_nil, List.append_nil]
    · have hkept : ([e].map Prod.fst).removeAll (es.map Prod.fst) = [e.1] := by
        rw [List.map_singleton, List.removeAll, List.filter_singleton]
        simp [h]
      rw [if_neg fun hmem => h (List.mem_eraseDups.1 hmem), hkept]
      rfl

/-- A receptor of a list has the slots that it is listed with last. -/
theorem slots?_ofList (es : List (Receptor × List Slot)) (r : Receptor) :
    (ofList es).slots? r = es.reverse.lookup r := by
  induction es using List.reverseRecOn with
  | nil => rfl
  | append_singleton es e ih =>
    rw [ofList_concat, slots?_insert, ih, List.reverse_concat, List.lookup_cons]
    by_cases h : r = e.1
    · rw [if_pos h, beq_iff_eq.2 h]
    · rw [if_neg h, beq_false_of_ne h]

/-! ## Names that are listed once -/

/-- What is listed under a name that occurs once is found under it. -/
theorem lookup_of_mem (hnodup : (es.map Prod.fst).Nodup) (h : (r, slots) ∈ es) :
    es.lookup r = some slots := by
  induction es with
  | nil => cases h
  | cons e es ih =>
    rw [List.map_cons, List.nodup_cons] at hnodup
    rw [List.lookup_cons]
    rcases List.mem_cons.1 h with rfl | h
    · rw [BEq.rfl]
    · have hne : r ≠ e.1 := by
        rintro rfl
        exact hnodup.1 (List.mem_map.2 ⟨_, h, rfl⟩)
      rw [beq_false_of_ne hne]
      exact ih hnodup.2 h

/-- Of names that are listed once, each has its slots. -/
theorem slots?_ofList_of_mem (hnodup : (es.map Prod.fst).Nodup) (h : (r, slots) ∈ es) :
    (ofList es).slots? r = some slots := by
  rw [slots?_ofList]
  apply lookup_of_mem
  · rw [List.map_reverse]
    exact List.nodup_reverse.2 hnodup
  · exact List.mem_reverse.2 h

/-- A receptor has the slots that it is entered with. -/
theorem slots?_of_mem {w : Wiring} (h : (r, slots) ∈ w.entries) : w.slots? r = some slots :=
  lookup_of_mem w.nodup h

/-- A name that is new goes to the end. -/
theorem putEntry_of_notMem (h : r ∉ es.map Prod.fst) :
    putEntry r slots es = es ++ [(r, slots)] := by
  induction es with
  | nil => rfl
  | cons e es ih =>
    rw [List.map_cons, List.mem_cons, not_or] at h
    obtain ⟨r', slots'⟩ := e
    rw [putEntry, if_neg (Ne.symm h.1), ih h.2]
    rfl

/-- Names that are listed once are entered as they are listed. -/
theorem entries_ofList (hnodup : (es.map Prod.fst).Nodup) : (ofList es).entries = es := by
  induction es using List.reverseRecOn with
  | nil => rfl
  | append_singleton es e ih =>
    rw [List.map_append, List.nodup_append] at hnodup
    have hnew : e.1 ∉ es.map Prod.fst := by
      intro hmem
      exact hnodup.2.2 e.1 hmem e.1 (by simp) rfl
    rw [ofList_concat]
    show putEntry e.1 e.2 (ofList es).entries = es ++ [e]
    rw [ih hnodup.1, putEntry_of_notMem hnew]

/-- Wiring the entries of a wiring gives the wiring. -/
theorem ofList_entries (w : Wiring) : ofList w.entries = w := by
  have h : (ofList w.entries).entries = w.entries := entries_ofList w.nodup
  generalize ofList w.entries = v at h
  obtain ⟨es, hes⟩ := v
  obtain ⟨es', hes'⟩ := w
  obtain rfl : es = es' := h
  rfl

/-! ## All slots -/

/-- All slots are those of the receptors, one receptor after another. -/
theorem allSlots_eq (w : Wiring) :
    w.allSlots = w.receptors.flatMap fun r => ((w.slots? r).getD []).map fun s => (r, s) := by
  unfold allSlots receptors
  rw [List.flatMap_map]
  apply List.flatMap_congr
  intro e he
  rw [slots?_of_mem he]
  rfl

end Wiring

end Heterodyne
