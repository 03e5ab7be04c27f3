/-!
# Tables sorted by key

A table holds at most one value per key, in ascending order of the keys.

* `get?_insert`: a written value is found under its key, and no other key changes.
* `ext`: a table is determined by what it holds, not by how it was filled.
-/

namespace Heterodyne

/-- Keys with a place in an ascending order. -/
class Ranked (κ : Type) where
  rank : κ → Nat
  rank_injective : ∀ {a b : κ}, rank a = rank b → a = b

instance : Ranked UInt32 where
  rank := UInt32.toNat
  rank_injective := UInt32.toNat_inj.1

open Ranked (rank)

variable {κ β : Type} [Ranked κ]

/-- Values under keys, in ascending order of the keys. -/
structure Table (κ β : Type) [Ranked κ] where
  entries : List (κ × β)
  ascending : entries.Pairwise (fun a b => rank a.1 < rank b.1)

namespace Table

/-! ## Entries -/

/-- Puts a value in its place, in front of the first greater key. -/
def insertEntry (k : κ) (v : β) : List (κ × β) → List (κ × β)
  | [] => [(k, v)]
  | (k', v') :: rest =>
    if rank k < rank k' then (k, v) :: (k', v') :: rest
    else if rank k = rank k' then (k, v) :: rest
    else (k', v') :: insertEntry k v rest

/-- The value under a key. -/
def findEntry (k : κ) : List (κ × β) → Option β
  | [] => none
  | (k', v') :: rest => if rank k = rank k' then some v' else findEntry k rest

/-- An entry of the longer list is the new one or an old one. -/
theorem mem_insertEntry {k : κ} {v : β} {es : List (κ × β)} {e : κ × β}
    (h : e ∈ insertEntry k v es) : e = (k, v) ∨ e ∈ es := by
  induction es with
  | nil => simpa [insertEntry] using h
  | cons a es ih =>
    simp only [insertEntry] at h
    split at h
    · simpa using h
    · split at h
      · rcases List.mem_cons.1 h with h | h
        · exact .inl h
        · exact .inr (List.mem_cons_of_mem _ h)
      · rcases List.mem_cons.1 h with h | h
        · exact .inr (h ▸ List.mem_cons_self)
        · exact (ih h).imp id (List.mem_cons_of_mem _)

/-- Insertion keeps the keys ascending. -/
theorem ascending_insertEntry (k : κ) (v : β) {es : List (κ × β)}
    (h : es.Pairwise (fun a b => rank a.1 < rank b.1)) :
    (insertEntry k v es).Pairwise (fun a b => rank a.1 < rank b.1) := by
  induction es with
  | nil => simp [insertEntry]
  | cons a es ih =>
    obtain ⟨ha, hes⟩ := List.pairwise_cons.1 h
    simp only [insertEntry]
    split
    · rename_i hlt
      refine List.pairwise_cons.2 ⟨fun e he => ?_, h⟩
      rcases List.mem_cons.1 he with rfl | he
      · exact hlt
      · exact Nat.lt_trans hlt (ha e he)
    · split
      · rename_i heq
        exact List.pairwise_cons.2 ⟨fun e he => heq ▸ ha e he, hes⟩
      · refine List.pairwise_cons.2 ⟨fun e he => ?_, ih hes⟩
        rcases mem_insertEntry he with rfl | he
        · show rank a.1 < rank k
          omega
        · exact ha e he

/-- The inserted value is found under its key, and the others as before. -/
theorem findEntry_insertEntry (k j : κ) (v : β) (es : List (κ × β)) :
    findEntry j (insertEntry k v es) = if rank j = rank k then some v else findEntry j es := by
  induction es with
  | nil => rfl
  | cons a es ih =>
    simp only [insertEntry]
    split
    · rfl
    · split
      · rename_i heq
        simp only [findEntry, heq]
        split <;> rfl
      · simp only [findEntry, ih]
        split
        · rw [if_neg (by omega)]
        · rfl

/-! ## Tables -/

/-- The table without entries. -/
def empty : Table κ β := ⟨[], .nil⟩

/-- Puts a value under a key, in place of the one before. -/
def insert (t : Table κ β) (k : κ) (v : β) : Table κ β :=
  ⟨insertEntry k v t.entries, ascending_insertEntry k v t.ascending⟩

/-- The value under a key. -/
def get? (t : Table κ β) (k : κ) : Option β := findEntry k t.entries

/-- Puts a value under a key that has none yet. -/
def insertNew (t : Table κ β) (k : κ) (v : β) : Table κ β :=
  match t.get? k with
  | some _ => t
  | none => t.insert k v

/-- The table with every value under its key, the last one where a key is repeated. -/
def ofList (es : List (κ × β)) : Table κ β := es.foldl (fun t e => t.insert e.1 e.2) empty

/-- Applies a function to every value. -/
def map {γ : Type} (f : β → γ) (t : Table κ β) : Table κ γ :=
  ⟨t.entries.map (fun e => (e.1, f e.2)), List.pairwise_map.2 t.ascending⟩

/-- The empty table has no values. -/
@[simp] theorem get?_empty (k : κ) : (empty : Table κ β).get? k = none := rfl

/-- The inserted value stands under its key, and the others as before. -/
theorem get?_insert (t : Table κ β) (k j : κ) (v : β) :
    (t.insert k v).get? j = if rank j = rank k then some v else t.get? j :=
  findEntry_insertEntry k j v t.entries

/-- The inserted value stands under its key. -/
@[simp] theorem get?_insert_self (t : Table κ β) (k : κ) (v : β) :
    (t.insert k v).get? k = some v := by
  simp [get?_insert]

/-- A value is inserted only where there was none. -/
theorem get?_insertNew (t : Table κ β) (k j : κ) (v : β) :
    (t.insertNew k v).get? j = (t.get? j).or (if rank j = rank k then some v else none) := by
  unfold insertNew
  split
  · rename_i h
    split
    · rename_i hj
      have hjk : j = k := Ranked.rank_injective hj
      subst hjk
      simp [h]
    · simp
  · rename_i h
    rw [get?_insert]
    split
    · rename_i hj
      have hjk : j = k := Ranked.rank_injective hj
      subst hjk
      simp [h]
    · simp

/-- A function is applied to the value under each key. -/
theorem get?_map {γ : Type} (f : β → γ) (t : Table κ β) (k : κ) :
    (t.map f).get? k = (t.get? k).map f := by
  obtain ⟨es, hes⟩ := t
  simp only [get?, map]
  clear hes
  induction es with
  | nil => rfl
  | cons a es ih =>
    simp only [List.map_cons, findEntry]
    split
    · rfl
    · exact ih

/-- An entry of the table is what its key finds. -/
theorem get?_eq_some_iff {t : Table κ β} {k : κ} {v : β} :
    t.get? k = some v ↔ (k, v) ∈ t.entries := by
  obtain ⟨es, hes⟩ := t
  simp only [get?]
  induction es with
  | nil => simp [findEntry]
  | cons a es ih =>
    obtain ⟨ha, hes'⟩ := List.pairwise_cons.1 hes
    simp only [findEntry]
    split
    · rename_i heq
      have hk : k = a.1 := Ranked.rank_injective heq
      constructor
      · intro h
        cases h
        exact List.mem_cons.2 (.inl (Prod.ext hk rfl))
      · intro h
        rcases List.mem_cons.1 h with h | h
        · exact congrArg some (congrArg Prod.snd h).symm
        · have hlt : rank a.1 < rank k := ha _ h
          omega
    · rename_i hne
      rw [ih hes', List.mem_cons]
      constructor
      · exact .inr
      · rintro (h | h)
        · exact absurd (congrArg (fun e => rank (Prod.fst e)) h) hne
        · exact h

/-- Two tables that hold the same are the same table. -/
theorem ext {s t : Table κ β} (h : ∀ k, s.get? k = t.get? k) : s = t := by
  have hmem : ∀ e, e ∈ s.entries ↔ e ∈ t.entries := fun (k, v) => by
    rw [← get?_eq_some_iff, ← get?_eq_some_iff, h]
  obtain ⟨as, has⟩ := s
  obtain ⟨bs, hbs⟩ := t
  congr 1
  simp only at hmem
  clear h
  induction as generalizing bs with
  | nil =>
    cases bs with
    | nil => rfl
    | cons b bs => exact absurd ((hmem b).2 List.mem_cons_self) (by simp)
  | cons a as ih =>
    cases bs with
    | nil => exact absurd ((hmem a).1 List.mem_cons_self) (by simp)
    | cons b bs =>
      obtain ⟨ha, has'⟩ := List.pairwise_cons.1 has
      obtain ⟨hb, hbs'⟩ := List.pairwise_cons.1 hbs
      have hab : a = b := by
        rcases List.mem_cons.1 ((hmem a).1 List.mem_cons_self) with hab | hab
        · exact hab
        · rcases List.mem_cons.1 ((hmem b).2 List.mem_cons_self) with hba | hba
          · exact hba.symm
          · have h1 := hb a hab
            have h2 := ha b hba
            omega
      subst hab
      refine congrArg (a :: ·) (ih has' bs hbs' fun e => ⟨fun he => ?_, fun he => ?_⟩)
      · rcases List.mem_cons.1 ((hmem e).1 (List.mem_cons_of_mem _ he)) with rfl | he'
        · exact absurd (ha e he) (Nat.lt_irrefl _)
        · exact he'
      · rcases List.mem_cons.1 ((hmem e).2 (List.mem_cons_of_mem _ he)) with rfl | he'
        · exact absurd (hb e he) (Nat.lt_irrefl _)
        · exact he'

end Table

end Heterodyne
