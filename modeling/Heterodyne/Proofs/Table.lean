import Heterodyne.Table
/-!
# What tables hold

Two readings of a table as a whole. One table is part of another if every value of the first
stands in the second under the same key. A table collects a list if it holds, under the key of
every element, the element's value, and nothing else; it then depends on which elements are in
the list, but not on their order or on repetitions.

* `Collects.insert`: one more element is collected by inserting its value.
* `Collects.isPartOf`: a table that collects fewer elements is part of one that collects more.
* `collects_ofList`: a table made of entries that do not contradict each other collects them.
-/

namespace Heterodyne

namespace Table

open Ranked (rank)

variable {κ β γ : Type} [Ranked κ]

/-! ## Parts and keys -/

/-- Every value of the first table stands in the second one under the same key. -/
def IsPartOf (s t : Table κ β) : Prop := ∀ k v, s.get? k = some v → t.get? k = some v

/-- Two tables that are part of each other are one table. -/
theorem IsPartOf.antisymm {s t : Table κ β} (hst : s.IsPartOf t) (hts : t.IsPartOf s) :
    s = t := by
  apply ext
  intro k
  apply Option.ext
  intro v
  exact ⟨hst k v, hts k v⟩

/-- The parts of a table keep their places when a function is applied to the values. -/
theorem IsPartOf.map {s t : Table κ β} (h : s.IsPartOf t) (f : β → γ) :
    (s.map f).IsPartOf (t.map f) := by
  intro k w hw
  rw [get?_map, Option.map_eq_some_iff] at hw ⊢
  obtain ⟨v, hv, rfl⟩ := hw
  exact ⟨v, h k v hv, rfl⟩

/-- The keys of a table, in ascending order. -/
def keys (t : Table κ β) : List κ := t.entries.map Prod.fst

/-- The keys are those under which a value stands. -/
theorem mem_keys {t : Table κ β} {k : κ} : k ∈ t.keys ↔ ∃ v, t.get? k = some v := by
  simp only [keys, List.mem_map, Prod.exists, exists_and_right, exists_eq_right,
    get?_eq_some_iff]

/-- Applying a function to the values keeps the keys. -/
theorem keys_map (t : Table κ β) (f : β → γ) : (t.map f).keys = t.keys := by
  simp [keys, map, Function.comp_def]

/-! ## Collections -/

/-- The table holds the value of every listed element under its key, and nothing else. -/
def Collects (t : Table κ β) (key : γ → κ) (value : γ → β) (as : List γ) : Prop :=
  ∀ k v, t.get? k = some v ↔ ∃ a ∈ as, key a = k ∧ value a = v

section Collects

variable {t t' : Table κ β} {key : γ → κ} {value : γ → β} {as as' : List γ} {a b : γ}

/-- The empty table collects nothing. -/
theorem collects_nil : (empty : Table κ β).Collects key value [] := by
  intro k v
  simp

/-- The value of a collected element stands under its key. -/
theorem Collects.get? (h : t.Collects key value as) (ha : a ∈ as) :
    t.get? (key a) = some (value a) :=
  (h _ _).2 ⟨a, ha, rfl, rfl⟩

/-- Collected elements with one key have one value. -/
theorem Collects.agree (h : t.Collects key value as) (ha : a ∈ as) (hb : b ∈ as)
    (hk : key a = key b) : value a = value b := by
  have hva := h.get? ha
  rw [hk, h.get? hb] at hva
  exact (Option.some.inj hva).symm

/-- The keys of the table are those of the elements. -/
theorem Collects.mem_keys (h : t.Collects key value as) {k : κ} :
    k ∈ t.keys ↔ k ∈ as.map key := by
  rw [Table.mem_keys, List.mem_map]
  constructor
  · rintro ⟨v, hv⟩
    obtain ⟨a, ha, hk, -⟩ := (h k v).1 hv
    exact ⟨a, ha, hk⟩
  · rintro ⟨a, ha, rfl⟩
    exact ⟨value a, h.get? ha⟩

/-- A value that no collected element contradicts is collected by inserting it. -/
theorem Collects.insert (h : t.Collects key value as)
    (hc : ∀ b ∈ as, key b = key a → value b = value a) :
    (t.insert (key a) (value a)).Collects key value (as ++ [a]) := by
  intro k v
  rw [get?_insert]
  constructor
  · intro hv
    split at hv
    · rename_i hk
      exact ⟨a, by simp, (Ranked.rank_injective hk).symm, Option.some.inj hv⟩
    · obtain ⟨b, hb, hkv⟩ := (h k v).1 hv
      exact ⟨b, List.mem_append_left _ hb, hkv⟩
  · rintro ⟨b, hb, rfl, rfl⟩
    rcases List.mem_append.1 hb with hb | hb
    · split
      · rename_i hk
        rw [hc b hb (Ranked.rank_injective hk)]
      · exact h.get? hb
    · rw [List.mem_singleton.1 hb, if_pos rfl]

/-- A table that collects some of the elements is part of the table that collects them all. -/
theorem Collects.isPartOf (h : t.Collects key value as) (h' : t'.Collects key value as')
    (hsub : ∀ a ∈ as, a ∈ as') : t.IsPartOf t' := by
  intro k v hv
  obtain ⟨a, ha, hkv⟩ := (h k v).1 hv
  exact (h' k v).2 ⟨a, hsub a ha, hkv⟩

end Collects

/-! ## Tables made of entries -/

/-- Entries are inserted behind those that a table collects already. -/
theorem Collects.foldl_insert {t : Table κ β} {done : List (κ × β)}
    (h : t.Collects Prod.fst Prod.snd done) (es : List (κ × β))
    (hc : ∀ e ∈ done ++ es, ∀ e' ∈ done ++ es, e.1 = e'.1 → e.2 = e'.2) :
    (es.foldl (fun t e => t.insert e.1 e.2) t).Collects Prod.fst Prod.snd (done ++ es) := by
  induction es generalizing t done with
  | nil => simpa using h
  | cons e es ih =>
    have hmem : ∀ b ∈ done, b ∈ done ++ e :: es := fun b hb => List.mem_append_left _ hb
    have hnext := h.insert (a := e) fun b hb => hc b (hmem b hb) e (by simp)
    rw [List.append_cons] at hc ⊢
    exact ih hnext hc

/-- A table made of entries of which no two contradict each other collects them. -/
theorem collects_ofList (es : List (κ × β))
    (hc : ∀ e ∈ es, ∀ e' ∈ es, e.1 = e'.1 → e.2 = e'.2) :
    (ofList es).Collects Prod.fst Prod.snd es :=
  collects_nil.foldl_insert es hc

/-- A value stands in a table made of elements that do not contradict each other exactly if it
is that of an element. -/
theorem collects_ofList_map (key : γ → κ) (value : γ → β) (as : List γ)
    (hc : ∀ a ∈ as, ∀ b ∈ as, key a = key b → value a = value b) :
    (ofList (as.map fun a => (key a, value a))).Collects key value as := by
  intro k v
  have hes := collects_ofList (as.map fun a => (key a, value a)) (by
    simp only [List.mem_map]
    rintro _ ⟨a, ha, rfl⟩ _ ⟨b, hb, rfl⟩
    exact hc a ha b hb)
  rw [hes k v]
  simp only [List.mem_map]
  constructor
  · rintro ⟨_, ⟨a, ha, rfl⟩, hkv⟩
    exact ⟨a, ha, hkv⟩
  · rintro ⟨a, ha, hkv⟩
    exact ⟨_, ⟨a, ha, rfl⟩, hkv⟩

/-- A table made of entries in ascending order has these entries. -/
theorem ofList_of_ascending {es : List (κ × β)}
    (h : es.Pairwise fun a b => rank a.1 < rank b.1) : ofList es = ⟨es, h⟩ := by
  have hfinds : ∀ e ∈ es, (⟨es, h⟩ : Table κ β).get? e.1 = some e.2 := fun _ he =>
    get?_eq_some_iff.2 he
  have hcollects := collects_ofList es fun e he e' he' hk => by
    have hv := hfinds e he
    rw [hk, hfinds e' he'] at hv
    exact (Option.some.inj hv).symm
  apply ext
  intro k
  apply Option.ext
  intro v
  rw [hcollects k v]
  constructor
  · rintro ⟨e, he, rfl, rfl⟩
    exact hfinds e he
  · intro hv
    exact ⟨(k, v), get?_eq_some_iff.1 hv, rfl, rfl⟩

/-- A key has no value behind entries exactly if it had none and is none of theirs. -/
theorem get?_foldl_insert_eq_none (es : List (κ × β)) (t : Table κ β) (k : κ) :
    (es.foldl (fun t e => t.insert e.1 e.2) t).get? k = none ↔
      t.get? k = none ∧ k ∉ es.map Prod.fst := by
  induction es generalizing t with
  | nil => simp
  | cons e es ih =>
    rw [List.foldl_cons, ih, get?_insert, List.map_cons, List.mem_cons]
    by_cases hk : rank k = rank e.1
    · simp [Ranked.rank_injective hk]
    · have hne : k ≠ e.1 := fun heq => hk (congrArg rank heq)
      simp [hk, hne]

/-- Every key of the entries has a value in the table made of them. -/
theorem exists_get?_ofList {es : List (κ × β)} {k : κ} (h : k ∈ es.map Prod.fst) :
    ∃ v, (ofList es).get? k = some v := by
  rw [← Option.ne_none_iff_exists']
  intro hnone
  exact ((get?_foldl_insert_eq_none es empty k).1 hnone).2 h

/-! ## Values for the keys that have none -/

/-- Elements fill the keys that have no value yet, the first one of a key deciding. -/
theorem get?_foldl_insertNew (key : γ → κ) (value : γ → β) (as : List γ) (t : Table κ β)
    (k : κ) :
    (as.foldl (fun t a => t.insertNew (key a) (value a)) t).get? k =
      (t.get? k).or ((as.find? fun a => rank k = rank (key a)).map value) := by
  induction as generalizing t with
  | nil => simp
  | cons a as ih =>
    rw [List.foldl_cons, ih, get?_insertNew, Option.or_assoc, List.find?_cons]
    by_cases hk : rank k = rank (key a)
    · simp [hk]
    · simp [hk]

end Table

end Heterodyne
