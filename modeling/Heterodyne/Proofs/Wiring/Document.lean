import Heterodyne.Proofs.Json.Reader
import Heterodyne.Proofs.Json.Writer
import Heterodyne.Proofs.Wiring.Listed
import Heterodyne.Wiring.Document
import Mathlib.Data.List.Forall2
/-!
# Wirings and their documents

A list of receptors with their slots can be written in many ways: with blanks and escapes, the
fields of a slot in any order and among others, or a slot as an array. All of them are read as
one wiring, and the document of a wiring is read as the wiring.

* `ofJson?_of_describes`: slots and wirings are read from what describes them.
* `render_renders`: what is written is one of the documents.
* `parse_renders`: what all documents of a list are read as.
-/

namespace Heterodyne

namespace Slot

/-! ## Slots -/

/-- The fields of a slot. -/
def fields (slot : Slot) : List (String × Json) :=
  [("cm_id", .count slot.module), ("dcm_id", .count slot.converter),
    ("quadrant", .count slot.quadrant), ("sb_mode", .text slot.standby),
    ("synth", .count slot.synth)]

/-- The members that every object describing a slot has. -/
def members (slot : Slot) : List (Option String × Json) :=
  slot.fields.map fun field => Json.member field.1 field.2

/-- The member is named like a field. -/
def isField (m : Option String × Json) : Bool := (fieldNames.map some).contains m.1

/-- What describes a slot. -/
inductive Describes (slot : Slot) : Json → Prop
  /-- An object with the five fields in any order, and any members of other names. -/
  | fields {ms : List (Option String × Json)} : (∀ m ∈ ms, m.1.isSome = true) →
      (ms.filter isField).Perm slot.members → Describes slot (.object ms)
  /-- An array of the five values. -/
  | positions : Describes slot (.array [.count slot.module, .count slot.converter,
      .count slot.quadrant, .text slot.standby, .count slot.synth])

variable {slot : Slot} {ms : List (Option String × Json)}

/-- A field of an object is found wherever it stands. -/
theorem field?_of_perm (hperm : (ms.filter isField).Perm slot.members) {name : String} {v : Json}
    (hname : name ∈ fieldNames)
    (hfield : (slot.members.filter fun m => m.1 == some name) = [(some name, v)]) :
    field? ms name = some v := by
  have hfilter : (ms.filter fun m => m.1 == some name) =
      (ms.filter isField).filter fun m => m.1 == some name := by
    rw [List.filter_filter]
    apply List.filter_congr
    intro m _
    by_cases hm : m.1 = some name
    · have hmem : isField m = true := by
        simp [isField, hm, hname]
      simp [hm, hmem]
    · simp [hm]
  have honly := hperm.filter fun m => m.1 == some name
  rw [hfield, List.perm_singleton, ← hfilter] at honly
  rw [field?, honly]

/-- A slot is read from what describes it. -/
theorem ofJson?_of_describes {v : Json} (h : slot.Describes v) : ofJson? v = some slot := by
  cases h with
  | fields hkeys hperm =>
    have hmodule := field?_of_perm hperm (show "cm_id" ∈ fieldNames by decide) rfl
    have hconverter := field?_of_perm hperm (show "dcm_id" ∈ fieldNames by decide) rfl
    have hquadrant := field?_of_perm hperm (show "quadrant" ∈ fieldNames by decide) rfl
    have hstandby := field?_of_perm hperm (show "sb_mode" ∈ fieldNames by decide) rfl
    have hsynth := field?_of_perm hperm (show "synth" ∈ fieldNames by decide) rfl
    rw [ofJson?, if_pos (List.all_eq_true.2 hkeys)]
    simp [hmodule, hconverter, hquadrant, hstandby, hsynth, ofFields, readId_count, readText,
      Json.text]
  | positions => simp [ofJson?, ofFields, readId_count, readText, Json.text]

/-- A slot is described by its document. -/
theorem describes_toJson (slot : Slot) : slot.Describes slot.toJson := by
  have hkeys : ∀ m ∈ slot.members, m.1.isSome = true := by
    intro m hm
    obtain ⟨field, -, rfl⟩ := List.mem_map.1 hm
    rfl
  have hfields : slot.members.filter isField = slot.members := rfl
  have hperm : (slot.members.filter isField).Perm slot.members := by
    rw [hfields]
  exact .fields hkeys hperm

/-- The values of the fields are spelled. -/
theorem spells_write_value {v : Json} (h : v ∈ slot.fields.map Prod.snd) : v.Spells v.write := by
  simp only [fields, List.map_cons, List.map_nil, List.mem_cons, List.not_mem_nil, or_false] at h
  rcases h with rfl | rfl | rfl | rfl | rfl
  · exact Json.spells_write_count _
  · exact Json.spells_write_count _
  · exact Json.spells_write_count _
  · exact Json.spells_write_text _
  · exact Json.spells_write_count _

/-- The document of a slot is spelled. -/
theorem spells_write_toJson (slot : Slot) : slot.toJson.Spells slot.toJson.write := by
  apply @Json.spells_write_object slot.fields
  intro field hfield
  exact spells_write_value (List.mem_map_of_mem hfield)

end Slot

namespace Wiring

variable {es : List (Receptor × List Slot)}

/-! ## Receptors with their slots -/

/-- What describes a receptor with its slots. -/
def DescribesEntry (e : Receptor × List Slot) (m : Option String × Json) : Prop :=
  m.1 = some e.1 ∧ ∃ docs, m.2 = .array docs ∧ List.Forall₂ Slot.Describes e.2 docs

/-- Slots are read one after another. -/
theorem mapM_ofJson? {slots : List Slot} {docs : List Json}
    (h : List.Forall₂ Slot.Describes slots docs) : docs.mapM Slot.ofJson? = some slots := by
  induction h with
  | nil => rfl
  | cons hslot _ ih =>
    rw [List.mapM_cons, Slot.ofJson?_of_describes hslot, ih]
    rfl

/-- A receptor is read from what describes it. -/
theorem readEntry_of_describes {e : Receptor × List Slot} {m : Option String × Json}
    (h : DescribesEntry e m) : readEntry m = some e := by
  obtain ⟨hkey, docs, hdocs, hslots⟩ := h
  have hread : readSlots m.2 = some e.2 := by
    rw [hdocs]
    exact mapM_ofJson? hslots
  rw [readEntry, hkey, hread]
  rfl

/-- Receptors are read one after another. -/
theorem mapM_readEntry {ms : List (Option String × Json)} (h : List.Forall₂ DescribesEntry es ms) :
    ms.mapM readEntry = some es := by
  induction h with
  | nil => rfl
  | cons hentry _ ih =>
    rw [List.mapM_cons, readEntry_of_describes hentry, ih]
    rfl

/-- The text is a document of the listed receptors with their slots. -/
def Renders (es : List (Receptor × List Slot)) (text : String) : Prop :=
  ∃ ms, List.Forall₂ DescribesEntry es ms ∧ Json.SpellsDocument (.object ms) text

/-- Every document of a list is read as the wiring from the list. -/
theorem parse_of_renders {α : Type} {text : String} (h : Renders es text) :
    (parse text : Except (Refusal α) Wiring) = .ok (ofList es) := by
  obtain ⟨ms, hentries, hspelled⟩ := h
  have hread : (Json.parse? text).bind ofJson? = some (ofList es) := by
    rw [Json.parse?_spelled hspelled, Option.bind_some, ofJson?, mapM_readEntry hentries,
      Option.map_some]
  rw [parse, hread]

/-! ## Written wirings -/

/-- The compact document of listed receptors with their slots. -/
def compact (es : List (Receptor × List Slot)) : Json :=
  .object (es.map fun e => Json.member e.1 (.array (e.2.map Slot.toJson)))

/-- Slots are described by their documents. -/
theorem forall₂_describes_toJson (slots : List Slot) :
    List.Forall₂ Slot.Describes slots (slots.map Slot.toJson) := by
  rw [List.forall₂_map_right_iff, List.forall₂_same]
  intro slot _
  exact slot.describes_toJson

/-- The compact text is one of the documents of the listed receptors. -/
theorem renders_compact (es : List (Receptor × List Slot)) : Renders es (compact es).render := by
  refine ⟨es.map fun e => Json.member e.1 (.array (e.2.map Slot.toJson)), ?_, ?_⟩
  · rw [List.forall₂_map_right_iff, List.forall₂_same]
    intro e _
    exact ⟨rfl, e.2.map Slot.toJson, rfl, forall₂_describes_toJson e.2⟩
  · apply Json.spellsDocument_render
    have hmap : (es.map fun e => Json.member e.1 (.array (e.2.map Slot.toJson))) =
        (es.map fun e => (e.1, Json.array (e.2.map Slot.toJson))).map fun m =>
          Json.member m.1 m.2 := by
      rw [List.map_map]
      rfl
    rw [hmap]
    apply Json.spells_write_object
    intro m hm
    obtain ⟨e, -, rfl⟩ := List.mem_map.1 hm
    apply Json.spells_write_array
    intro v hv
    obtain ⟨slot, -, rfl⟩ := List.mem_map.1 hv
    exact slot.spells_write_toJson

/-- What a wiring is written as is a document of its entries. -/
theorem render_renders (w : Wiring) : Renders w.entries w.render := renders_compact w.entries

/-! ## Reading documents -/

/-- Receptors with their slots have documents, and all of these are read as one wiring. Every
name is in it once, in the place where it is listed first and with the slots that it is listed
with last, and the list of all slots agrees with it. In particular a wiring is read back from
what it is written as. -/
theorem parse_renders {α : Type} (es : List (Receptor × List Slot)) :
    (∃ text, Renders es text) ∧
    (∃ w : Wiring,
      (∀ text, Renders es text → (parse text : Except (Refusal α) Wiring) = .ok w) ∧
      w.receptors = (es.map Prod.fst).eraseDups ∧ w.receptors.Nodup ∧
      (∀ r, w.slots? r = es.reverse.lookup r) ∧
      w.allSlots = w.receptors.flatMap fun r => ((w.slots? r).getD []).map fun s => (r, s)) ∧
    ∀ w : Wiring, (parse w.render : Except (Refusal α) Wiring) = .ok w := by
  refine ⟨⟨_, renders_compact es⟩, ⟨ofList es, fun _ => parse_of_renders, ?_⟩, ?_⟩
  · exact ⟨receptors_ofList es, (ofList es).nodup, slots?_ofList es, allSlots_eq (ofList es)⟩
  · intro w
    rw [parse_of_renders w.render_renders, ofList_entries]

/-! ## A receptor that is listed twice -/

/-- A receptor that is listed twice, with another one in between. -/
def listedTwice : List (Receptor × List Slot) :=
  [("A", [⟨0, 1, 2, "m", 3⟩]), ("😀", []), ("A", [⟨4, 5, 6, "m", 17⟩])]

/-- A document of the two receptors, with blanks, escapes, a member of another name and a slot
written as an array. -/
def listedTwiceText : String :=
  " \x7b\"\\u0041\" : [\x7b\"synth\":3,\"x\":[null],\"cm_id\":0,\"dcm_id\":1,\"quadrant\":2," ++
  "\"sb_mode\":\"m\"\x7d], \"\\uD83D\\ude00\":[ ],\"A\":[[4,5,6,\"m\",17]]\x7d\n"

/-- The members of the first slot, its last field in front and a member of another name. -/
def rearranged : List (String × Json) :=
  [("synth", .count 3), ("x", .array [.null]), ("cm_id", .count 0), ("dcm_id", .count 1),
    ("quadrant", .count 2), ("sb_mode", .text "m")]

/-- The values of the last slot. -/
def positional : List Json := [.count 4, .count 5, .count 6, .text "m", .count 17]

/-- The slots of the first entry are spelled. -/
theorem spells_write_rearranged :
    (Json.array [.object (rearranged.map fun m => Json.member m.1 m.2)]).Spells
      (Json.array [.object (rearranged.map fun m => Json.member m.1 m.2)]).write := by
  have hnull : ∀ v ∈ [Json.null], v.Spells v.write := by
    intro v hv
    obtain rfl := List.mem_singleton.1 hv
    exact .null
  apply Json.spells_write_array
  intro v hv
  obtain rfl := List.mem_singleton.1 hv
  apply Json.spells_write_object
  intro m hm
  simp only [rearranged, List.mem_cons, List.not_mem_nil, or_false] at hm
  rcases hm with rfl | rfl | rfl | rfl | rfl | rfl
  · exact Json.spells_write_count _
  · exact Json.spells_write_array hnull
  · exact Json.spells_write_count _
  · exact Json.spells_write_count _
  · exact Json.spells_write_count _
  · exact Json.spells_write_text _

/-- The slots of the last entry are spelled. -/
theorem spells_write_positional :
    (Json.array [.array positional]).Spells (Json.array [.array positional]).write := by
  apply Json.spells_write_array
  intro v hv
  obtain rfl := List.mem_singleton.1 hv
  apply Json.spells_write_array
  intro v hv
  exact @Slot.spells_write_value ⟨4, 5, 6, "m", 17⟩ v hv

/-- The first name is spelled with an escape. -/
theorem spellsLiteral_escaped : Json.SpellsLiteral (some "A") ['\\', 'u', '0', '0', '4', '1'] :=
  ⟨['A'.toNat], .cons (.unit '0' '0' '4' '1' 0 0 4 1 (by decide) (by decide) (by decide)
    (by decide)) .nil, .single 'A' .nil⟩

/-- The second name is spelled with a surrogate pair. -/
theorem spellsLiteral_paired : Json.SpellsLiteral (some "😀")
    ['\\', 'u', 'D', '8', '3', 'D', '\\', 'u', 'd', 'e', '0', '0'] :=
  ⟨[0xD83D, 0xDE00],
    .cons (.unit 'D' '8' '3' 'D' 13 8 3 13 (by decide) (by decide) (by decide) (by decide))
      (.cons (.unit 'd' 'e' '0' '0' 13 14 0 0 (by decide) (by decide) (by decide) (by decide))
        .nil),
    .pair '😀' _ _ (by decide) (by decide) (by decide) (by decide) (by decide) .nil⟩

/-- The text is a document of the receptor that is listed twice. -/
theorem renders_listedTwice : Renders listedTwice listedTwiceText := by
  have hrearranged : (⟨0, 1, 2, "m", 3⟩ : Slot).Describes
      (.object (rearranged.map fun m => Json.member m.1 m.2)) :=
    .fields (by decide) (List.perm_append_singleton _ _).symm
  refine ⟨[(some "A", .array [.object (rearranged.map fun m => Json.member m.1 m.2)]),
    (some "😀", .array []), (some "A", .array [.array positional])], ?_, ?_⟩
  · refine .cons ⟨rfl, _, rfl, .cons hrearranged .nil⟩ (.cons ⟨rfl, [], rfl, .nil⟩ ?_)
    exact .cons ⟨rfl, _, rfl, .cons .positions .nil⟩ .nil
  · have hfirst := @Json.SpellsMember.mk _ _ _ [' '] [' '] _ spellsLiteral_escaped (by decide)
      (by decide) spells_write_rearranged
    have hsecond := @Json.SpellsMember.mk _ _ _ [] [] _ spellsLiteral_paired (by decide)
      (by decide) (@Json.Spells.emptyArray [' '] (by decide))
    have hthird := @Json.SpellsMember.mk _ _ _ [] [] _ (Json.spellsLiteral_writeChar "A")
      (by decide) (by decide) spells_write_positional
    have hmembers := @Json.SpellsMembers.cons _ _ _ [] [' '] _ hfirst (by decide) (by decide)
      (@Json.SpellsMembers.cons _ _ _ [] [] _ hsecond (by decide) (by decide)
        (@Json.SpellsMembers.last _ _ [] hthird (by decide)))
    refine ⟨[' '], _, ['\n'], by decide, @Json.Spells.object _ [] _ (by decide) hmembers,
      by decide, ?_⟩
    decide +kernel

/-- The receptor that is listed twice stands in front and has its last slot. -/
theorem parse_renders_listedTwice :
    ∃ w : Wiring, Renders listedTwice listedTwiceText ∧
      (parse listedTwiceText : Except (Refusal Unit) Wiring) = .ok w ∧
      w.receptors = ["A", "😀"] ∧ w.slots? "A" = some [⟨4, 5, 6, "m", 17⟩] := by
  obtain ⟨-, ⟨w, hparse, hreceptors, -, hslots, -⟩, -⟩ := @parse_renders Unit listedTwice
  refine ⟨w, renders_listedTwice, hparse _ renders_listedTwice, ?_, ?_⟩
  · rw [hreceptors]
    decide
  · rw [hslots]
    decide

end Wiring

end Heterodyne
