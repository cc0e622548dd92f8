import VisualNovel.Proofs.Script.Meaning

/-!
# What limits do to a load

Limits are compared with what is read at several points of a load, but all that they do is filter: a
value loads under limits exactly if it loads under any larger ones and what is loaded is within the
limits (`load_iff_within`). One half is that no step of a load becomes stricter when limits grow
(`load_mono`), the other that what is loaded was measured on its way in (`within_of_load`).
-/

namespace VisualNovel

open Outcome

/-- Limits that allow no more of a JSON value than others do. The bytes of a whole script text are
counted before there is a value. -/
structure Limits.AtMost (limits larger : Limits) : Prop where
  actors_le : limits.actors ≤ larger.actors
  commands_le : limits.commands ≤ larger.commands
  textBytes_le : limits.textBytes ≤ larger.textBytes
  idBytes_le : limits.idBytes ≤ larger.idBytes

namespace Script

variable {limits larger : Limits}

/-! ## Larger limits -/

section Larger

variable (hlimits : limits.AtMost larger)
include hlimits

/-- A cast that loads within limits loads within larger ones. -/
theorem loadCast_mono {value : Json} {script : Script} (h : loadCast limits value = .ok script) :
    loadCast larger value = .ok script := by
  obtain ⟨entries, actors, rfl, hlength, hactors, hrest⟩ := loadCast_eq_ok_iff.mp h
  refine loadCast_eq_ok_iff.mpr
    ⟨entries, actors, rfl, Nat.le_trans hlength hlimits.actors_le, ?_, hrest⟩
  refine hactors.imp fun entry actor hactor => ?_
  obtain ⟨hbytes, hfields⟩ := loadActor_eq_ok_iff.mp hactor
  exact loadActor_eq_ok_iff.mpr ⟨Nat.le_trans hbytes hlimits.idBytes_le, hfields⟩

/-- A sprite that is found within limits is found within larger ones. -/
theorem mentionedSprite?_mono {place : Nat} {command : Json} {name : Option String}
    (h : mentionedSprite? limits place command = .ok name) :
    mentionedSprite? larger place command = .ok name := by
  obtain ⟨entries, rfl, hnone | ⟨body, id, hbody, hid, hbytes, rfl⟩⟩ :=
    mentionedSprite?_eq_ok_iff.mp h
  · exact mentionedSprite?_eq_ok_iff.mpr ⟨entries, rfl, Or.inl hnone⟩
  · exact mentionedSprite?_eq_ok_iff.mpr ⟨entries, rfl, Or.inr
      ⟨body, id, hbody, hid, Nat.le_trans hbytes hlimits.idBytes_le, rfl⟩⟩

/-- A name that is found within limits is found within larger ones. -/
theorem mentionedName?_mono {fields : Section} {key : String} {name : Option String}
    (h : mentionedName? limits fields key = .ok name) :
    mentionedName? larger fields key = .ok name := by
  obtain hnone | ⟨written, hwritten, hname⟩ := mentionedName?_eq_ok_iff.mp h
  · exact mentionedName?_eq_ok_iff.mpr (Or.inl hnone)
  · refine mentionedName?_eq_ok_iff.mpr (Or.inr ⟨written, hwritten, ?_⟩)
    split at hname
    · next hempty => rwa [if_pos hempty]
    · next hempty =>
      rw [if_neg hempty]
      exact ⟨Nat.le_trans hname.1 hlimits.idBytes_le, hname.2⟩

/-- Image and track that are found within limits are found within larger ones. -/
theorem mentionedAssets_mono {place : Nat} {command : Json} {names : Option String × Option String}
    (h : mentionedAssets limits place command = .ok names) :
    mentionedAssets larger place command = .ok names := by
  obtain ⟨entries, rfl, hnone | ⟨body, hbody, hlocation, himage, hmusic⟩⟩ :=
    mentionedAssets_eq_ok_iff.mp h
  · exact mentionedAssets_eq_ok_iff.mpr ⟨entries, rfl, Or.inl hnone⟩
  · exact mentionedAssets_eq_ok_iff.mpr ⟨entries, rfl, Or.inr ⟨body, hbody, hlocation,
      mentionedName?_mono hlimits himage, mentionedName?_mono hlimits hmusic⟩⟩

/-- A command that is resolved within limits is resolved within larger ones. -/
theorem resolveCommand_mono {target : Script} {place : Nat} {value : Json} {command : Command}
    (h : target.resolveCommand limits place value = .ok command) :
    target.resolveCommand larger place value = .ok command := by
  obtain ⟨entries, body, rfl, hkinds, hbody⟩ := resolveCommand_eq_ok_iff.mp h
  refine resolveCommand_eq_ok_iff.mpr ⟨entries, body, rfl, hkinds, ?_⟩
  -- of the four kinds, only what is spoken is measured here
  cases command with
  | speak command => exact { hbody with text_le := Nat.le_trans hbody.text_le hlimits.textBytes_le }
  | sprite command => exact hbody
  | wait duration => exact hbody
  | background command => exact hbody

omit hlimits in
/-- Where each command succeeds still, all of them do. -/
theorem forEachCommand_mono {α : Type} {commands : List Json} {f g : Nat → Json → Except Error α}
    (hstep : ∀ {place command result}, f place command = .ok result → g place command = .ok result)
    {results : List α} (h : forEachCommand commands f = .ok results) :
    forEachCommand commands g = .ok results := by
  rw [forEachCommand_eq_ok_iff] at h ⊢
  exact ⟨h.1, fun place command result hcommand hresult =>
    hstep (h.2 place command result hcommand hresult)⟩

/-- What loads under limits loads under larger ones, as the same script. -/
theorem load_mono {value : Json} {script : Script} (h : load limits value = .ok script) :
    load larger value = .ok script := by
  obtain ⟨fields, cast, commands, rfl, hfind, hcommands, hlength, target, sprites, assets, resolved,
    hcast, hsprites, hassets, hresolved, rfl⟩ := load_eq_ok_iff.mp h
  exact load_eq_ok_iff.mpr ⟨fields, cast, commands, rfl, hfind, hcommands,
    Nat.le_trans hlength hlimits.commands_le, target, sprites, assets, resolved,
    loadCast_mono hlimits hcast, forEachCommand_mono (mentionedSprite?_mono hlimits) hsprites,
    forEachCommand_mono (mentionedAssets_mono hlimits) hassets,
    forEachCommand_mono (resolveCommand_mono hlimits) hresolved, rfl⟩

end Larger

/-! ## What is loaded is within the limits -/

/-- The names in a pool that was made of what readings mention satisfy what each mention does. -/
theorem forall_mem_names_ofNames {α : Type} [PoolEntry α] {readings : List Reading}
    {mention : Reading → Option String} {p : String → Prop}
    (h : ∀ reading ∈ readings, ∀ name ∈ mention reading, p name) :
    ∀ name ∈ (Pool.ofNames (readings.filterMap mention) : Pool α).names, p name := by
  intro name hname
  obtain ⟨reading, hreading, hmention⟩ := List.mem_filterMap.mp (Pool.mem_names_ofNames.mp hname)
  exact h reading hreading name hmention

/-- A command has spoken what its reading has. -/
theorem text?_eq_of_reading? {script : Script} {command : Command} {reading : Reading}
    (h : script.reading? command = some reading) : command.text? = reading.text? := by
  cases reading with
  | sprite id hide actor portrait pos size =>
    obtain ⟨_, _, rfl, -⟩ := reading?_eq_sprite_iff.mp h
    rfl
  | speak actor portrait text =>
    obtain ⟨_, rfl, -⟩ := reading?_eq_speak_iff.mp h
    rfl
  | wait duration =>
    rw [reading?_eq_wait_iff.mp h]
    rfl
  | background image music =>
    obtain ⟨_, _, rfl, -⟩ := reading?_eq_background_iff.mp h
    rfl

/-- What is loaded is within the limits under which it was. -/
theorem within_of_load {value : Json} {script : Script} (h : load limits value = .ok script) :
    Within limits script := by
  obtain ⟨readings, hreadings, htables, hlength, hclear⟩ := eq_tables_of_load h
  obtain ⟨hactors, hids⟩ := cast_within_of_load h
  refine ⟨hactors, ?_, hids, ?_, ?_, ?_, ?_⟩
  · exact hreadings.length_eq ▸ hlength
  · rw [congrArg Script.sprites htables]
    change ∀ name ∈ (Pool.ofNames ((readings.map Reading.sprite?).filterMap id)).names, _
    rw [List.filterMap_map]
    exact forall_mem_names_ofNames fun reading hmem => (hclear reading hmem).2.sprite_le
  · rw [congrArg Script.backgrounds htables]
    change ∀ name ∈ (Pool.ofNames ((readings.map Reading.assets).filterMap Prod.fst)).names, _
    rw [List.filterMap_map]
    exact forall_mem_names_ofNames fun reading hmem => (hclear reading hmem).2.image_le
  · rw [congrArg Script.music htables]
    change ∀ name ∈ (Pool.ofNames ((readings.map Reading.assets).filterMap Prod.snd)).names, _
    rw [List.filterMap_map]
    exact forall_mem_names_ofNames fun reading hmem => (hclear reading hmem).2.music_le
  · intro command hcommand
    obtain ⟨reading, hmem, hreading⟩ := exists_mem_of_forall₂ hreadings.flip hcommand
    rw [text?_eq_of_reading? hreading]
    exact (hclear reading hmem).2.text_le

/-! ## Filtering -/

/-- A script within limits that loads under larger ones loads under these. -/
theorem load_of_within (hlimits : limits.AtMost larger) {value : Json} {script : Script}
    (h : load larger value = .ok script) (hwithin : Within limits script) :
    load limits value = .ok script := by
  have hsound : script.Sound := sound_of_load h
  obtain ⟨readings, hreadings⟩ := hsound.exists_readings
  -- something loads, and it can be no other script since it also loads under the larger limits
  obtain ⟨other, hother⟩ := load_of_isScript (isScript_of_load h hreadings) hsound.nodup_ids
    hwithin.actors_le hwithin.ids_le (hreadings.length_eq ▸ hwithin.commands_le)
    fun reading hmem => by
      obtain ⟨command, hcommand, hreading⟩ := exists_mem_of_forall₂ hreadings hmem
      exact hwithin.reading hsound hcommand hreading
  have hsame : Except.ok script = Except.ok other := h.symm.trans (load_mono hlimits hother)
  rw [hother, Except.ok.inj hsame]

/-- Limits only filter: a value loads under limits exactly if it loads under larger ones, those that
never bind among them, and the script is within the limits. It is the same script then; so larger
limits refuse nothing that was loaded, and change nothing of it. -/
theorem load_iff_within (hlimits : limits.AtMost larger) {value : Json} {script : Script} :
    load limits value = .ok script ↔ load larger value = .ok script ∧ Within limits script :=
  ⟨fun h => ⟨load_mono hlimits h, within_of_load h⟩, fun h => load_of_within hlimits h.1 h.2⟩

/-- The note loads where nothing is limited, and it is within the standard limits; but not within
limits by which no id may be longer than three bytes. -/
theorem load_iff_within_note :
    ∃ script, load (.uniform (UInt64.size - 1)) note = .ok script ∧
      Within .standard script ∧ ¬Within { Limits.standard with idBytes := 3 } script := by
  obtain ⟨script, hload⟩ := exists_eq_ok (by decide +kernel : (load .standard note).toOption.isSome)
  have hstandard : Limits.standard.AtMost (.uniform (UInt64.size - 1)) := by
    constructor <;> decide
  have hstrict : ({ Limits.standard with idBytes := 3 } : Limits).AtMost .standard := by
    constructor <;> decide
  obtain ⟨hlarger, hwithin⟩ := (load_iff_within hstandard).mp hload
  refine ⟨script, hlarger, hwithin, fun hshort => ?_⟩
  have hrefused : (load { Limits.standard with idBytes := 3 } note).toOption.isNone := by
    decide +kernel
  rw [(load_iff_within hstrict).mpr ⟨hload, hshort⟩] at hrefused
  cases hrefused

end Script

end VisualNovel
