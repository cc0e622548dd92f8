import Mathlib.Tactic.Choose
import VisualNovel.Proofs.Json.Printed
import VisualNovel.Proofs.Json.SingleText
import VisualNovel.Proofs.Script.RoundTrip

/-!
# The two formats of a script

A script is saved as a JSON value, in which a single is widened to a double, or as a JSON text, in
which it is written by its shortest digits. What the text is read as has other doubles in it than
the value, but they are narrowed to the same singles (`exists_parse_pretty`). So whatever was
edited, both formats open, and open as the same script (`Reachable.loadText_toText`).
-/

namespace VisualNovel

namespace Manuscript

/-! ## Outlines can be printed -/

/-- A number that has a JSON form. -/
def Figure.Finite : Figure → Prop
  | .whole _ => True
  | .single x => x.isFinite

section Fits

variable {allowed : Nat}

/-- A written single is finite. -/
theorem fits_outlineSingle (x : Single) : (outlineSingle x).Fits Figure.Finite allowed := by
  rw [outlineSingle]
  split
  · next hfinite => exact .number hfinite
  · exact .null

/-- A written cell holds whole numbers, one container deep. -/
theorem fits_outlineCell (cell : UInt32 × UInt32) :
    (outlineCell cell).Fits Figure.Finite (allowed + 1) := by
  refine .array fun x hx => ?_
  simp only [List.mem_cons, List.not_mem_nil, or_false] at hx
  rcases hx with rfl | rfl
  · exact .number trivial
  · exact .number trivial

/-- A written vector holds finite numbers, one container deep. -/
theorem fits_outlineVector (v : Single × Single) :
    (outlineVector v).Fits Figure.Finite (allowed + 1) := by
  refine .array fun x hx => ?_
  simp only [List.mem_cons, List.not_mem_nil, or_false] at hx
  rcases hx with rfl | rfl
  · exact fits_outlineSingle v.1
  · exact fits_outlineSingle v.2

/-- An optional field fits where its value does. -/
theorem fits_optionalField {α : Type} {key : String} {outline : α → Outline}
    (h : ∀ a, (outline a).Fits Figure.Finite allowed) (value : Option α) :
    ∀ field ∈ optionalField key outline value, field.2.Fits Figure.Finite allowed := by
  cases value with
  | none => exact List.forall_mem_nil _
  | some a => exact List.forall_mem_singleton.mpr (h a)

/-- The values of a command's fields are at most arrays of numbers. -/
theorem Command.fits_fields (command : Command) :
    ∀ field ∈ command.fields, field.2.Fits Figure.Finite (allowed + 1) := by
  cases command with
  | sprite command =>
    simp only [Command.fields, Sprite.fields, List.forall_mem_append, List.forall_mem_singleton]
    refine ⟨⟨⟨⟨⟨.string _, ?_⟩, ?_⟩, ?_⟩, ?_⟩, ?_⟩
    · cases command.hide with
      | false => exact List.forall_mem_nil _
      | true => exact List.forall_mem_singleton.mpr (.bool true)
    · exact fits_optionalField .string _
    · exact fits_optionalField fits_outlineCell _
    · exact fits_optionalField fits_outlineVector _
    · exact fits_optionalField fits_outlineVector _
  | speak command =>
    simp only [Command.fields, Speak.fields, List.forall_mem_append, List.forall_mem_cons]
    exact ⟨⟨.string _, .string _, List.forall_mem_nil _⟩, fits_optionalField fits_outlineCell _⟩
  | wait time => exact List.forall_mem_singleton.mpr (fits_outlineSingle time)
  | background command =>
    simp only [Command.fields, Background.fields, List.forall_mem_append]
    exact ⟨fits_optionalField .string _, fits_optionalField .string _⟩

/-- A command is three containers deep at most. -/
theorem Command.fits_outline (command : Command) :
    command.outline.Fits Figure.Finite (allowed + 3) :=
  .object (List.forall_mem_singleton.mpr (.object command.fits_fields))

/-- The fields of an actor are one container deep at most. -/
theorem Actor.fits_fields (actor : Actor) :
    ∀ field ∈ actor.fields, field.2.Fits Figure.Finite (allowed + 1) := by
  simp only [Actor.fields, List.forall_mem_cons]
  exact ⟨.string _, .string _, fits_outlineCell _, List.forall_mem_nil _⟩

/-- Numbers stand at most five containers deep. -/
theorem fits_outline (manuscript : Manuscript) :
    manuscript.outline.Fits Figure.Finite (allowed + 5) := by
  refine .object (List.forall_mem_cons.mpr ⟨.object ?_, List.forall_mem_singleton.mpr (.array ?_)⟩)
  · rw [List.forall_mem_map]
    exact fun entry _ => .object entry.2.fits_fields
  · rw [List.forall_mem_map]
    exact fun command _ => command.fits_outline

end Fits

/-! ## What a text is read as -/

/-- What a figure is read as from a text, if its singles are read as some doubles. -/
def Figure.readAs (double : Single → Double) : Figure → Json.Number
  | .whole n => .integer n.toNat
  | .single x => .real (double x)

/-- What the numbers of a text are read as is faithful, so a printed manuscript is a value. -/
theorem exists_parse_pretty : ∃ number, Faithful number ∧ ∀ manuscript : Manuscript,
    Json.parse manuscript.pretty.toList = .ok (valueOf number manuscript.outline) := by
  have hread : ∀ x : Single, x.isFinite → ∃ y : Double,
      (Json.Number.real y).WrittenAs (x.text .jsonSingle).toList ∧ y.narrow = x :=
    fun _ => Json.exists_writtenAs_text
  choose! double hwritten hnarrow using hread
  have hnumber : ∀ figure : Figure, figure.Finite →
      (figure.readAs double).WrittenAs figure.text.toList := by
    rintro (n | x) hfinite
    · exact Json.writtenAs_toString n
    · exact hwritten x hfinite
  have hfaithful : Faithful (Figure.readAs double) :=
    ⟨fun _ => rfl, fun x hx => ⟨_, rfl, hnarrow x hx⟩⟩
  refine ⟨Figure.readAs double, hfaithful, fun manuscript => ?_⟩
  have hfits : manuscript.outline.Fits Figure.Finite Json.maxDepth := manuscript.fits_outline
  rw [Json.parse, pretty, Json.Tree.readText_print Json.Layout.blank_pretty hnumber hfits]
  rfl

end Manuscript

namespace Script

/-- Whatever was edited, a script within limits is saved in both formats; if the text is not too
long for them, both open, and open as the same script, with the actors that were saved and the
readings as they are saved. -/
theorem Reachable.loadText_toText {limits : Limits} {script : Script} (h : script.Reachable)
    (hwithin : Within limits script) :
    ∃ text value, script.toText = .ok text ∧ script.toJson = .ok value ∧
      (text.utf8ByteSize ≤ limits.scriptBytes →
        ∃ later, loadText limits text = .ok later ∧ Script.load limits value = .ok later ∧
          later.actors.Perm script.actors ∧
          later.commands.map later.reading? =
            script.commands.map fun command => (script.reading? command).map Reading.cleared) := by
  have hsound : script.Sound := h.sound
  obtain ⟨manuscript, later, hmanuscript, hload, hactors, hcommands⟩ :=
    hsound.exists_load_valueOf hwithin
  obtain ⟨number, hnumber, hparse⟩ := Manuscript.exists_parse_pretty
  refine ⟨manuscript.pretty, manuscript.toJson, ?_, ?_, fun hsize =>
    ⟨later, ?_, ?_, hactors ▸ castInOrder_perm hsound.nodup_ids, hcommands⟩⟩
  · rw [toText, hmanuscript]
    rfl
  · rw [toJson, hmanuscript]
    rfl
  · rw [loadText, Limits.checkScript, if_pos hsize, parseJson, hparse]
    exact hload number hnumber
  · exact hload _ Manuscript.faithful_toNumber

/-- A background with quotes in its name, and a time that no binary number is. -/
def pause : List Edit :=
  [.ensureBackground "\"west\" hall", .push (.background ⟨.set 0, .clear⟩),
    .push (.wait (.ofDecimal false 1 (-1)))]

/-- The pause opens from its text and from its value as the same script. -/
theorem loadText_toText_pause :
    ∃ text value later, (empty.editAll pause).toText = .ok text ∧
      (empty.editAll pause).toJson = .ok value ∧
      loadText .standard text = .ok later ∧ load .standard value = .ok later ∧
      later.commands.map later.reading? =
        (empty.editAll pause).commands.map (empty.editAll pause).reading? := by
  have hwithin : Within .standard (empty.editAll pause) := by
    constructor <;> decide +kernel
  obtain ⟨text, value, htext, hvalue, hagain⟩ :=
    (Reachable.empty.editAll pause).loadText_toText hwithin
  have hsize : text.utf8ByteSize ≤ Limits.standard.scriptBytes := by
    have hshort : (empty.editAll pause).toText.toOption.all fun text =>
        text.utf8ByteSize ≤ Limits.standard.scriptBytes := by
      decide +kernel
    rw [htext] at hshort
    exact of_decide_eq_true hshort
  obtain ⟨later, hloadText, hload, -, hreadings⟩ := hagain hsize
  exact ⟨text, value, later, htext, hvalue, hloadText, hload, hreadings.trans (by decide +kernel)⟩

end Script

end VisualNovel
