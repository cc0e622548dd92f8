import Mathlib.Algebra.Group.Int.Defs
import Mathlib.Algebra.Group.Nat.Defs
import VisualNovel.Proofs.Manuscript.Reader
import VisualNovel.Proofs.Script.Meaning
import VisualNovel.Proofs.Script.Recognized

/-!
# The typed form of a script

A JSON value is loaded as a script by readers of its fields, or it is read as a manuscript by the
types of its fields. The types admit more: `null` for an optional field, an array of its fields for
a record, and they round an integer at once. A value that loads is *spelled out*, which means that
it has neither of the first two (`IsScript.spelledOut`).

For a value that is spelled out the two forms agree, as long as its integers do not depend on how
they are rounded: what it says is what is written for the manuscript (`isScript_iff_written`). So a
value that can be read as a manuscript loads exactly if it is spelled out and what is written for
the manuscript loads (`load_iff_typed`).
-/

namespace VisualNovel

open Outcome Manuscript

/-- A number that is rounded to the same single at once and by way of a double. -/
def Json.Number.RoundsAlike (n : Json.Number) : Prop := n.toSingle = n.toDouble.narrow

theorem Json.Number.roundsAlike_real (x : Double) : (real x).RoundsAlike := rfl

/-- Only an integer beyond the significand of a double may be rounded in two ways. -/
theorem Json.Number.roundsAlike_integer {n : Int} (h : n.natAbs < 2 ^ 53) :
    (integer n).RoundsAlike :=
  (Binary.narrow_ofInt h).symm

namespace Grammar

/-! ## Values for which the two forms agree -/

/-- The body of a command is an object, and none of its fields is `null`. -/
def SpelledOutCommand (command : Json) : Prop :=
  ∃ kind body, HasBody command kind body ∧ ∀ key ∈ kind.fields, body.lookup key ≠ some .null

/-- A script is spelled out if all its records are objects, and no field of a command is `null`. -/
def SpelledOut (value : Json) : Prop :=
  ∃ fields actors commands, value = .object fields ∧
    fields.lookup "actors" = some (.object actors) ∧
    fields.lookup "commands" = some (.array commands) ∧
    (∀ entry ∈ actors, ∃ fields, entry.2 = .object fields) ∧
    ∀ command ∈ commands, SpelledOutCommand command

/-- The numbers of a field round alike: it is a number, or an array with numbers. -/
def RoundsAlike : Json → Prop
  | .number n => n.RoundsAlike
  | .array elements => ∀ n : Json.Number, .number n ∈ elements → n.RoundsAlike
  | _ => True

/-- The numbers of all fields of a command round alike. -/
def FieldsRoundAlike (command : Json) : Prop :=
  ∀ kind body, HasBody command kind body → ∀ key ∈ kind.fields, ∀ value,
    body.lookup key = some value → RoundsAlike value

/-- The numbers of all commands of a script round alike. -/
def NumbersRoundAlike (value : Json) : Prop :=
  ∀ fields commands, value = .object fields →
    fields.lookup "commands" = some (.array commands) → ∀ command ∈ commands,
      FieldsRoundAlike command

/-! ## Bodies, field by field -/

section Bodies

variable {cast : List Actor} {body : List (String × Json)}

/-- What a body says as a sprite command, field by field. -/
theorem saysBody_sprite_iff {id : String} {hide : Bool} {actor : Option Actor}
    {portrait : Option UInt32} {pos size : Option Vec2} :
    SaysBody cast body (.sprite id hide actor portrait pos size) ↔
      body.lookup "id" = some (.string id) ∧
        (∃ truth, Option.Rel IsTruth (body.lookup "hide") truth ∧ truth.getD false = hide) ∧
        Option.Rel (IsMember cast) (body.lookup "actor") actor ∧
        Option.Rel (IsCell actor) (body.lookup "portrait") portrait ∧
        Option.Rel IsVector (body.lookup "pos") pos ∧
        Option.Rel IsVector (body.lookup "size") size := by
  constructor
  · intro h
    cases h with
    | sprite hid hactor hhide hportrait hpos hsize =>
      exact ⟨hid, ⟨_, hhide, rfl⟩, hactor, hportrait, hpos, hsize⟩
  · rintro ⟨hid, ⟨_, hhide, rfl⟩, hactor, hportrait, hpos, hsize⟩
    exact .sprite hid hactor hhide hportrait hpos hsize

/-- What a body says as a speak command, field by field. -/
theorem saysBody_speak_iff {actor : Actor} {portrait : Option UInt32} {text : String} :
    SaysBody cast body (.speak actor portrait text) ↔
      (∃ value, body.lookup "actor" = some value ∧ IsMember cast value actor) ∧
        (∃ spoken, Option.Rel IsText (body.lookup "text") spoken ∧ spoken.getD "" = text) ∧
        Option.Rel (IsCell (some actor)) (body.lookup "portrait") portrait := by
  constructor
  · intro h
    cases h with
    | speak hvalue hmember htext hportrait =>
      exact ⟨⟨_, hvalue, hmember⟩, ⟨_, htext, rfl⟩, hportrait⟩
  · rintro ⟨⟨_, hvalue, hmember⟩, ⟨_, htext, rfl⟩, hportrait⟩
    exact .speak hvalue hmember htext hportrait

/-- What a body says as a wait. -/
theorem saysBody_wait_iff {duration : Single} :
    SaysBody cast body (.wait duration) ↔
      (∃ value, body.lookup "time" = some value ∧ IsSingle value duration) ∧ ¬duration < 0 := by
  constructor
  · intro h
    cases h with
    | wait hvalue hsingle hneg => exact ⟨⟨_, hvalue, hsingle⟩, hneg⟩
  · rintro ⟨⟨_, hvalue, hsingle⟩, hneg⟩
    exact .wait hvalue hsingle hneg

/-- What a body says as a background command, field by field. -/
theorem saysBody_background_iff {image music : AssetReading} :
    SaysBody cast body (.background image music) ↔
      IsAsset (body.lookup "image") image ∧ IsAsset (body.lookup "music") music := by
  constructor
  · intro h
    cases h with
    | background himage hmusic => exact ⟨himage, hmusic⟩
  · rintro ⟨himage, hmusic⟩
    exact .background himage hmusic

end Bodies

/-! ## What is said is spelled out -/

section SpelledOut

variable {cast : List Actor}

/-- An optional field that means something is not `null`. -/
theorem ne_null_of_rel {α : Type} {means : Json → α → Prop} (hnull : ∀ a, ¬means .null a)
    {entry : Option Json} {result : Option α} (h : Option.Rel means entry result) :
    entry ≠ some .null := by
  rintro rfl
  cases h with
  | some hmeans => exact hnull _ hmeans

/-- A cell is not written as null. -/
theorem ne_null_of_isCell {actor : Option Actor} {entry : Option Json} {portrait : Option UInt32}
    (h : Option.Rel (IsCell actor) entry portrait) : entry ≠ some .null := by
  refine ne_null_of_rel (fun cell => ?_) h
  rintro ⟨_, _, _, -, ⟨_, _, harray, -⟩, -⟩
  exact absurd harray nofun

/-- A vector is not written as null. -/
theorem ne_null_of_isVector {entry : Option Json} {v : Option Vec2}
    (h : Option.Rel IsVector entry v) : entry ≠ some .null := by
  refine ne_null_of_rel (fun v => ?_) h
  rintro ⟨_, _, harray, -⟩
  exact absurd harray nofun

/-- An image or track is not written as null. -/
theorem ne_null_of_isAsset {entry : Option Json} {change : AssetReading}
    (h : IsAsset entry change) : entry ≠ some .null := by
  rintro rfl
  cases h

/-- No field of a body that says something is `null`. -/
theorem SaysBody.ne_null {body : List (String × Json)} {reading : Reading}
    (h : SaysBody cast body reading) :
    ∀ key ∈ reading.kind.fields, body.lookup key ≠ some .null := by
  cases reading with
  | sprite id hide actor portrait pos size =>
    obtain ⟨hid, ⟨_, hhide, -⟩, hactor, hportrait, hpos, hsize⟩ := saysBody_sprite_iff.mp h
    simp only [Reading.kind, CommandKind.fields, List.forall_mem_cons]
    exact ⟨hid ▸ nofun, ne_null_of_rel nofun hhide, ne_null_of_rel (fun _ h => nomatch h.1) hactor,
      ne_null_of_isCell hportrait, ne_null_of_isVector hpos, ne_null_of_isVector hsize,
      List.forall_mem_nil _⟩
  | speak actor portrait text =>
    obtain ⟨⟨_, hvalue, rfl, -⟩, ⟨_, htext, -⟩, hportrait⟩ := saysBody_speak_iff.mp h
    simp only [Reading.kind, CommandKind.fields, List.forall_mem_cons]
    exact ⟨hvalue ▸ nofun, ne_null_of_rel nofun htext, ne_null_of_isCell hportrait,
      List.forall_mem_nil _⟩
  | wait duration =>
    obtain ⟨⟨_, hvalue, _, rfl, -⟩, -⟩ := saysBody_wait_iff.mp h
    exact List.forall_mem_singleton.mpr (hvalue ▸ nofun)
  | background image music =>
    obtain ⟨himage, hmusic⟩ := saysBody_background_iff.mp h
    simp only [Reading.kind, CommandKind.fields, List.forall_mem_cons]
    exact ⟨ne_null_of_isAsset himage, ne_null_of_isAsset hmusic, List.forall_mem_nil _⟩

/-- A value that is a script is spelled out. -/
theorem IsScript.spelledOut {value : Json} {readings : List Reading}
    (h : IsScript value cast readings) : SpelledOut value := by
  obtain ⟨fields, actors, commands, rfl, hactors, hcommands, hcast, hmeans⟩ := h
  refine ⟨fields, actors, commands, rfl, hactors, hcommands, fun entry hentry => ?_,
    fun command hcommand => ?_⟩
  · obtain ⟨actor, -, -, fields, hfields, -⟩ := exists_mem_of_forall₂ hcast.flip hentry
    exact ⟨fields, hfields⟩
  · obtain ⟨reading, -, body, hbody, hsays⟩ := exists_mem_of_forall₂ hmeans.flip hcommand
    exact ⟨reading.kind, body, hbody, hsays.ne_null⟩

end SpelledOut

/-! ## Numbers -/

/-- A number stands for what it is narrowed to, if that is finite. -/
theorem isSingle_number_iff {n : Json.Number} {x : Single} :
    IsSingle (.number n) x ↔ n.toDouble.narrow = x ∧ x.isFinite := by
  simp only [IsSingle, Json.Tree.number.injEq, exists_eq_left']

/-- A written single stands for itself, if it is finite. -/
theorem isSingle_outline_iff {x y : Single} :
    IsSingle (valueOf Figure.toNumber (outlineSingle x)) y ↔ x = y ∧ y.isFinite := by
  rw [outlineSingle]
  split
  · show IsSingle (.number (.real x.widen)) y ↔ _
    rw [isSingle_number_iff]
    show x.widen.narrow = y ∧ _ ↔ _
    rw [Binary.narrow_widen]
  · next hinfinite =>
    constructor
    · rintro ⟨_, hnumber, -⟩
      cases hnumber
    · rintro ⟨rfl, hfinite⟩
      exact absurd hfinite hinfinite

/-- A number that was read means what is written for it. Where it is not finite, neither means
anything. -/
theorem isSingle_iff_written {value : Json} {x y : Single}
    (hread : Reader.single (source value) = some x) (halike : RoundsAlike value) :
    IsSingle value y ↔ IsSingle (valueOf Figure.toNumber (outlineSingle x)) y := by
  obtain ⟨n, rfl, rfl⟩ := Reader.single_eq_some_iff.mp hread
  rw [isSingle_number_iff, isSingle_outline_iff, show n.toSingle = n.toDouble.narrow from halike]

/-- A vector stands for the same once it is read in the typed form and written again. -/
theorem isVector_iff_written {value : Json} {pair : Single × Single} {v : Vec2}
    (hread : Reader.pair .single (source value) = some pair) (halike : RoundsAlike value) :
    IsVector value v ↔ IsVector (valueOf Figure.toNumber (outlineVector pair)) v := by
  obtain ⟨a, b, rfl, hfst, hsnd⟩ := Reader.pair_eq_some_iff.mp hread
  have helement {element : Json} {x y : Single} (hmem : element ∈ [a, b])
      (helement : Reader.single (source element) = some x) :
      IsSingle element y ↔ IsSingle (valueOf Figure.toNumber (outlineSingle x)) y := by
    obtain ⟨n, rfl, -⟩ := Reader.single_eq_some_iff.mp helement
    exact isSingle_iff_written helement (halike n hmem)
  rw [outlineVector, valueOf_array]
  simp only [IsVector, IsPair, List.map_cons, List.map_nil, Json.Tree.array.injEq, List.cons.injEq,
    and_true]
  constructor
  · rintro ⟨_, _, ⟨rfl, rfl⟩, hx, hy⟩
    exact ⟨_, _, ⟨rfl, rfl⟩, (helement (by simp) hfst).mp hx, (helement (by simp) hsnd).mp hy⟩
  · rintro ⟨_, _, ⟨rfl, rfl⟩, hx, hy⟩
    exact ⟨_, _, ⟨rfl, rfl⟩, (helement (by simp) hfst).mpr hx, (helement (by simp) hsnd).mpr hy⟩

/-! ## Fields -/

section Fields

open Record

variable {α : Type} {entries : List (String × Json)} {key : String} {reader : Reader α}

/-- A string that is read from a field stands there. -/
theorem lookup_of_required_string {s : String} (h : required .string (field entries key) = some s) :
    entries.lookup key = some (.string s) := by
  obtain ⟨value, hvalue, hread⟩ := required_eq_some_iff.mp h
  rw [hvalue, Reader.string_eq_some_iff.mp hread]

/-- A pair of whole numbers that is read from a field stands there as it is written. -/
theorem lookup_of_required_cell {cell : UInt32 × UInt32}
    (h : required (.pair .whole) (field entries key) = some cell) :
    entries.lookup key = some (valueOf Figure.toNumber (outlineCell cell)) := by
  obtain ⟨value, hvalue, hread⟩ := required_eq_some_iff.mp h
  rw [hvalue, Reader.cell_eq_some_iff.mp hread]

/-- An optional field that was read and is not `null` is absent or a value. -/
theorem lookup_cases (hnull : entries.lookup key ≠ some .null) {result : Option α}
    (h : defaulted (.optional reader) none (field entries key) = some result) :
    (entries.lookup key = none ∧ result = none) ∨
      ∃ value a, entries.lookup key = some value ∧ reader (source value) = some a ∧
        result = some a := by
  obtain ⟨hnone, rfl⟩ | ⟨value, hvalue, hread⟩ := defaulted_eq_some_iff.mp h
  · exact Or.inl ⟨hnone, rfl⟩
  · obtain ⟨rfl, -⟩ | ⟨a, -, ha, rfl⟩ := Reader.optional_eq_some_iff.mp hread
    · exact absurd hvalue hnull
    · exact Or.inr ⟨value, a, hvalue, ha, rfl⟩

/-- Where null does not stand, an optional string is in its field just as it is read. -/
theorem lookup_of_optional_string (hnull : entries.lookup key ≠ some .null) {name : Option String}
    (h : defaulted (.optional .string) none (field entries key) = some name) :
    entries.lookup key = (name.map Json.Tree.string).map (valueOf Figure.toNumber) := by
  obtain ⟨hnone, rfl⟩ | ⟨value, s, hvalue, hread, rfl⟩ := lookup_cases hnull h
  · exact hnone
  · rw [hvalue, Reader.string_eq_some_iff.mp hread]
    rfl

/-- Where null does not stand, an optional cell is in its field just as it is read. -/
theorem lookup_of_optional_cell (hnull : entries.lookup key ≠ some .null)
    {cell : Option (UInt32 × UInt32)}
    (h : defaulted (.optional (.pair .whole)) none (field entries key) = some cell) :
    entries.lookup key = (cell.map outlineCell).map (valueOf Figure.toNumber) := by
  obtain ⟨hnone, rfl⟩ | ⟨value, cell, hvalue, hread, rfl⟩ := lookup_cases hnull h
  · exact hnone
  · rw [hvalue, Reader.cell_eq_some_iff.mp hread]
    rfl

/-- A position or size means what is written for it. -/
theorem rel_isVector_iff_written (hnull : entries.lookup key ≠ some .null)
    (halike : ∀ value, entries.lookup key = some value → RoundsAlike value)
    {pair : Option (Single × Single)}
    (h : defaulted (.optional (.pair .single)) none (field entries key) = some pair)
    {v : Option Vec2} :
    Option.Rel IsVector (entries.lookup key) v ↔
      Option.Rel IsVector ((pair.map outlineVector).map (valueOf Figure.toNumber)) v := by
  obtain ⟨hnone, rfl⟩ | ⟨value, pair, hvalue, hread, rfl⟩ := lookup_cases hnull h
  · rw [hnone, Option.map_none, Option.map_none]
  · rw [hvalue, Option.map_some, Option.map_some]
    cases v with
    | none => simp
    | some v =>
      rw [Option.rel_some_some, Option.rel_some_some]
      exact isVector_iff_written hread (halike value hvalue)

/-- A time means what is written for it. -/
theorem exists_isSingle_iff_written
    (halike : ∀ value, entries.lookup key = some value → RoundsAlike value) {time x : Single}
    (h : required .single (field entries key) = some time) :
    (∃ value, entries.lookup key = some value ∧ IsSingle value x) ↔
      IsSingle (valueOf Figure.toNumber (outlineSingle time)) x := by
  obtain ⟨value, hvalue, hread⟩ := required_eq_some_iff.mp h
  simp only [hvalue, Option.some.injEq, exists_eq_left']
  exact isSingle_iff_written hread (halike value hvalue)

/-- A field that is absent has its default. -/
theorem exists_rel_none_iff {means : Json → α → Prop} {default a : α} :
    (∃ x, Option.Rel means none x ∧ x.getD default = a) ↔ default = a := by
  constructor
  · rintro ⟨x, hx, rfl⟩
    cases hx
    rfl
  · rintro rfl
    exact ⟨none, .none, rfl⟩

/-- Where a field is present, its default does not matter. -/
theorem exists_rel_some_iff {means : Json → α → Prop} {value : Json} {default a b : α}
    (h : ∀ x, means value x ↔ b = x) :
    (∃ x, Option.Rel means (some value) x ∧ x.getD default = a) ↔ b = a := by
  constructor
  · rintro ⟨x, hx, rfl⟩
    cases hx with
    | some hmeans => exact (h _).mp hmeans
  · rintro rfl
    exact ⟨some b, .some ((h b).mpr rfl), rfl⟩

/-- A truth value stands for itself. -/
theorem isTruth_bool_iff {b x : Bool} : IsTruth (.bool b) x ↔ b = x := by
  rw [IsTruth, Json.Tree.bool.injEq]

/-- A string stands for itself. -/
theorem isText_string_iff {s x : String} : IsText (.string s) x ↔ s = x := by
  rw [IsText, Json.Tree.string.injEq]

/-- A flag is read as what it means or, if it is absent, as false. -/
theorem exists_isTruth_iff {flag b : Bool}
    (h : defaulted .bool false (field entries key) = some flag) :
    (∃ truth, Option.Rel IsTruth (entries.lookup key) truth ∧ truth.getD false = b) ↔
      flag = b := by
  obtain ⟨hnone, rfl⟩ | ⟨value, hvalue, hread⟩ := defaulted_eq_some_iff.mp h
  · rw [hnone, exists_rel_none_iff]
  · rw [hvalue, Reader.bool_eq_some_iff.mp hread, exists_rel_some_iff fun _ => isTruth_bool_iff]

/-- A flag is written only where it is true. -/
theorem exists_isTruth_written_iff {flag b : Bool} :
    (∃ truth, Option.Rel IsTruth (if flag then some (.bool true) else none) truth ∧
      truth.getD false = b) ↔ flag = b := by
  cases flag with
  | false => exact exists_rel_none_iff
  | true => exact exists_rel_some_iff fun _ => isTruth_bool_iff

/-- A text is read as what it means or, if it is absent, as the empty text. -/
theorem exists_isText_iff {text s : String}
    (h : defaulted .string "" (field entries key) = some text) :
    (∃ spoken, Option.Rel IsText (entries.lookup key) spoken ∧ spoken.getD "" = s) ↔
      text = s := by
  obtain ⟨hnone, rfl⟩ | ⟨value, hvalue, hread⟩ := defaulted_eq_some_iff.mp h
  · rw [hnone, exists_rel_none_iff]
  · rw [hvalue, Reader.string_eq_some_iff.mp hread, exists_rel_some_iff fun _ => isText_string_iff]

end Fields

/-! ## Commands and actors -/

section Commands

open Record

variable {cast : List Actor} {value : Json}

/-- The body of a command says what is written for it. -/
theorem saysBody_iff_written {body : List (String × Json)} (hkeys : (body.map Prod.fst).Nodup)
    {command : Manuscript.Command} (hread : command.ReadFrom (source (.object body)))
    (hnull : ∀ key ∈ command.kind.fields, body.lookup key ≠ some .null)
    (halike : ∀ key ∈ command.kind.fields, ∀ value, body.lookup key = some value →
      RoundsAlike value) {reading : Reading} (hkind : reading.kind = command.kind) :
    SaysBody cast body reading ↔
      SaysBody cast (valueEntries Figure.toNumber command.fields) reading := by
  cases command with
  | sprite command =>
    obtain ⟨hid, hhide, hactor, hportrait, hpos, hsize⟩ := (readSprite_eq_some_iff hkeys).mp hread
    obtain ⟨wid, whide, wactor, wportrait, wpos, wsize⟩ :=
      @Sprite.find?_fields Figure.toNumber .root command
    change ∀ key ∈ CommandKind.sprite.fields, _ at hnull halike
    cases reading with
    | sprite id hide actor portrait pos size =>
      show _ ↔ SaysBody cast (valueEntries Figure.toNumber command.fields) _
      simp only [Section.find?] at wid whide wactor wportrait wpos wsize
      rw [saysBody_sprite_iff, saysBody_sprite_iff, wid, whide, wactor, wportrait, wpos, wsize,
        lookup_of_required_string hid, exists_isTruth_iff hhide, exists_isTruth_written_iff,
        lookup_of_optional_string (hnull "actor" (by decide)) hactor,
        lookup_of_optional_cell (hnull "portrait" (by decide)) hportrait,
        rel_isVector_iff_written (hnull "pos" (by decide)) (halike "pos" (by decide)) hpos,
        rel_isVector_iff_written (hnull "size" (by decide)) (halike "size" (by decide)) hsize]
    | _ => cases hkind
  | speak command =>
    obtain ⟨hactor, htext, hportrait⟩ := (readSpeak_eq_some_iff hkeys).mp hread
    obtain ⟨wactor, wtext, wportrait⟩ := @Speak.find?_fields Figure.toNumber .root command
    change ∀ key ∈ CommandKind.speak.fields, _ at hnull
    cases reading with
    | speak actor portrait text =>
      show _ ↔ SaysBody cast (valueEntries Figure.toNumber command.fields) _
      simp only [Section.find?] at wactor wtext wportrait
      rw [saysBody_speak_iff, saysBody_speak_iff, wactor, wtext, wportrait,
        lookup_of_required_string hactor, exists_isText_iff htext,
        exists_rel_some_iff fun _ => isText_string_iff,
        lookup_of_optional_cell (hnull "portrait" (by decide)) hportrait]
    | _ => cases hkind
  | wait time =>
    have htime := (readWait_eq_some_iff hkeys).mp hread
    have wtime : (valueEntries Figure.toNumber (Manuscript.Command.wait time).fields).lookup
        "time" = some (valueOf Figure.toNumber (outlineSingle time)) := rfl
    change ∀ key ∈ CommandKind.wait.fields, _ at halike
    cases reading with
    | wait duration =>
      rw [saysBody_wait_iff, saysBody_wait_iff, wtime,
        exists_isSingle_iff_written (halike "time" (by decide)) htime]
      simp only [Option.some.injEq, exists_eq_left']
    | _ => cases hkind
  | background command =>
    obtain ⟨himage, hmusic⟩ := (readBackground_eq_some_iff hkeys).mp hread
    obtain ⟨wimage, wmusic⟩ := @Background.find?_fields Figure.toNumber .root command
    change ∀ key ∈ CommandKind.background.fields, _ at hnull
    cases reading with
    | background image music =>
      show _ ↔ SaysBody cast (valueEntries Figure.toNumber command.fields) _
      simp only [Section.find?] at wimage wmusic
      rw [saysBody_background_iff, saysBody_background_iff, wimage, wmusic,
        lookup_of_optional_string (hnull "image" (by decide)) himage,
        lookup_of_optional_string (hnull "music" (by decide)) hmusic]
    | _ => cases hkind

/-- A single key leads to its value, and no other key does. -/
theorem lookup_singleton_key (kind other : CommandKind) (value : Json) :
    [(kind.key, value)].lookup other.key = if other = kind then some value else none := by
  cases kind <;> cases other <;> rfl

/-- An object with the key of one kind alone has what is under it as the body of this kind. -/
theorem hasBody_singleton_iff {kind other : CommandKind} {body : List (String × Json)} :
    HasBody (.object [(kind.key, value)]) other body ↔ other = kind ∧ value = .object body := by
  simp only [HasBody, Json.Tree.object.injEq, exists_eq_left', lookup_singleton_key]
  constructor
  · rintro ⟨hbody, -⟩
    split at hbody
    · next hsame => exact ⟨hsame, Option.some.inj hbody⟩
    · cases hbody
  · rintro ⟨rfl, rfl⟩
    exact ⟨if_pos rfl, fun third hne => if_neg hne⟩

/-- The numbers of a command round alike if those in its body do. -/
theorem fieldsRoundAlike_singleton (kind : CommandKind) {body : List (String × Json)}
    (h : ∀ entry ∈ body, RoundsAlike entry.2) :
    FieldsRoundAlike (.object [(kind.key, .object body)]) := by
  intro _ _ hhas key _ value hvalue
  obtain ⟨-, hbody⟩ := hasBody_singleton_iff.mp hhas
  obtain rfl := Json.Tree.object.inj hbody
  exact h _ (Json.mem_of_lookup hvalue)

/-- A command that is spelled out says what is written for it. -/
theorem says_iff_written (hordered : value.Ordered) {command : Manuscript.Command}
    (hread : readCommand (source value) = some command) (hspelled : SpelledOutCommand value)
    (halike : FieldsRoundAlike value) {reading : Reading} :
    Says cast value reading ↔ Says cast (valueOf Figure.toNumber command.outline) reading := by
  obtain ⟨content, rfl, hbody⟩ := readCommand_eq_some_iff.mp hread
  obtain ⟨kind, body, hhas, hnull⟩ := hspelled
  have hfields := halike kind body hhas
  obtain ⟨rfl, rfl⟩ := hasBody_singleton_iff.mp hhas
  have hkeys := (hordered.of_lookup List.lookup_cons_self).keysIncrease.nodup
  rw [valueOf_outline]
  simp only [Says, hasBody_singleton_iff, Json.Tree.object.injEq]
  constructor
  · rintro ⟨_, ⟨hkind, rfl⟩, hmeans⟩
    exact ⟨_, ⟨hkind, rfl⟩, (saysBody_iff_written hkeys hbody hnull hfields hkind).mp hmeans⟩
  · rintro ⟨_, ⟨hkind, rfl⟩, hmeans⟩
    exact ⟨_, ⟨hkind, rfl⟩, (saysBody_iff_written hkeys hbody hnull hfields hkind).mpr hmeans⟩

/-- The entry of an actor gives the actor that is written for it. -/
theorem isActor_iff_written {fields : List (String × Json)} (hkeys : (fields.map Prod.fst).Nodup)
    {typed : Manuscript.Actor} (hread : readActor (source (.object fields)) = some typed)
    {id : String} {actor : Actor} :
    IsActor (id, .object fields) actor ↔
      IsActor (id, .object (valueEntries Figure.toNumber typed.fields)) actor := by
  obtain ⟨hname, hsheet, hsize⟩ := (readActor_eq_some_iff hkeys).mp hread
  obtain ⟨wname, wsheet, wsize⟩ := @Actor.find?_fields Figure.toNumber .root typed
  simp only [Section.find?] at wname wsheet wsize
  simp only [IsActor, Json.Tree.object.injEq, exists_eq_left', lookup_of_required_string hname,
    lookup_of_required_string hsheet, lookup_of_required_cell hsize, wname, wsheet, wsize]

end Commands

/-! ## Scripts -/

section Scripts

variable {cast : List Actor} {fields actors : List (String × Json)} {commands : List Json}

/-- The cast of an object and the readings of its commands. -/
theorem isScript_object_iff (hactors : fields.lookup "actors" = some (.object actors))
    (hcommands : fields.lookup "commands" = some (.array commands)) {readings : List Reading} :
    IsScript (.object fields) cast readings ↔
      List.Forall₂ IsActor actors cast ∧ List.Forall₂ (Says cast) commands readings := by
  constructor
  · rintro ⟨_, _, _, ⟨rfl⟩, hcast, hlist, hmeans⟩
    rw [hactors, Option.some.injEq, Json.Tree.object.injEq] at hcast
    rw [hcommands, Option.some.injEq, Json.Tree.array.injEq] at hlist
    rwa [hcast, hlist]
  · intro hmeans
    exact ⟨fields, actors, commands, rfl, hactors, hcommands, hmeans⟩

/-- A cast is the same once it is read in the typed form and written again. -/
theorem forall₂_isActor_iff_written (hordered : (Json.Tree.object actors : Json).Ordered)
    {typed : List (String × Manuscript.Actor)}
    (hread : readCast (source (.object actors)) = some typed)
    (hspelled : ∀ entry ∈ actors, ∃ fields, entry.2 = .object fields) :
    List.Forall₂ IsActor actors cast ↔ List.Forall₂ IsActor (typed.map fun entry =>
      (entry.1, .object (valueEntries Figure.toNumber entry.2.fields))) cast := by
  have htyped := (readCast_eq_some_iff hordered.keysIncrease).mp hread
  have heach : ∀ entry ∈ actors, entry.2.Ordered ∧ ∃ fields, entry.2 = .object fields :=
    fun entry hentry => ⟨hordered.of_mem_entries entry hentry, hspelled entry hentry⟩
  rw [List.forall₂_map_left_iff]
  apply forall₂_iff_of_forall₂
  refine ((List.forall₂_and_left _ _).mpr ⟨heach, htyped⟩).imp ?_
  rintro ⟨id, _⟩ typed ⟨⟨hentry, fields, rfl⟩, rfl, hactor⟩ actor
  exact isActor_iff_written hentry.keysIncrease.nodup hactor

/-- Commands say the same once they are read in the typed form and written again. -/
theorem forall₂_says_iff_written (hordered : (Json.Tree.array commands : Json).Ordered)
    {typed : List Manuscript.Command}
    (hread : List.Forall₂ (fun command typed => readCommand (source command) = some typed) commands
      typed)
    (hspelled : ∀ command ∈ commands, SpelledOutCommand command ∧ FieldsRoundAlike command)
    {readings : List Reading} :
    List.Forall₂ (Says cast) commands readings ↔ List.Forall₂ (Says cast)
      (typed.map fun command => valueOf Figure.toNumber command.outline) readings := by
  have heach : ∀ command ∈ commands,
      command.Ordered ∧ SpelledOutCommand command ∧ FieldsRoundAlike command :=
    fun command hcommand => ⟨hordered.of_mem_elements command hcommand, hspelled command hcommand⟩
  rw [List.forall₂_map_left_iff]
  apply forall₂_iff_of_forall₂
  refine ((List.forall₂_and_left _ _).mpr ⟨heach, hread⟩).imp ?_
  rintro command typed ⟨⟨hcommand, hspelled, halike⟩, hread⟩ reading
  exact says_iff_written hcommand hread hspelled halike

/-- A value that is spelled out says what is written for the manuscript that is read of it. -/
theorem isScript_iff_written {value : Json} (hordered : value.Ordered) {manuscript : Manuscript}
    (hread : Manuscript.ofJson? value = some manuscript) (hspelled : SpelledOut value)
    (halike : NumbersRoundAlike value) {readings : List Reading} :
    IsScript value cast readings ↔ IsScript manuscript.toJson cast readings := by
  obtain ⟨fields, actors, commands, rfl, hactors, hcommands, hobjects, hbodies⟩ := hspelled
  obtain ⟨hreadCast, hreadList⟩ := (read_eq_some_iff hordered.keysIncrease.nodup).mp hread
  obtain ⟨_, hcast, hreadCast⟩ := required_eq_some_iff.mp hreadCast
  obtain rfl := Option.some.inj (hactors.symm.trans hcast)
  obtain ⟨_, hlist, hreadList⟩ := required_eq_some_iff.mp hreadList
  obtain rfl := Option.some.inj (hcommands.symm.trans hlist)
  obtain ⟨_, ⟨rfl⟩, hreadEach⟩ := Reader.list_eq_some_iff.mp hreadList
  have hwritten : manuscript.toJson = _ :=
    valueOf_manuscript (keysIncrease_of_readCast hreadCast)
  rw [hwritten, isScript_object_iff hactors hcommands, isScript_object_iff rfl rfl,
    forall₂_isActor_iff_written (hordered.of_lookup hactors) hreadCast hobjects,
    forall₂_says_iff_written (hordered.of_lookup hcommands) hreadEach fun command hcommand =>
      ⟨hbodies command hcommand, halike fields commands rfl hcommands command hcommand⟩]

end Scripts

end Grammar

namespace Script

open Grammar

/-- Whatever the limits are, a value that can be read as a manuscript loads exactly if it is spelled
out and what is written for the manuscript loads, and it loads as the same script. So loading it and
loading what is written agree where it is spelled out, and otherwise just if both fail. -/
theorem load_iff_typed {value : Json} (hordered : value.Ordered) {manuscript : Manuscript}
    (hread : Manuscript.ofJson? value = some manuscript) (halike : NumbersRoundAlike value)
    {limits : Limits} {script : Script} :
    load limits value = .ok script ↔
      SpelledOut value ∧ load limits manuscript.toJson = .ok script := by
  constructor
  · intro h
    obtain ⟨readings, hreadings⟩ := (sound_of_load h).exists_readings
    have hspelled : SpelledOut value := (isScript_of_load h hreadings).spelledOut
    exact ⟨hspelled, load_of_same_meaning h fun cast readings =>
      (isScript_iff_written hordered hread hspelled halike).mp⟩
  · rintro ⟨hspelled, h⟩
    exact load_of_same_meaning h fun cast readings =>
      (isScript_iff_written hordered hread hspelled halike).mpr

/-- A script with integers where singles are read, and with a default that is written out. -/
def entrance : Json :=
  .object
    [("actors", .object
      [("ann", .object [("name", .string "Ann"), ("sheet", .string "ann.png"),
        ("sheetSize", .array [.number (.integer 2), .number (.integer 3)])])]),
    ("commands", .array
      [.object [("sprite", .object [("actor", .string "ann"), ("hide", .bool false),
        ("id", .string "left"), ("pos", .array [.number (.integer 16777217),
          .number (.real (.ofDecimal false 5 (-1)))])])],
      .object [("wait", .object [("time", .number (.integer 3))])]])]

/-- The entrance is loaded as the same script directly and by way of the typed form. -/
theorem load_iff_typed_entrance :
    ∃ manuscript script, entrance.Ordered ∧ Manuscript.ofJson? entrance = some manuscript ∧
      NumbersRoundAlike entrance ∧ load .standard entrance = .ok script ∧ SpelledOut entrance ∧
      load .standard manuscript.toJson = .ok script := by
  have hcanonical : entrance.canonical = entrance := rfl
  have hordered : entrance.Ordered := hcanonical ▸ Json.Tree.ordered_canonical entrance
  obtain ⟨manuscript, hread⟩ := Option.isSome_iff_exists.mp
    (by decide +kernel : (Manuscript.ofJson? entrance).isSome)
  obtain ⟨script, hload⟩ := exists_eq_ok
    (by decide +kernel : (load .standard entrance).toOption.isSome)
  have halike : NumbersRoundAlike entrance := by
    rintro _ _ ⟨rfl⟩ ⟨rfl⟩
    refine List.forall_mem_cons.mpr ⟨fieldsRoundAlike_singleton .sprite ?_,
      List.forall_mem_singleton.mpr (fieldsRoundAlike_singleton .wait ?_)⟩
    · simp only [List.forall_mem_cons]
      refine ⟨trivial, trivial, trivial, fun n hn => ?_, List.forall_mem_nil _⟩
      rcases List.mem_cons.mp hn with hfirst | hrest
      · obtain rfl := Json.Tree.number.inj hfirst
        exact Json.Number.roundsAlike_integer (by decide)
      · obtain rfl := Json.Tree.number.inj (List.mem_singleton.mp hrest)
        exact Json.Number.roundsAlike_real _
    · exact List.forall_mem_singleton.mpr (Json.Number.roundsAlike_integer (by decide))
  have hboth := (load_iff_typed hordered hread halike).mp hload
  exact ⟨manuscript, script, hordered, hread, halike, hload, hboth⟩

/-- A script of one command. -/
def soleCommand (kind : CommandKind) (body : Json) : Json :=
  .object [("actors", .object []), ("commands", .array [.object [(kind.key, body)]])]

/-- The commands that are loaded from a value, and those that are loaded from what is written for
it, if it can be read as a manuscript. -/
def commandsBothWays (value : Json) : Option (Option (List Command) × Option (List Command)) :=
  (Manuscript.ofJson? value).map fun manuscript =>
    ((load .standard value).toOption.map (·.commands),
      (load .standard manuscript.toJson).toOption.map (·.commands))

/-- A background that is `null`, and a wait that is an array, only load as what is written for them.
An integer beyond the significand of a double makes two different times. -/
theorem commands_differ :
    commandsBothWays (soleCommand .background (.object [("image", .null)])) =
        some (none, some [.background ⟨.keep, .keep⟩]) ∧
      commandsBothWays (soleCommand .wait (.array [.number (.integer 1)])) =
        some (none, some [.wait 1]) ∧
      commandsBothWays (soleCommand .wait
          (.object [("time", .number (.integer (2 ^ 60 + 2 ^ 36 + 1)))])) =
        some (some [.wait (.ofInt (2 ^ 60))], some [.wait (.ofInt (2 ^ 60 + 2 ^ 37))]) ∧
      (.ofInt (2 ^ 60) : Single) ≠ .ofInt (2 ^ 60 + 2 ^ 37) := by
  decide +kernel

end Script

end VisualNovel
