import VisualNovel.Proofs.Script.Reopen

/-!
# The language of scripts

What a JSON value says as a script, told without the readers: a relation for each sort of field, one
for the entry of an actor (`IsActor`), and one for a command (`Says`). A command says a reading, in
which ids and names stand for themselves; no index and no pool comes into it.

The readers agree with these relations. For the entry of an actor this is `loadActor_iff`, for a
command `resolveCommand_iff`: a JSON value resolves to the command that has a reading in the script
just if it says this reading, and no text is too long.
-/

namespace VisualNovel

open Outcome

/-! ## Numbers -/

/-- A finite number is a natural number exactly if it has the rank of that number. -/
theorem Binary.toNat?_eq_some_iff {f : Binary.Format} {x : Binary f} {n : Nat} :
    x.toNat? = some n ↔ x.isFinite ∧ x.rank? = some ((n <<< f.unitPlaces : Nat) : Int) := by
  cases x with
  | infinite negative => simp [toNat?, isFinite]
  | nan => simp [toNat?, isFinite]
  | finite negative place =>
    have hpos : 0 < 2 ^ f.unitPlaces := Nat.two_pow_pos _
    simp only [toNat?, isFinite, rank?, true_and, Option.some.injEq, Nat.shiftLeft_eq, Nat.one_mul,
      Nat.shiftRight_eq_div_pow]
    generalize f.units place = units
    have hwhole : (if units % 2 ^ f.unitPlaces = 0 then some (units / 2 ^ f.unitPlaces) else none) =
        some n ↔ units = n * 2 ^ f.unitPlaces := by
      split
      · next hzero =>
        rw [Option.some.injEq, Nat.div_eq_iff_eq_mul_left hpos (Nat.dvd_of_mod_eq_zero hzero)]
      · next hne =>
        refine iff_of_false nofun ?_
        rintro rfl
        exact hne (Nat.mul_mod_left _ _)
    cases negative with
    | false =>
      rw [Bool.false_and, if_neg Bool.false_ne_true, hwhole]
      exact Int.ofNat_inj.symm
    | true =>
      by_cases hzero : units = 0
      · -- a zero with a sign is a zero
        subst hzero
        rw [if_neg (by simp), hwhole]
        exact Int.ofNat_inj.symm
      · rw [if_pos (by simpa using hzero)]
        refine iff_of_false nofun ?_
        show ¬-(units : Int) = _
        omega

/-- A number of a JSON value is a natural number, whether it is written as an integer or not. -/
def Json.Number.Is (n : Nat) : Json.Number → Prop
  | .integer i => i = n
  | .real x => x.isFinite ∧ x.rank? = some ((n <<< Binary.Format.double.unitPlaces : Nat) : Int)

/-- A number is read as a whole one just if it is this number. -/
theorem Json.Number.toNat?_eq_some_iff {number : Json.Number} {n : Nat} :
    number.toNat? = some n ↔ number.Is n := by
  cases number with
  | real x => exact Binary.toNat?_eq_some_iff
  | integer i =>
    show i.toNat? = some n ↔ i = n
    exact Int.mem_toNat?

/-! ## Fields -/

namespace Grammar

/-- A string. -/
def IsText (value : Json) (s : String) : Prop := value = .string s

/-- A boolean. -/
def IsTruth (value : Json) (b : Bool) : Prop := value = .bool b

/-- A natural number. -/
def IsWhole (value : Json) (n : Nat) : Prop := ∃ number, value = .number number ∧ number.Is n

/-- A number that is finite in single precision. -/
def IsSingle (value : Json) (x : Single) : Prop :=
  ∃ number : Json.Number, value = .number number ∧ number.toDouble.narrow = x ∧ x.isFinite

/-- An array of two. -/
def IsPair {α : Type} (element : Json → α → Prop) (value : Json) (first second : α) : Prop :=
  ∃ a b, value = .array [a, b] ∧ element a first ∧ element b second

/-- A position or size. -/
def IsVector (value : Json) (v : Vec2) : Prop := IsPair IsSingle value v.x v.y

/-- The id of an actor of a cast. -/
def IsMember (cast : List Actor) (value : Json) (actor : Actor) : Prop :=
  value = .string actor.id ∧ actor ∈ cast

/-- Column and row of a cell on the sheet of an actor, whose cells are numbered row by row. Where
there is no actor there is no cell. -/
def IsCell (actor : Option Actor) (value : Json) (cell : UInt32) : Prop :=
  ∃ speaker column row, actor = some speaker ∧ IsPair IsWhole value column row ∧
    column < speaker.sheetSize.columns.toNat ∧ row < speaker.sheetSize.rows.toNat ∧
    cell.toNat = row * speaker.sheetSize.columns.toNat + column

/-- What an optional name does to an image or track. -/
inductive IsAsset : Option Json → AssetReading → Prop
  | keep : IsAsset none .keep
  | clear : IsAsset (some (.string "")) .clear
  | set {name : String} : name ≠ "" → IsAsset (some (.string name)) (.set name)

/-! ## Actors and commands -/

/-- The entry of an actor: its id, with an object that gives name, sheet, columns and rows. -/
def IsActor (entry : String × Json) (actor : Actor) : Prop :=
  actor.id = entry.1 ∧ ∃ fields, entry.2 = .object fields ∧
    fields.lookup "name" = some (.string actor.name) ∧
    fields.lookup "sheet" = some (.string actor.sheet) ∧ actor.sheet ≠ "" ∧
    (∃ size, fields.lookup "sheetSize" = some size ∧
      IsPair IsWhole size actor.sheetSize.columns.toNat actor.sheetSize.rows.toNat) ∧
    1 ≤ actor.sheetSize.columns.toNat ∧ 1 ≤ actor.sheetSize.rows.toNat ∧
    actor.sheetSize.columns.toNat * actor.sheetSize.rows.toNat < UInt32.size

/-- What the body of a command says. -/
inductive SaysBody (cast : List Actor) (body : List (String × Json)) : Reading → Prop
  | sprite {id : String} {hide : Option Bool} {actor : Option Actor} {portrait : Option UInt32}
      {pos size : Option Vec2} :
      body.lookup "id" = some (.string id) →
      Option.Rel (IsMember cast) (body.lookup "actor") actor →
      Option.Rel IsTruth (body.lookup "hide") hide →
      Option.Rel (IsCell actor) (body.lookup "portrait") portrait →
      Option.Rel IsVector (body.lookup "pos") pos →
      Option.Rel IsVector (body.lookup "size") size →
      SaysBody cast body (.sprite id (hide.getD false) actor portrait pos size)
  | speak {value : Json} {actor : Actor} {text : Option String} {portrait : Option UInt32} :
      body.lookup "actor" = some value → IsMember cast value actor →
      Option.Rel IsText (body.lookup "text") text →
      Option.Rel (IsCell (some actor)) (body.lookup "portrait") portrait →
      SaysBody cast body (.speak actor portrait (text.getD ""))
  | wait {value : Json} {duration : Single} :
      body.lookup "time" = some value → IsSingle value duration → ¬duration < 0 →
      SaysBody cast body (.wait duration)
  | background {image music : AssetReading} :
      IsAsset (body.lookup "image") image → IsAsset (body.lookup "music") music →
      SaysBody cast body (.background image music)

/-- An object with the key of one kind of command and of no other, and an object under it. -/
def HasBody (value : Json) (kind : CommandKind) (body : List (String × Json)) : Prop :=
  ∃ entries, value = .object entries ∧ entries.lookup kind.key = some (.object body) ∧
    ∀ other ≠ kind, entries.lookup other.key = none

end Grammar

/-- The kind of the commands that have a reading. -/
def Reading.kind : Reading → CommandKind
  | sprite .. => .sprite
  | speak .. => .speak
  | wait _ => .wait
  | background .. => .background

/-- What a command says, in a script with a cast. -/
def Grammar.Says (cast : List Actor) (value : Json) (reading : Reading) : Prop :=
  ∃ body, HasBody value reading.kind body ∧ SaysBody cast body reading

/-! ## Readers of fields -/

namespace Grammar

variable {location : Location} {value : Json} {fields : Section} {key : String}

/-- A string is read just where a text is. -/
theorem text_iff {s : String} : FieldReader.string location value = .ok s ↔ IsText value s :=
  FieldReader.string_eq_ok

/-- A truth value is read just where one is. -/
theorem truth_iff {b : Bool} : FieldReader.bool location value = .ok b ↔ IsTruth value b :=
  FieldReader.bool_eq_ok

/-- A single is read just where one is. -/
theorem single_iff {x : Single} : FieldReader.single location value = .ok x ↔ IsSingle value x :=
  FieldReader.single_eq_ok

/-- A whole number is read just where one is that is large enough. -/
theorem whole_iff {least : Nat} {u : UInt32} :
    FieldReader.whole least location value = .ok u ↔ IsWhole value u.toNat ∧ least ≤ u.toNat := by
  simp only [FieldReader.whole_eq_ok, Json.Number.toNat?_eq_some_iff, IsWhole, ← and_assoc,
    exists_and_right]

/-- Two whole numbers are read just where a pair of them is. -/
theorem pair_whole_iff {least : Nat} {first second : UInt32} :
    FieldReader.pair (.whole least) location value = .ok (first, second) ↔
      IsPair IsWhole value first.toNat second.toNat ∧
        least ≤ first.toNat ∧ least ≤ second.toNat := by
  simp only [FieldReader.pair_eq_ok, whole_iff, IsPair]
  constructor
  · rintro ⟨a, b, rfl, ⟨ha, hfirst⟩, hb, hsecond⟩
    exact ⟨⟨a, b, rfl, ha, hb⟩, hfirst, hsecond⟩
  · rintro ⟨⟨a, b, rfl, ha, hb⟩, hfirst, hsecond⟩
    exact ⟨a, b, rfl, ⟨ha, hfirst⟩, hb, hsecond⟩

/-- A vector is read just where one is. -/
theorem vector_iff {v : Vec2} : FieldReader.vector location value = .ok v ↔ IsVector value v := by
  simp only [FieldReader.vector_eq_ok, FieldReader.pair_eq_ok, single_iff, IsVector, IsPair]

/-- An optional field is absent, or there with a value that is understood. -/
theorem optional_iff {α : Type} {reader : FieldReader α} {means : Json → α → Prop}
    {result : Option α}
    (hreader : ∀ location value a, reader location value = .ok a ↔ means value a) :
    fields.optional key reader = .ok result ↔ Option.Rel means (fields.find? key) result := by
  cases result with
  | none =>
    rw [Section.optional_eq_ok_none]
    cases fields.find? key <;> simp
  | some a =>
    rw [Section.optional_eq_ok_some]
    cases fields.find? key <;> simp [hreader]

/-- An optional string is read just as the field has it. -/
theorem optional_text_iff {text : Option String} :
    fields.optional key .string = .ok text ↔ Option.Rel IsText (fields.find? key) text :=
  optional_iff fun _ _ _ => text_iff

/-- An optional truth value is read just as the field has it. -/
theorem optional_truth_iff {truth : Option Bool} :
    fields.optional key .bool = .ok truth ↔ Option.Rel IsTruth (fields.find? key) truth :=
  optional_iff fun _ _ _ => truth_iff

/-- An optional vector is read just as the field has it. -/
theorem optional_vector_iff {vector : Option Vec2} :
    fields.optional key .vector = .ok vector ↔ Option.Rel IsVector (fields.find? key) vector :=
  optional_iff fun _ _ _ => vector_iff

end Grammar

namespace Script

open Grammar

variable {limits : Limits} {value : Json}

/-! ## Actors -/

/-- An actor who can be drawn is loaded just from an entry for one. -/
theorem loadActor_iff {id : String} {actor : Actor} :
    loadActor limits id value = .ok actor ∧ Drawable actor ↔
      id.utf8ByteSize ≤ limits.idBytes ∧ IsActor (id, value) actor := by
  simp only [loadActor_eq_ok_iff, IsActor]
  constructor
  · rintro ⟨⟨hbytes, hid, fields, rfl, hname, hsheet, hne, hsize⟩, hdrawable⟩
    obtain ⟨size, hfind, hpair⟩ := Section.required_eq_ok.mp hsize
    obtain ⟨hcolumns, hrows, harea⟩ := hdrawable.usable
    exact ⟨hbytes, hid, fields, rfl, hname, hsheet, hne, ⟨size, hfind, (pair_whole_iff.mp hpair).1⟩,
      hcolumns, hrows, harea⟩
  · rintro ⟨hbytes, hid, fields, rfl, hname, hsheet, hne, ⟨size, hfind, hpair⟩, hcolumns, hrows,
      harea⟩
    exact ⟨⟨hbytes, hid, fields, rfl, hname, hsheet, hne, Section.required_eq_ok.mpr
      ⟨size, hfind, pair_whole_iff.mpr ⟨hpair, hcolumns, hrows⟩⟩⟩, hne, hcolumns, hrows, harea⟩

/-! ## Commands -/

/-- The one kind that is present is that of the only key of a kind. -/
theorem presentKinds_eq_singleton_iff {location : Location} {entries : List (String × Json)}
    {kind : CommandKind} {body : Json} :
    presentKinds ⟨location, entries⟩ = [(kind, body)] ↔
      entries.lookup kind.key = some body ∧ ∀ other ≠ kind, entries.lookup other.key = none := by
  constructor
  · intro h
    have hlookup := lookup_of_presentKinds h
    exact ⟨(hlookup kind).trans (if_pos rfl), fun other hne => (hlookup other).trans (if_neg hne)⟩
  · rintro ⟨hkind, hother⟩
    cases kind with
    | sprite =>
      simp [presentKinds, CommandKind.all, Section.find?, hkind, hother]
    | speak => simp [presentKinds, CommandKind.all, Section.find?, hkind, hother]
    | wait => simp [presentKinds, CommandKind.all, Section.find?, hkind, hother]
    | background => simp [presentKinds, CommandKind.all, Section.find?, hkind, hother]

/-- A natural number below the bound is one of 32 bits. -/
theorem exists_toNat {n : Nat} (h : n < UInt32.size) : ∃ u : UInt32, u.toNat = n :=
  ⟨.ofNat n, UInt32.toNat_ofNat_of_lt h⟩

section Commands

variable {target : Script} (htarget : target.Sound) {fields : Section}
include htarget

/-- Whoever an id resolves to has this id. -/
theorem actorIndex?_iff {index : Nat} {actor : Actor} (hactor : target.actorAt? index = some actor)
    {id : String} : target.actorIndex? id = some index ↔ id = actor.id := by
  rw [htarget.actorIndex?_eq_some_iff, hactor]
  simp [eq_comm]

/-- An optional actor is absent, or one of the cast. -/
theorem optional_actor_iff {index : Option Nat} {actor : Option Actor}
    (hactor : target.actorReading? index = some actor) :
    (∃ name, fields.optional "actor" .string = .ok name ∧
      name.map target.actorIndex? = index.map some) ↔
      Option.Rel (IsMember target.actors) (fields.find? "actor") actor := by
  simp only [optional_text_iff]
  cases index with
  | none =>
    obtain rfl := Option.some.inj hactor
    cases fields.find? "actor" <;> simp
  | some index =>
    obtain ⟨speaker, hspeaker, rfl⟩ := Option.map_eq_some_iff.mp hactor
    have hmem : speaker ∈ target.actors := List.mem_of_getElem? hspeaker
    cases fields.find? "actor" with
    | none => simp
    | some value =>
      simp only [Option.rel_some_some, IsMember, hmem, and_true]
      constructor
      · rintro ⟨_, hname, hindex⟩
        obtain ⟨id, rfl, hid⟩ := Option.map_eq_some_iff.mp hindex
        obtain rfl := (actorIndex?_iff htarget hspeaker).mp hid
        cases hname with
        | some hname => exact hname
      · rintro rfl
        have hindex : target.actorIndex? speaker.id = some index :=
          (actorIndex?_iff htarget hspeaker).mpr rfl
        exact ⟨some speaker.id, Option.Rel.some rfl, congrArg some hindex⟩

omit htarget in
/-- A portrait is absent, or a cell of the actor's sheet. -/
theorem resolvePortrait_iff {index : Option Nat} {actor : Option Actor}
    (hactor : target.actorReading? index = some actor) {portrait : Option UInt32} :
    target.resolvePortrait fields index = .ok portrait ↔
      Option.Rel (IsCell actor) (fields.find? "portrait") portrait := by
  rw [resolvePortrait_eq_ok_iff, bind_actorAt? hactor]
  constructor
  · rintro (⟨hnone, rfl⟩ | ⟨column, row, speaker, cell, hpair, hspeaker, hcell, rfl⟩)
    · rw [hnone]
      exact Option.Rel.none
    · obtain ⟨value, hvalue, hpair⟩ := Section.optional_eq_ok_some.mp hpair
      obtain ⟨hcolumn, hrow, hnumber⟩ := SheetSize.cellIndex_eq_some_iff.mp hcell
      rw [hvalue]
      exact Option.Rel.some ⟨speaker, column.toNat, row.toNat, hspeaker,
        (pair_whole_iff.mp hpair).1, hcolumn, hrow, hnumber.symm⟩
  · intro h
    cases hfind : fields.find? "portrait" with
    | none =>
      rw [hfind] at h
      cases h
      exact Or.inl ⟨rfl, rfl⟩
    | some value =>
      rw [hfind] at h
      cases h with
      | some hcell =>
        obtain ⟨speaker, column, row, hspeaker, hpair, hcolumn, hrow, hnumber⟩ := hcell
        -- column and row are below numbers of 32 bits
        have hcolumns := speaker.sheetSize.columns.toNat_lt_size
        have hrows := speaker.sheetSize.rows.toNat_lt_size
        obtain ⟨column, rfl⟩ := exists_toNat (Nat.lt_trans hcolumn hcolumns)
        obtain ⟨row, rfl⟩ := exists_toNat (Nat.lt_trans hrow hrows)
        refine Or.inr ⟨column, row, speaker, _, ?_, hspeaker, ?_, rfl⟩
        · exact Section.optional_eq_ok_some.mpr
            ⟨value, hfind, pair_whole_iff.mpr ⟨hpair, Nat.zero_le _, Nat.zero_le _⟩⟩
        · exact SheetSize.cellIndex_eq_some_iff.mpr ⟨hcolumn, hrow, hnumber.symm⟩

omit htarget in
/-- The name of an asset is absent, or resolves to the change that it is read as. -/
theorem readsAsset_iff {pool : Pool String} (hpool : pool.Registered) {key : String}
    {asset : AssetRef} {change : AssetReading} (hchange : asset.reading? pool = some change) :
    (∃ name, fields.optional key .string = .ok name ∧ ReadsAsset pool name asset) ↔
      IsAsset (fields.find? key) change := by
  simp only [optional_text_iff]
  generalize fields.find? key = entry
  constructor
  · rintro ⟨name, hname, hreads⟩
    cases hname with
    | none =>
      obtain rfl : asset = .keep := hreads
      obtain rfl := Option.some.inj hchange
      exact IsAsset.keep
    | some hvalue =>
      obtain rfl := hvalue
      rw [ReadsAsset] at hreads
      split at hreads
      · next hempty =>
        subst hreads hempty
        obtain rfl := Option.some.inj hchange
        exact IsAsset.clear
      · next hempty =>
        obtain ⟨index, hindex, rfl⟩ := hreads
        have hset : some change = some (.set _) := hchange.symm.trans
          (AssetRef.reading?_eq_set_iff.mpr ⟨index, rfl, hpool.position?_eq_some_iff.mp hindex⟩)
        obtain rfl := Option.some.inj hset
        exact IsAsset.set hempty
  · intro h
    cases h with
    | keep => exact ⟨none, Option.Rel.none, AssetRef.reading?_eq_keep_iff.mp hchange⟩
    | clear =>
      exact ⟨some "", Option.Rel.some rfl, AssetRef.reading?_eq_clear_iff.mp hchange⟩
    | set hne =>
      obtain ⟨index, rfl, hname⟩ := AssetRef.reading?_eq_set_iff.mp hchange
      refine ⟨_, Option.Rel.some rfl, ?_⟩
      rw [ReadsAsset, if_neg hne]
      exact ⟨index, hpool.position?_eq_some_iff.mpr hname, rfl⟩

/-- What is read of the body of a command is what it says. -/
theorem readsBody_iff {command : Command} {reading : Reading}
    (hreading : target.reading? command = some reading) :
    ReadsBody limits target fields command ↔
      SaysBody target.actors fields.entries reading ∧
        ∀ text ∈ reading.text?, text.utf8ByteSize ≤ limits.textBytes := by
  cases reading with
  | sprite id hide actor portrait pos size =>
    obtain ⟨sprite, index, rfl, hid, hactor⟩ := reading?_eq_sprite_iff.mp hreading
    constructor
    · rintro ⟨⟨name, hname, hsprite⟩, hmember, ⟨_, hhide, rfl⟩, hportrait, hpos, hsize⟩
      rw [htarget.sprites.position?_eq_some_iff, hid] at hsprite
      obtain rfl := Option.some.inj hsprite
      exact ⟨SaysBody.sprite hname ((optional_actor_iff htarget hactor).mp hmember)
        (optional_truth_iff.mp hhide) ((resolvePortrait_iff hactor).mp hportrait)
        (optional_vector_iff.mp hpos) (optional_vector_iff.mp hsize), forall_mem_none⟩
    · rintro ⟨hmeans, -⟩
      cases hmeans with
      | sprite hname hmember hhide hportrait hpos hsize =>
        exact ⟨⟨id, hname, htarget.sprites.position?_eq_some_iff.mpr hid⟩,
          (optional_actor_iff htarget hactor).mpr hmember,
          ⟨_, optional_truth_iff.mpr hhide, rfl⟩, (resolvePortrait_iff hactor).mpr hportrait,
          optional_vector_iff.mpr hpos, optional_vector_iff.mpr hsize⟩
  | speak actor portrait text =>
    obtain ⟨index, rfl, hindex⟩ := reading?_eq_speak_iff.mp hreading
    have hactor : target.actorReading? (some index) = some (some actor) :=
      Option.map_eq_some_iff.mpr ⟨actor, hindex, rfl⟩
    constructor
    · rintro ⟨⟨id, _, hname, hid, heq⟩, ⟨_, htext, rfl⟩, hbytes, hportrait⟩
      obtain rfl := Option.some.inj heq
      obtain rfl := (actorIndex?_iff htarget hindex).mp hid
      refine ⟨SaysBody.speak hname ⟨rfl, List.mem_of_getElem? hindex⟩ (optional_text_iff.mp htext)
        ((resolvePortrait_iff hactor).mp hportrait), ?_⟩
      intro text htext
      exact Option.some.inj htext ▸ hbytes
    · rintro ⟨hmeans, hbytes⟩
      cases hmeans with
      | speak hvalue hmember htext hportrait =>
        obtain ⟨rfl, -⟩ := hmember
        exact ⟨⟨actor.id, index, hvalue, (actorIndex?_iff htarget hindex).mpr rfl, rfl⟩,
          ⟨_, optional_text_iff.mpr htext, rfl⟩, hbytes _ rfl,
          (resolvePortrait_iff hactor).mpr hportrait⟩
  | wait duration =>
    obtain rfl := reading?_eq_wait_iff.mp hreading
    constructor
    · rintro ⟨htime, hneg⟩
      obtain ⟨value, hvalue, hsingle⟩ := Section.required_eq_ok.mp htime
      exact ⟨SaysBody.wait hvalue (single_iff.mp hsingle) hneg, forall_mem_none⟩
    · rintro ⟨hmeans, -⟩
      cases hmeans with
      | wait hvalue hsingle hneg =>
        exact ⟨Section.required_eq_ok.mpr ⟨_, hvalue, single_iff.mpr hsingle⟩, hneg⟩
  | background image music =>
    obtain ⟨_, _, rfl, himage, hmusic⟩ := reading?_eq_background_iff.mp hreading
    show _ ∧ _ ↔ _
    rw [readsAsset_iff htarget.backgrounds himage, readsAsset_iff htarget.music hmusic]
    constructor
    · rintro ⟨himage, hmusic⟩
      exact ⟨SaysBody.background himage hmusic, forall_mem_none⟩
    · rintro ⟨hmeans, -⟩
      cases hmeans with
      | background himage hmusic => exact ⟨himage, hmusic⟩

omit htarget in
/-- A command is of the kind that it reads as. -/
theorem kind_eq_of_reading? {command : Command} {reading : Reading}
    (hreading : target.reading? command = some reading) : command.kind = reading.kind := by
  cases reading with
  | sprite id hide actor portrait pos size =>
    obtain ⟨_, _, rfl, -⟩ := reading?_eq_sprite_iff.mp hreading
    rfl
  | speak actor portrait text =>
    obtain ⟨_, rfl, -⟩ := reading?_eq_speak_iff.mp hreading
    rfl
  | wait duration =>
    rw [reading?_eq_wait_iff.mp hreading]
    rfl
  | background image music =>
    obtain ⟨_, _, rfl, -⟩ := reading?_eq_background_iff.mp hreading
    rfl

/-- A value resolves to the command that has a reading just if it says this reading, and no text is
too long. -/
theorem resolveCommand_iff {place : Nat} {command : Command} {reading : Reading}
    (hreading : target.reading? command = some reading) :
    target.resolveCommand limits place value = .ok command ↔
      Says target.actors value reading ∧
        ∀ text ∈ reading.text?, text.utf8ByteSize ≤ limits.textBytes := by
  simp only [resolveCommand_eq_ok_iff, presentKinds_eq_singleton_iff,
    readsBody_iff htarget hreading, Says, HasBody, kind_eq_of_reading? hreading]
  constructor
  · rintro ⟨entries, body, rfl, hkeys, hmeans, hbytes⟩
    exact ⟨⟨body, ⟨entries, rfl, hkeys⟩, hmeans⟩, hbytes⟩
  · rintro ⟨⟨body, ⟨entries, rfl, hkeys⟩, hmeans⟩, hbytes⟩
    exact ⟨entries, body, rfl, hkeys, hmeans, hbytes⟩

end Commands

end Script

end VisualNovel
