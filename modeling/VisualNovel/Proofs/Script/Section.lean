import VisualNovel.Proofs.Outcome
import VisualNovel.Proofs.Sheet
import VisualNovel.Script.Section

/-!
# What readers of fields accept

For each reader of a JSON value, the values it understands and what it makes of them. A required
field succeeds exactly if the key is there with such a value; an optional one also if the key is
absent.
-/

namespace VisualNovel

open Outcome

namespace FieldReader

variable {α : Type} {location : Location} {value : Json}

/-- A string is read just where one is. -/
theorem string_eq_ok {s : String} : string location value = .ok s ↔ value = .string s := by
  cases value <;> simp [string]

/-- A truth value is read just where one is. -/
theorem bool_eq_ok {b : Bool} : bool location value = .ok b ↔ value = .bool b := by
  cases value <;> simp [bool]

/-- The elements of an array are read just where one is. -/
theorem array_eq_ok {elements : List Json} :
    array location value = .ok elements ↔ value = .array elements := by
  cases value <;> simp [array]

/-- The fields of an object are read just where one is, and keep its location. -/
theorem object_eq_ok {fields : Section} :
    object location value = .ok fields ↔
      fields.location = location ∧ value = .object fields.entries := by
  obtain ⟨place, entries⟩ := fields
  cases value <;> simp [object, eq_comm]

/-- A number that stays finite in single precision. -/
theorem single_eq_ok {x : Single} :
    single location value = .ok x ↔
      ∃ n : Json.Number, value = .number n ∧ n.toDouble.narrow = x ∧ x.isFinite := by
  cases value with
  | number n =>
    simp only [single, ite_eq_ok, Json.Tree.number.injEq, exists_eq_left']
    constructor
    · rintro ⟨hfinite, rfl⟩
      exact ⟨rfl, hfinite⟩
    · rintro ⟨rfl, hfinite⟩
      exact ⟨hfinite, rfl⟩
  | _ => simp [single]

/-- A number that is whole, however it is written. -/
theorem whole_eq_ok {least : Nat} {u : UInt32} :
    whole least location value = .ok u ↔
      ∃ n : Json.Number, value = .number n ∧ n.toNat? = some u.toNat ∧ least ≤ u.toNat := by
  cases value with
  | number n =>
    simp only [whole, Json.Tree.number.injEq, exists_eq_left']
    cases hn : n.toNat?.bind toUInt32? with
    | none =>
      refine ⟨nofun, fun h => ?_⟩
      rw [h.1, Option.bind_some, toUInt32?_eq_some_iff.mpr rfl] at hn
      exact absurd hn nofun
    | some v =>
      obtain ⟨k, hk, hkv⟩ := Option.bind_eq_some_iff.mp hn
      rw [toUInt32?_eq_some_iff] at hkv
      rw [hk, hkv, Option.some.injEq, UInt32.toNat_inj]
      simp only [ite_eq_ok]
      constructor
      · rintro ⟨hleast, rfl⟩
        exact ⟨rfl, hleast⟩
      · rintro ⟨rfl, hleast⟩
        exact ⟨hleast, rfl⟩
  | _ => simp [whole]

/-- An array of two elements, each of them understood. -/
theorem pair_eq_ok {element : FieldReader α} {result : α × α} :
    pair element location value = .ok result ↔
      ∃ a b, value = .array [a, b] ∧ element (location.index 0) a = .ok result.1 ∧
        element (location.index 1) b = .ok result.2 := by
  obtain ⟨x, y⟩ := result
  rw [pair.eq_def]
  split
  · next a b =>
    simp only [bind_eq_ok, pure_eq_ok, Prod.mk.injEq, Json.Tree.array.injEq, List.cons.injEq,
      and_true]
    constructor
    · rintro ⟨x', hx, y', hy, rfl, rfl⟩
      exact ⟨a, b, ⟨rfl, rfl⟩, hx, hy⟩
    · rintro ⟨a, b, ⟨rfl, rfl⟩, hx, hy⟩
      exact ⟨x, hx, y, hy, rfl, rfl⟩
  · next elements hne =>
    refine ⟨nofun, ?_⟩
    rintro ⟨a, b, heq, -⟩
    exact absurd (Json.Tree.array.inj heq) (hne a b)
  · next hne =>
    refine ⟨nofun, ?_⟩
    rintro ⟨a, b, heq, -⟩
    exact absurd heq (hne [a, b])

/-- A vector is read as a pair of singles. -/
theorem vector_eq_ok {v : Vec2} :
    vector location value = .ok v ↔ pair single location value = .ok (v.x, v.y) := by
  rw [vector, exceptMap_eq_ok]
  constructor
  · rintro ⟨⟨x, y⟩, hxy, rfl⟩
    exact hxy
  · intro h
    exact ⟨_, h, rfl⟩

/-- A position or size that is read is finite. -/
theorem isFinite_of_vector {v : Vec2} (h : vector location value = .ok v) : v.isFinite := by
  obtain ⟨a, b, -, hx, hy⟩ := pair_eq_ok.mp (vector_eq_ok.mp h)
  obtain ⟨-, -, -, hx⟩ := single_eq_ok.mp hx
  obtain ⟨-, -, -, hy⟩ := single_eq_ok.mp hy
  rw [Vec2.isFinite, hx, hy, Bool.and_self]

end FieldReader

namespace Section

variable {α : Type} {fields : Section} {key : String} {reader : FieldReader α}

/-- A required field is read just if it is there and its reader succeeds. -/
theorem required_eq_ok {a : α} :
    fields.required key reader = .ok a ↔
      ∃ value, fields.find? key = some value ∧ reader (fields.location.key key) value = .ok a := by
  rw [required.eq_def]
  cases fields.find? key with
  | none => simp
  | some value => simp

/-- An optional field is left out just if its key is missing. -/
theorem optional_eq_ok_none : fields.optional key reader = .ok none ↔ fields.find? key = none := by
  rw [optional.eq_def]
  cases fields.find? key with
  | none => simp
  | some value => simp [exceptMap_eq_ok]

/-- An optional field gives a value just if it is there and its reader succeeds. -/
theorem optional_eq_ok_some {a : α} :
    fields.optional key reader = .ok (some a) ↔
      ∃ value, fields.find? key = some value ∧ reader (fields.location.key key) value = .ok a := by
  rw [optional.eq_def]
  cases fields.find? key with
  | none => simp
  | some value => simp [exceptMap_eq_ok]

/-- A required string is read just if the field is this string. -/
theorem required_string_eq_ok {s : String} :
    fields.required key .string = .ok s ↔ fields.find? key = some (.string s) := by
  simp only [required_eq_ok, FieldReader.string_eq_ok, exists_eq_right]

/-- An optional string is read just if the field is this string. -/
theorem optional_string_eq_ok {s : String} :
    fields.optional key .string = .ok (some s) ↔ fields.find? key = some (.string s) := by
  simp only [optional_eq_ok_some, FieldReader.string_eq_ok, exists_eq_right]

end Section

end VisualNovel
