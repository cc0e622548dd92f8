import Mathlib.Data.List.Induction
import Mathlib.Data.List.Nodup
import VisualNovel.Script.Basic

/-!
# Names in a pool

The entries of a pool and the names under which they were registered are two lists. A pool is
*registered* if they agree and no name is there twice; then a name leads to an index exactly if the
entry at that index has the name (`Registered.position?_eq_some_iff`).

Every pool that is made by `Pool.ensure` is registered, and `ensure` leaves what was in the pool
where it was: old indices keep their entries (`nameAt?_ensure`). A pool that is made of names has
each of them once, in the order in which they were first there (`ofNames_eq`).
-/

namespace VisualNovel

/-- An entry made from a name has that name. -/
class LawfulPoolEntry (α : Type) [PoolEntry α] : Prop where
  name_ofName (name : String) : PoolEntry.name (PoolEntry.ofName name : α) = name

instance : LawfulPoolEntry String := ⟨fun _ => rfl⟩

instance : LawfulPoolEntry Sprite := ⟨fun _ => rfl⟩

/-- In a list without repetition, the position of an element is the only index where it stands. -/
theorem idxOf?_eq_some_iff_of_nodup {names : List String} (h : names.Nodup) {name : String}
    {index : Nat} : names.idxOf? name = some index ↔ names[index]? = some name := by
  rw [List.idxOf?_eq_some_iff, List.getElem?_eq_some_iff]
  constructor
  · rintro ⟨hlt, heq, -⟩
    exact ⟨hlt, heq⟩
  · rintro ⟨hlt, heq⟩
    refine ⟨hlt, heq, fun j hj hname => ?_⟩
    have hsame : j = index := (List.Nodup.getElem_inj_iff h).mp (hname.trans heq.symm)
    omega

/-- A name at the end of a list is not repeated if it is new. -/
theorem nodup_append_singleton {names : List String} {name : String} :
    (names ++ [name]).Nodup ↔ name ∉ names ∧ names.Nodup := by
  rw [← List.concat_eq_append, List.nodup_concat]

namespace Pool

variable {α : Type}

/-- The position of a name is an index at which it was registered. -/
theorem isSome_position? {pool : Pool α} {name : String} :
    (pool.position? name).isSome ↔ name ∈ pool.names := by
  rw [position?, List.isSome_idxOf?]

/-- A name of the pool has a position. -/
theorem exists_position? {pool : Pool α} {name : String} (h : name ∈ pool.names) :
    ∃ index, pool.position? name = some index :=
  Option.isSome_iff_exists.mp (isSome_position?.mpr h)

/-- Only a name that is not in the pool has no position. -/
theorem position?_eq_none {pool : Pool α} {name : String} :
    pool.position? name = none ↔ name ∉ pool.names := by
  rw [position?, List.idxOf?_eq_none_iff]

variable [PoolEntry α]

/-- An index is inside the pool exactly if there is a name at it. -/
theorem lt_size_iff {pool : Pool α} {index : Nat} :
    index < pool.size ↔ ∃ name, pool.nameAt? index = some name := by
  rw [nameAt?, get?, size, ← Option.isSome_iff_exists, Option.isSome_map]
  simp

/-- The names under which entries are registered are their names, and differ from each other. -/
structure Registered (pool : Pool α) : Prop where
  names_eq : pool.names = pool.entries.map PoolEntry.name
  nodup : pool.names.Nodup

namespace Registered

variable {pool : Pool α}

/-- The names are in the order of the entries. -/
theorem nameAt?_eq (h : pool.Registered) (index : Nat) :
    pool.nameAt? index = pool.names[index]? := by
  rw [nameAt?, get?, h.names_eq, List.getElem?_map]

/-- A name leads to an index exactly if the entry there has the name. -/
theorem position?_eq_some_iff (h : pool.Registered) {name : String} {index : Nat} :
    pool.position? name = some index ↔ pool.nameAt? index = some name := by
  rw [position?, idxOf?_eq_some_iff_of_nodup h.nodup, h.nameAt?_eq]

/-- A name that is there is that of an entry. -/
theorem exists_nameAt? (h : pool.Registered) {name : String} (hname : name ∈ pool.names) :
    ∃ index, pool.nameAt? index = some name := by
  obtain ⟨index, hindex⟩ := List.getElem?_of_mem hname
  exact ⟨index, (h.nameAt?_eq index).trans hindex⟩

/-- No two entries have one name. -/
theorem nameAt?_inj (h : pool.Registered) {index other : Nat} {name : String}
    (hindex : pool.nameAt? index = some name) (hother : pool.nameAt? other = some name) :
    index = other := by
  rw [← h.position?_eq_some_iff] at hindex hother
  exact Option.some.inj (hindex.symm.trans hother)

end Registered

/-- The empty pool has no names to register. -/
theorem registered_empty : (empty : Pool α).Registered := ⟨rfl, List.nodup_nil⟩

/-! ## Growing -/

/-- A name that is there already adds nothing. -/
theorem ensure_of_mem {pool : Pool α} {name : String} (h : name ∈ pool.names) :
    (pool.ensure name).2 = pool := by
  obtain ⟨index, hindex⟩ := exists_position? h
  rw [ensure, hindex]

/-- A name whose index is known is found there, and not added again. -/
theorem Registered.ensure_of_nameAt? {pool : Pool α} (h : pool.Registered) {index : Nat}
    {name : String} (hname : pool.nameAt? index = some name) :
    pool.ensure name = (index, pool) := by
  rw [Pool.ensure, h.position?_eq_some_iff.mpr hname]

/-- A new name is added at the end. -/
theorem ensure_of_not_mem {pool : Pool α} {name : String} (h : name ∉ pool.names) :
    (pool.ensure name).2 = ⟨pool.entries ++ [PoolEntry.ofName name], pool.names ++ [name]⟩ := by
  rw [ensure, position?_eq_none.mpr h]

/-- The entry at an index, if there was one, is still there. -/
theorem nameAt?_ensure {pool : Pool α} {index : Nat} {known : String} (name : String)
    (h : pool.nameAt? index = some known) : (pool.ensure name).2.nameAt? index = some known := by
  rw [ensure]
  split
  · exact h
  · obtain ⟨entry, hentry, hname⟩ := Option.map_eq_some_iff.mp h
    have hlt : index < pool.entries.length := (List.getElem?_eq_some_iff.mp hentry).1
    rw [nameAt?, get?, List.getElem?_append_left hlt]
    exact h

/-- After a name is ensured, the pool has it and the names from before. -/
theorem mem_names_ensure {pool : Pool α} {name other : String} :
    other ∈ (pool.ensure name).2.names ↔ other ∈ pool.names ∨ other = name := by
  rw [ensure]
  split
  case h_1 index hindex =>
    have hmem : name ∈ pool.names := isSome_position?.mp (hindex ▸ rfl)
    exact ⟨Or.inl, fun h => h.elim id fun heq => heq ▸ hmem⟩
  case h_2 => rw [List.mem_append, List.mem_singleton]

/-- No name is registered twice. -/
theorem nodup_names_ensure {pool : Pool α} (h : pool.names.Nodup) (name : String) :
    (pool.ensure name).2.names.Nodup := by
  by_cases hmem : name ∈ pool.names
  · rw [ensure_of_mem hmem]
    exact h
  · rw [ensure_of_not_mem hmem]
    exact nodup_append_singleton.mpr ⟨hmem, h⟩

/-- Names stay registered when one is ensured. -/
theorem Registered.ensure [LawfulPoolEntry α] {pool : Pool α} (h : pool.Registered)
    (name : String) : (pool.ensure name).2.Registered := by
  refine ⟨?_, nodup_names_ensure h.nodup name⟩
  by_cases hmem : name ∈ pool.names
  · rw [ensure_of_mem hmem]
    exact h.names_eq
  · rw [ensure_of_not_mem hmem, List.map_append, ← h.names_eq, List.map_singleton,
      LawfulPoolEntry.name_ofName]

/-! ## Entries as they were made -/

/-- The entries are what their names make, so none was changed since it was added. -/
def Untouched (pool : Pool α) : Prop := pool.entries = pool.names.map PoolEntry.ofName

/-- The empty pool has no entry to touch. -/
theorem untouched_empty : (empty : Pool α).Untouched := rfl

/-- An entry that is added is as its name makes it. -/
theorem Untouched.ensure {pool : Pool α} (h : pool.Untouched) (name : String) :
    (pool.ensure name).2.Untouched := by
  rw [Pool.ensure]
  split
  · exact h
  · rw [Untouched, List.map_append, ← h]
    rfl

/-! ## Pools of given names -/

/-- A property that `ensure` keeps and the empty pool has is one of every pool of given names. -/
theorem ofNames_induction {P : Pool α → Prop} (hempty : P empty)
    (hensure : ∀ pool name, P pool → P (pool.ensure name).2) (names : List String) :
    P (ofNames names) := by
  rw [ofNames]
  generalize (empty : Pool α) = pool at hempty
  induction names generalizing pool with
  | nil => exact hempty
  | cons name names ih => exact ih _ (hensure pool name hempty)

/-- A pool that is made of names has them registered. -/
theorem registered_ofNames [LawfulPoolEntry α] (names : List String) :
    (ofNames names : Pool α).Registered :=
  ofNames_induction registered_empty (fun _ name h => h.ensure name) names

/-- A pool that is made of names has entries as these make them. -/
theorem untouched_ofNames (names : List String) : (ofNames names : Pool α).Untouched :=
  ofNames_induction untouched_empty (fun _ name h => h.ensure name) names

/-- A pool of given names holds these and no others. -/
theorem mem_names_ofNames {names : List String} {name : String} :
    name ∈ (ofNames names : Pool α).names ↔ name ∈ names := by
  -- the induction needs the fold from any pool on
  have general (pool : Pool α) :
      name ∈ (names.foldl (fun pool name => (pool.ensure name).2) pool).names ↔
        name ∈ pool.names ∨ name ∈ names := by
    induction names generalizing pool with
    | nil => simp
    | cons first rest ih => rw [List.foldl_cons, ih, mem_names_ensure, List.mem_cons, or_assoc]
  rw [ofNames, general, empty]
  simp

/-- A pool of given names holds each of them once, where it was first. -/
theorem ofNames_eq (names : List String) :
    (ofNames names : Pool α) = ⟨names.eraseDups.map PoolEntry.ofName, names.eraseDups⟩ := by
  -- names are added at the end
  induction names using List.reverseRecOn with
  | nil => rfl
  | append_singleton names name ih =>
    have hlast : (ofNames (names ++ [name]) : Pool α) = ((ofNames names).ensure name).2 :=
      List.foldl_append
    rw [hlast, List.eraseDups_append]
    by_cases hmem : name ∈ names
    · have hknown : name ∈ (ofNames names : Pool α).names := mem_names_ofNames.mpr hmem
      rw [ensure_of_mem hknown, ih]
      simp [List.removeAll, hmem]
    · have hnew : name ∉ (ofNames names : Pool α).names := mt mem_names_ofNames.mp hmem
      rw [ensure_of_not_mem hnew, ih]
      simp [List.removeAll, hmem, List.eraseDups_cons]

end Pool

end VisualNovel
