import Mathlib.Data.List.Induction
import Mathlib.Data.List.Nodup
import VisualNovel.Json.Reader
import VisualNovel.Proofs.Outcome

/-!
# Entries of an object

Ordering the entries of an object by their keys changes nothing that can be looked up, as long as
the keys differ (`lookup_orderEntries`): it is a permutation (`orderEntries_perm`) into increasing
order (`keysIncrease_orderEntries`), and it leaves entries in that order as they are
(`orderEntries_eq_self`).
-/

namespace VisualNovel.Json

variable {α β : Type}

/-- Of two keys that differ, one comes first. -/
theorem eq_of_not_lt {s t : String} (h : ¬s < t) (h' : ¬t < s) : s = t :=
  String.le_antisymm (String.not_lt.mp h') (String.not_lt.mp h)

/-! ## Keys -/

/-- Keys that increase differ. -/
theorem KeysIncrease.nodup {entries : List (String × α)} (h : KeysIncrease entries) :
    (entries.map Prod.fst).Nodup := by
  refine List.Pairwise.imp ?_ h
  rintro key _ hlt rfl
  exact String.lt_irrefl key hlt

/-- Keys increase if the first comes before all others, and these increase. -/
theorem keysIncrease_cons {entry : String × α} {entries : List (String × α)} :
    KeysIncrease (entry :: entries) ↔
      (∀ other ∈ entries, entry.1 < other.1) ∧ KeysIncrease entries := by
  rw [KeysIncrease, List.map_cons, List.pairwise_cons, List.forall_mem_map]
  rfl

/-- What is looked up is there. -/
theorem mem_of_lookup {entries : List (String × α)} {key : String} {value : α}
    (h : entries.lookup key = some value) : (key, value) ∈ entries := by
  obtain ⟨_, _, rfl, -⟩ := List.lookup_eq_some_iff.mp h
  exact List.mem_append_right _ List.mem_cons_self

/-- Where keys differ, looking up a key finds the entry that has it. -/
theorem lookup_eq_some_iff_mem {entries : List (String × α)}
    (h : (entries.map Prod.fst).Nodup) {key : String} {value : α} :
    entries.lookup key = some value ↔ (key, value) ∈ entries := by
  induction entries with
  | nil => simp
  | cons entry rest ih =>
    obtain ⟨other, old⟩ := entry
    rw [List.map_cons, List.nodup_cons] at h
    rw [List.lookup_cons, List.mem_cons, Prod.mk.injEq]
    by_cases hkey : key = other
    · subst hkey
      have hrest : (key, value) ∉ rest := fun hmem => h.1 (List.mem_map.mpr ⟨_, hmem, rfl⟩)
      simp [hrest, eq_comm]
    · have hne : (key == other) = false := beq_false_of_ne hkey
      simp [hne, hkey, ih h.2]

/-- What is looked up does not depend on the order of entries whose keys differ. -/
theorem lookup_perm {entries others : List (String × α)} (hperm : entries.Perm others)
    (h : (entries.map Prod.fst).Nodup) (key : String) :
    entries.lookup key = others.lookup key := by
  have hothers : (others.map Prod.fst).Nodup := (hperm.map Prod.fst).nodup_iff.mp h
  apply Option.ext
  intro value
  rw [lookup_eq_some_iff_mem h, lookup_eq_some_iff_mem hothers, hperm.mem_iff]

/-- Entries with the same increasing keys are the same, however they came about. -/
theorem eq_of_perm_of_keysIncrease {entries others : List (String × α)}
    (hperm : entries.Perm others) (h : KeysIncrease entries) (h' : KeysIncrease others) :
    entries = others := by
  refine hperm.eq_of_pairwise (fun a b _ _ hab hba => ?_) (List.pairwise_map.mp h)
    (List.pairwise_map.mp h')
  exact absurd hba (String.lt_asymm hab)

/-! ## Setting an entry -/

/-- A new key is inserted somewhere among the entries. -/
theorem insertEntry_perm {key : String} (value : α) {entries : List (String × α)}
    (h : key ∉ entries.map Prod.fst) :
    (insertEntry key value entries).Perm ((key, value) :: entries) := by
  induction entries with
  | nil => exact List.Perm.refl _
  | cons entry rest ih =>
    obtain ⟨other, old⟩ := entry
    rw [List.map_cons, List.mem_cons, not_or] at h
    rw [insertEntry]
    split
    · exact List.Perm.refl _
    · rw [if_neg h.1]
      exact ((ih h.2).cons _).trans (List.Perm.swap _ _ _)

/-- The keys after setting an entry are its key and those that were there. -/
theorem mem_insertEntry {key : String} {value : α} {entries : List (String × α)}
    {entry : String × α} (h : entry ∈ insertEntry key value entries) :
    entry = (key, value) ∨ entry ∈ entries := by
  induction entries with
  | nil => exact Or.inl (List.mem_singleton.mp h)
  | cons first rest ih =>
    obtain ⟨other, old⟩ := first
    rw [insertEntry] at h
    split at h
    · exact List.mem_cons.mp h
    · split at h
      · exact (List.mem_cons.mp h).imp_right (List.mem_cons_of_mem _)
      · rcases List.mem_cons.mp h with heq | hmem
        · exact Or.inr (heq ▸ List.mem_cons_self)
        · exact (ih hmem).imp_right (List.mem_cons_of_mem _)

/-- Keys still increase when an entry is inserted. -/
theorem keysIncrease_insertEntry (key : String) (value : α) {entries : List (String × α)}
    (h : KeysIncrease entries) : KeysIncrease (insertEntry key value entries) := by
  induction entries with
  | nil => exact List.pairwise_singleton _ _
  | cons first rest ih =>
    obtain ⟨other, old⟩ := first
    obtain ⟨hfirst, hrest⟩ := keysIncrease_cons.mp h
    rw [insertEntry]
    split
    · next hlt =>
      refine keysIncrease_cons.mpr ⟨List.forall_mem_cons.mpr ⟨hlt, fun entry hentry => ?_⟩, h⟩
      exact String.lt_trans hlt (hfirst entry hentry)
    · next hnot =>
      split
      · next heq => exact keysIncrease_cons.mpr ⟨heq ▸ hfirst, hrest⟩
      · next hne =>
        -- neither before the first key nor the same, the key comes after it
        refine keysIncrease_cons.mpr ⟨fun entry hentry => ?_, ih hrest⟩
        rcases mem_insertEntry hentry with rfl | hmem
        · by_contra hlt
          exact hne (eq_of_not_lt hnot hlt)
        · exact hfirst entry hmem

/-- Changing values and setting an entry may be done in either order. -/
theorem map_insertEntry (f : α → β) (key : String) (value : α) (entries : List (String × α)) :
    (insertEntry key value entries).map (fun entry => (entry.1, f entry.2)) =
      insertEntry key (f value) (entries.map fun entry => (entry.1, f entry.2)) := by
  induction entries with
  | nil => rfl
  | cons first rest ih =>
    obtain ⟨other, old⟩ := first
    rw [insertEntry, List.map_cons, insertEntry]
    split
    · rfl
    · split
      · rfl
      · rw [List.map_cons, ih]

/-! ## Ordering entries -/

/-- The last entry is inserted last, so it replaces what an earlier one wrote. -/
theorem orderEntries_append_singleton (entries : List (String × α)) (entry : String × α) :
    orderEntries (entries ++ [entry]) = insertEntry entry.1 entry.2 (orderEntries entries) := by
  rw [orderEntries, List.foldl_append]
  rfl

/-- The keys of ordered entries increase. -/
theorem keysIncrease_orderEntries (entries : List (String × α)) :
    KeysIncrease (orderEntries entries) := by
  -- entries are set from the front on, so the last one is peeled off
  induction entries using List.reverseRecOn with
  | nil => exact List.Pairwise.nil
  | append_singleton entries entry ih =>
    rw [orderEntries_append_singleton]
    exact keysIncrease_insertEntry _ _ ih

/-- Ordering entries whose keys differ moves them around and loses none. -/
theorem orderEntries_perm {entries : List (String × α)} (h : (entries.map Prod.fst).Nodup) :
    (orderEntries entries).Perm entries := by
  induction entries using List.reverseRecOn with
  | nil => exact List.Perm.refl _
  | append_singleton entries entry ih =>
    rw [List.map_append, List.nodup_append] at h
    have hperm := ih h.1
    have hnew : entry.1 ∉ (orderEntries entries).map Prod.fst := by
      rw [(hperm.map Prod.fst).mem_iff]
      exact fun hmem => h.2.2 _ hmem _ List.mem_cons_self rfl
    rw [orderEntries_append_singleton]
    exact (insertEntry_perm _ hnew).trans
      ((hperm.cons entry).trans (List.perm_append_singleton entry entries).symm)

/-- Ordering makes up no entries. -/
theorem mem_of_mem_orderEntries {entries : List (String × α)} {entry : String × α}
    (h : entry ∈ orderEntries entries) : entry ∈ entries := by
  induction entries using List.reverseRecOn with
  | nil => exact h
  | append_singleton entries last ih =>
    rw [orderEntries_append_singleton] at h
    rcases mem_insertEntry h with rfl | hmem
    · exact List.mem_append_right _ List.mem_cons_self
    · exact List.mem_append_left _ (ih hmem)

/-- Ordering leaves what can be looked up as it is. -/
theorem lookup_orderEntries {entries : List (String × α)} (h : (entries.map Prod.fst).Nodup)
    (key : String) : (orderEntries entries).lookup key = entries.lookup key :=
  (lookup_perm (orderEntries_perm h).symm h key).symm

/-- Ordered entries stay where they are. -/
theorem orderEntries_eq_self {entries : List (String × α)} (h : KeysIncrease entries) :
    orderEntries entries = entries :=
  eq_of_perm_of_keysIncrease (orderEntries_perm h.nodup) (keysIncrease_orderEntries entries) h

/-- Values may be changed before or after the entries are ordered. -/
theorem map_orderEntries (f : α → β) (entries : List (String × α)) :
    (orderEntries entries).map (fun entry => (entry.1, f entry.2)) =
      orderEntries (entries.map fun entry => (entry.1, f entry.2)) := by
  induction entries using List.reverseRecOn with
  | nil => rfl
  | append_singleton entries entry ih =>
    rw [List.map_append, List.map_singleton, orderEntries_append_singleton,
      orderEntries_append_singleton, map_insertEntry, ih]

/-- What a key leads to among changed values is its value, changed. -/
theorem lookup_map (f : α → β) (entries : List (String × α)) (key : String) :
    (entries.map fun entry => (entry.1, f entry.2)).lookup key = (entries.lookup key).map f := by
  induction entries with
  | nil => rfl
  | cons first rest ih =>
    rw [List.map_cons, List.lookup_cons, List.lookup_cons, ih]
    cases key == first.1 <;> rfl

/-! ## Trees -/

namespace Tree

section Parts

variable {ν ν' σ σ' : Type}

/-- A change goes through the elements of an array. -/
theorem map_array (number : ν → ν') (string : σ → σ') (elements : List (Tree ν σ)) :
    (array elements).map number string = .array (elements.map (map number string)) := by
  rw [map]
  congr 1
  induction elements with
  | nil => rfl
  | cons element rest ih => rw [mapElements, List.map_cons, ih]

/-- A change goes through the keys and values of an object. -/
theorem map_object (number : ν → ν') (string : σ → σ') (entries : List (σ × Tree ν σ)) :
    (object entries).map number string =
      .object (entries.map fun entry => (string entry.1, entry.2.map number string)) := by
  rw [map]
  congr 1
  induction entries with
  | nil => rfl
  | cons entry rest ih => rw [mapEntries, List.map_cons, ih]

/-- An array is made canonical element by element. -/
theorem canonical_array (elements : List (Tree ν String)) :
    (array elements).canonical = .array (elements.map canonical) := by
  rw [canonical]
  congr 1
  induction elements with
  | nil => rfl
  | cons element rest ih => rw [canonicalElements, List.map_cons, ih]

/-- An object is made canonical value by value, and its entries are ordered. -/
theorem canonical_object (entries : List (String × Tree ν String)) :
    (object entries).canonical =
      .object (orderEntries (entries.map fun entry => (entry.1, entry.2.canonical))) := by
  rw [canonical]
  congr 2
  induction entries with
  | nil => rfl
  | cons entry rest ih => rw [canonicalEntries, List.map_cons, ih]

end Parts

/-! ## Ordered trees -/

variable {ν : Type}

/-- In an ordered object, keys increase. -/
theorem Ordered.keysIncrease {entries : List (String × Tree ν String)}
    (h : (Tree.object entries).Ordered) : KeysIncrease entries := by
  cases h with
  | object hkeys _ => exact hkeys

/-- The elements of an ordered array are ordered. -/
theorem Ordered.of_mem_elements {elements : List (Tree ν String)}
    (h : (Tree.array elements).Ordered) : ∀ element ∈ elements, element.Ordered := by
  cases h with
  | array heach => exact heach

/-- The values of an ordered object are ordered. -/
theorem Ordered.of_mem_entries {entries : List (String × Tree ν String)}
    (h : (Tree.object entries).Ordered) : ∀ entry ∈ entries, entry.2.Ordered := by
  cases h with
  | object _ heach => exact heach

/-- What a key of an ordered object leads to is ordered. -/
theorem Ordered.of_lookup {entries : List (String × Tree ν String)} {key : String}
    {value : Tree ν String} (h : (Tree.object entries).Ordered)
    (hfind : entries.lookup key = some value) : value.Ordered :=
  h.of_mem_entries _ (mem_of_lookup hfind)

mutual

/-- In a canonical tree the entries of every object are in order. -/
theorem ordered_canonical : ∀ tree : Tree ν String, tree.canonical.Ordered
  | .null => .null
  | .bool b => .bool b
  | .number n => .number n
  | .string s => .string s
  | .array elements => .array (ordered_canonicalElements elements)
  | .object entries =>
    .object (keysIncrease_orderEntries _) fun entry hentry =>
      ordered_canonicalEntries entries entry (mem_of_mem_orderEntries hentry)

/-- Elements are ordered once they are canonical. -/
theorem ordered_canonicalElements :
    ∀ elements : List (Tree ν String), ∀ x ∈ canonicalElements elements, x.Ordered
  | [] => nofun
  | element :: rest =>
    List.forall_mem_cons.mpr ⟨ordered_canonical element, ordered_canonicalElements rest⟩

/-- Values are ordered once they are canonical. -/
theorem ordered_canonicalEntries :
    ∀ entries : List (String × Tree ν String), ∀ x ∈ canonicalEntries entries, x.2.Ordered
  | [] => nofun
  | (_, value) :: rest =>
    List.forall_mem_cons.mpr ⟨ordered_canonical value, ordered_canonicalEntries rest⟩

end

end Tree

/-- A value that is read from a text has ordered keys. -/
theorem ordered_of_parse {text : List Char} {value : Json} (h : parse text = .ok value) :
    value.Ordered := by
  obtain ⟨tree, -, rfl⟩ := Outcome.exceptMap_eq_ok.mp h
  exact Tree.ordered_canonical tree

end VisualNovel.Json
