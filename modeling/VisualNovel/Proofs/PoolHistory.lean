import Mathlib.Data.List.Perm.Subperm
import VisualNovel.Proofs.Script.History

/-!
# Writing to the entries of a pool

A pool lets its entries be written to, and a write may give an entry another name. The names under
which entries were registered do not follow. So whatever is done to a pool, a name leads to the
index that it got when it was first mentioned (`names_editAll`), and an entry of that name is there
as long as no write has given an entry another name (`faithful_throughout_iff`).

Where an entry has another name, a name leads to an entry that is called differently, and the pool
may come to hold a name twice. It holds each name once, whatever is mentioned from then on, just if
the entries have the names that were mentioned, be it in another order
(`Addressed.nodup_mentioning_iff`).
-/

namespace VisualNovel.Pool

/-- A change that is asked of a pool. -/
inductive Edit (α : Type) where
  /-- Asks for the index of a name, which is added if it is new. -/
  | ensure (name : String)
  /-- Writes to the entry at an index, if there is one. -/
  | write (index : Nat) (change : α → α)

section

variable {α : Type}

/-- Each index was given to one name, whatever its entry is called now. -/
structure Addressed (pool : Pool α) : Prop where
  length_names : pool.names.length = pool.size
  nodup : pool.names.Nodup

theorem addressed_empty : (empty : Pool α).Addressed := ⟨rfl, List.nodup_nil⟩

theorem Addressed.position?_eq_some_iff {pool : Pool α} (h : pool.Addressed) {name : String}
    {index : Nat} : pool.position? name = some index ↔ pool.names[index]? = some name := by
  rw [position?, idxOf?_eq_some_iff_of_nodup h.nodup]

/-- The name that an edit mentions. -/
def Edit.mention? : Edit α → Option String
  | ensure name => some name
  | write _ _ => none

/-- The names that edits mention, each once, where it is first mentioned. -/
def mentions (edits : List (Edit α)) : List String := (edits.filterMap Edit.mention?).eraseDups

end

variable {α : Type} [PoolEntry α]

/-- The pool after an edit. -/
def edit (pool : Pool α) : Edit α → Pool α
  | .ensure name => (pool.ensure name).2
  | .write index change => pool.modify index change

/-- The edits of a history, one after the other. -/
def editAll (pool : Pool α) (edits : List (Edit α)) : Pool α := edits.foldl edit pool

/-- The pool after names are mentioned. -/
def mentioning (pool : Pool α) (names : List String) : Pool α :=
  pool.editAll (names.map .ensure)

/-- The names of the entries, as they are now. -/
def entryNames (pool : Pool α) : List String := pool.entries.map PoolEntry.name

/-- An edit gives no entry another name. -/
def KeepsNames (pool : Pool α) : Edit α → Prop
  | .ensure _ => True
  | .write index change =>
    ∀ entry ∈ pool.get? index, PoolEntry.name (change entry) = PoolEntry.name entry

variable {pool : Pool α}

theorem editAll_concat (pool : Pool α) (edits : List (Edit α)) (edit : Edit α) :
    pool.editAll (edits ++ [edit]) = (pool.editAll edits).edit edit :=
  List.foldl_concat _ _ _ _

theorem getElem?_entryNames (pool : Pool α) (index : Nat) :
    pool.entryNames[index]? = pool.nameAt? index :=
  List.getElem?_map

/-- A new name is that of the last entry. -/
theorem entryNames_ensure_of_not_mem [LawfulPoolEntry α] {name : String}
    (h : name ∉ pool.names) : (pool.ensure name).2.entryNames = pool.entryNames ++ [name] := by
  rw [ensure_of_not_mem h, entryNames, List.map_append, List.map_singleton,
    LawfulPoolEntry.name_ofName]
  rfl

/-- A write may change the name of the entry that it reaches, and no other. -/
theorem nameAt?_modify (pool : Pool α) (index : Nat) (change : α → α) (other : Nat) :
    (pool.modify index change).nameAt? other =
      if index = other then (pool.get? index).map fun entry => PoolEntry.name (change entry)
      else pool.nameAt? other := by
  rw [nameAt?, get?, modify, List.getElem?_modify]
  split
  case isTrue heq =>
    subst heq
    rw [Option.map_eq_map, Option.map_map]
    rfl
  case isFalse =>
    rw [Option.map_eq_map, Option.map_id']
    rfl

/-- Entries are called as before a write just if it leaves the entry that it reaches its name. -/
theorem entryNames_modify_iff (pool : Pool α) (index : Nat) (change : α → α) :
    (pool.modify index change).entryNames = pool.entryNames ↔
      pool.KeepsNames (.write index change) := by
  constructor
  · intro hsame entry hentry
    have hname : (pool.modify index change).nameAt? index = pool.nameAt? index := by
      rw [← getElem?_entryNames, hsame, getElem?_entryNames]
    rw [nameAt?_modify, if_pos rfl, nameAt?, hentry] at hname
    exact Option.some.inj hname
  · intro hkeeps
    apply List.ext_getElem?
    intro other
    rw [getElem?_entryNames, getElem?_entryNames, nameAt?_modify]
    split
    case isTrue heq => exact heq ▸ Option.map_congr hkeeps
    case isFalse => rfl

/-! ## Where names lead -/

namespace Addressed

theorem edit (h : pool.Addressed) (edit : Edit α) : (pool.edit edit).Addressed := by
  cases edit with
  | ensure name =>
    refine ⟨?_, nodup_names_ensure h.nodup name⟩
    by_cases hmem : name ∈ pool.names
    · rw [Pool.edit, ensure_of_mem hmem]
      exact h.length_names
    · rw [Pool.edit, ensure_of_not_mem hmem, size, List.length_append, List.length_append,
        h.length_names]
      rfl
  | write index change =>
    refine ⟨?_, h.nodup⟩
    rw [Pool.edit, size, modify, List.length_modify]
    exact h.length_names

theorem editAll (h : pool.Addressed) (edits : List (Edit α)) : (pool.editAll edits).Addressed := by
  induction edits generalizing pool with
  | nil => exact h
  | cons edit edits ih => exact ih (h.edit edit)

end Addressed

/-- Which names a pool has after a mention depends on its names alone. -/
theorem names_ensure_congr {other : Pool α} (h : pool.names = other.names) (name : String) :
    (pool.ensure name).2.names = (other.ensure name).2.names := by
  by_cases hmem : name ∈ pool.names
  · rw [ensure_of_mem hmem, ensure_of_mem (h ▸ hmem), h]
  · rw [ensure_of_not_mem hmem, ensure_of_not_mem (h ▸ hmem), h]

/-- The names that lead into a pool are those that were mentioned, whatever was written. -/
theorem names_editAll (edits : List (Edit α)) :
    ((empty : Pool α).editAll edits).names = mentions edits := by
  -- writes aside, the pool of the mentioned names is made in the same way
  have hnames : ((empty : Pool α).editAll edits).names =
      (ofNames (edits.filterMap Edit.mention?) : Pool α).names := by
    induction edits using List.reverseRecOn with
    | nil => rfl
    | append_singleton edits edit ih =>
      rw [editAll_concat, List.filterMap_append]
      cases edit with
      | ensure name =>
        have hname : [Edit.ensure name].filterMap (Edit.mention? (α := α)) = [name] := rfl
        rw [hname, ofNames, List.foldl_concat]
        exact names_ensure_congr ih name
      | write index change =>
        have hnone : [Edit.write index change].filterMap Edit.mention? = [] := rfl
        rw [hnone, List.append_nil]
        exact ih
  rw [hnames, ofNames_eq, mentions]

/-! ## Where entries are -/

/-- Names lead to entries of these names just if the entry at each index has the name that the index
was given to. -/
theorem Addressed.faithful_iff (h : pool.Addressed) :
    pool.Faithful ↔ pool.entryNames = pool.names := by
  constructor
  · intro hfaithful
    apply List.ext_getElem?
    intro index
    rw [getElem?_entryNames]
    apply Option.ext
    intro name
    rw [← hfaithful.2, h.position?_eq_some_iff]
  · intro heq
    exact Registered.faithful ⟨heq.symm, h.nodup⟩

/-- An edit keeps a faithful pool faithful just if it gives no entry another name. -/
theorem Addressed.faithful_edit_iff [LawfulPoolEntry α] (h : pool.Addressed)
    (hfaithful : pool.Faithful) (edit : Edit α) :
    (pool.edit edit).Faithful ↔ pool.KeepsNames edit := by
  have hnames : pool.entryNames = pool.names := h.faithful_iff.mp hfaithful
  cases edit with
  | ensure name =>
    have hregistered : pool.Registered := ⟨hnames.symm, h.nodup⟩
    exact iff_of_true (hregistered.ensure name).faithful trivial
  | write index change =>
    rw [(h.edit _).faithful_iff, ← entryNames_modify_iff, hnames]
    rfl

/-- A pool is faithful all the time just if no edit ever gives an entry another name. -/
theorem faithful_throughout_iff [LawfulPoolEntry α] (edits : List (Edit α)) :
    (∀ before, before <+: edits → ((empty : Pool α).editAll before).Faithful) ↔
      ∀ before edit, before ++ [edit] <+: edits →
        ((empty : Pool α).editAll before).KeepsNames edit := by
  have haddressed (before : List (Edit α)) : ((empty : Pool α).editAll before).Addressed :=
    addressed_empty.editAll before
  constructor
  · intro hfaithful before edit hbefore
    have hthen : ((empty : Pool α).editAll before).Faithful :=
      hfaithful before ((List.prefix_append before [edit]).trans hbefore)
    rw [← (haddressed before).faithful_edit_iff hthen, ← editAll_concat]
    exact hfaithful _ hbefore
  · intro hkeeps before hbefore
    -- each edit of a faithful history is made to a pool that is still faithful
    induction before using List.reverseRecOn with
    | nil => exact registered_empty.faithful
    | append_singleton before edit ih =>
      have hthen : ((empty : Pool α).editAll before).Faithful :=
        ih ((List.prefix_append before [edit]).trans hbefore)
      rw [editAll_concat, (haddressed before).faithful_edit_iff hthen]
      exact hkeeps before edit hbefore

/-! ## Names that are there twice -/

section Twice

variable [LawfulPoolEntry α]

/-- If an entry has taken a name that was not mentioned yet, the name is there twice when it is. -/
theorem not_nodup_ensure {name : String} (hentry : name ∈ pool.entryNames)
    (hnew : name ∉ pool.names) : ¬(pool.ensure name).2.entryNames.Nodup := by
  rw [entryNames_ensure_of_not_mem hnew, nodup_append_singleton]
  rintro ⟨hfree, -⟩
  exact hfree hentry

theorem perm_ensure (h : pool.entryNames.Perm pool.names) (name : String) :
    (pool.ensure name).2.entryNames.Perm (pool.ensure name).2.names := by
  by_cases hmem : name ∈ pool.names
  · rw [ensure_of_mem hmem]
    exact h
  · rw [entryNames_ensure_of_not_mem hmem, ensure_of_not_mem hmem]
    exact h.append_right [name]

theorem perm_mentioning (h : pool.entryNames.Perm pool.names) (names : List String) :
    (pool.mentioning names).entryNames.Perm (pool.mentioning names).names := by
  induction names generalizing pool with
  | nil => exact h
  | cons name names ih => exact ih (perm_ensure h name)

/-- No mention ever brings in a name twice just if the entries have the names that were mentioned,
be it in another order. -/
theorem Addressed.nodup_mentioning_iff (h : pool.Addressed) :
    (∀ names, (pool.mentioning names).entryNames.Nodup) ↔ pool.entryNames.Perm pool.names := by
  constructor
  · intro hnodup
    have hnow : pool.entryNames.Nodup := hnodup []
    -- a name that was not mentioned would be there twice when it is
    have hmentioned : pool.entryNames ⊆ pool.names := by
      intro name hname
      by_contra hnew
      exact not_nodup_ensure hname hnew (hnodup [name])
    apply (hnow.subperm hmentioned).perm_of_length_le
    rw [h.length_names, entryNames, List.length_map]
    exact Nat.le_refl _
  · intro hperm names
    exact (perm_mentioning hperm names).nodup_iff.mpr (h.editAll _).nodup

end Twice

/-! ## Histories -/

/-- Whatever is done to a pool, a name leads to the index at which it was first mentioned. The pool
is faithful if the entries have the names that were mentioned, in that order, and no mention brings
in a name twice if they have them in any order. So it is faithful all the time just if no write ever
gives an entry another name. -/
theorem faithful_editAll_iff [LawfulPoolEntry α] (edits : List (Edit α)) :
    let pool := (empty : Pool α).editAll edits
    (pool.size = (mentions edits).length ∧
        ∀ name index, pool.position? name = some index ↔ (mentions edits)[index]? = some name) ∧
      (pool.Faithful ↔ pool.entryNames = mentions edits) ∧
      ((∀ names, (pool.mentioning names).entryNames.Nodup) ↔
        pool.entryNames.Perm (mentions edits)) ∧
      ((∀ before, before <+: edits → ((empty : Pool α).editAll before).Faithful) ↔
        ∀ before edit, before ++ [edit] <+: edits →
          ((empty : Pool α).editAll before).KeepsNames edit) := by
  intro pool
  have haddressed : pool.Addressed := addressed_empty.editAll edits
  rw [← names_editAll edits]
  exact ⟨⟨haddressed.length_names.symm, fun name index => haddressed.position?_eq_some_iff⟩,
    haddressed.faithful_iff, haddressed.nodup_mentioning_iff, faithful_throughout_iff edits⟩

/-- Two names are given to each other's entries. -/
def exchange : List (Edit String) :=
  [.ensure "hall", .ensure "attic", .write 0 fun _ => "attic", .write 1 fun _ => "hall",
    .ensure "hall"]

/-- A sprite is shown and moved, and keeps its id; another is written to that is not there. -/
def entrance : List (Edit Sprite) :=
  [.ensure "left", .ensure "right",
    .write 1 fun sprite => { sprite with visible := true, pos := .one },
    .write 2 fun sprite => { sprite with id := "left" }, .ensure "right"]

/-- After the exchange, names differ but lead to each other; after the entrance, each leads to its
own entry. -/
theorem faithful_editAll_iff_exchange :
    ¬((empty : Pool String).editAll exchange).Faithful ∧
      (∀ names, (((empty : Pool String).editAll exchange).mentioning names).entryNames.Nodup) ∧
      ((empty : Pool Sprite).editAll entrance).Faithful := by
  obtain ⟨-, hfaithful, hnodup, -⟩ := faithful_editAll_iff exchange
  refine ⟨mt hfaithful.mp (by decide +kernel), hnodup.mpr (by decide +kernel), ?_⟩
  exact (faithful_editAll_iff entrance).2.1.mpr (by decide +kernel)

/-- An entry is given the name that is mentioned next. -/
def takeover {α : Type} (rename : α → α) : List (Edit α) :=
  [.ensure "old", .write 0 rename, .ensure "new"]

/-- After that the name is there twice, and the name that the entry had still leads to it. -/
theorem names_clash_after_takeover :
    let names := (empty : Pool String).editAll (takeover fun _ => "new")
    let sprites :=
      (empty : Pool Sprite).editAll (takeover fun sprite => { sprite with id := "new" })
    (¬names.entryNames.Nodup ∧
        ¬(names.position? "old" = some 0 ↔ names.nameAt? 0 = some "old")) ∧
      ¬sprites.entryNames.Nodup ∧
        ¬(sprites.position? "old" = some 0 ↔ sprites.nameAt? 0 = some "old") := by
  decide +kernel

end VisualNovel.Pool
