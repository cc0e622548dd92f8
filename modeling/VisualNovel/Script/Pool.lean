/-!
# Pools

A pool holds entries in the order in which their names were first seen, and commands refer to them
by index. It keeps the names under which entries were registered apart from the entries, so changing
an entry does not change where a name leads.
-/

namespace VisualNovel

/-- What can stand in a pool: it has a name and is made from one. -/
class PoolEntry (α : Type) where
  name : α → String
  ofName : String → α

/-- Plain names: backgrounds and music tracks. -/
instance : PoolEntry String := ⟨id, id⟩

/-- Entries in the order of their first mention, with the names they were registered under. -/
structure Pool (α : Type) where
  entries : List α
  names : List String
  deriving DecidableEq, BEq, Repr

namespace Pool

variable {α : Type}

/-- The pool without entries. -/
def empty : Pool α := ⟨[], []⟩

instance : Inhabited (Pool α) := ⟨empty⟩

/-- The number of entries. -/
def size (pool : Pool α) : Nat := pool.entries.length

/-- The index to which a name leads. -/
def position? (pool : Pool α) (name : String) : Option Nat := pool.names.idxOf? name

/-- The entry at an index. -/
def get? (pool : Pool α) (index : Nat) : Option α := pool.entries[index]?

/-- Changes the entry at an index, if there is one. -/
def modify (pool : Pool α) (index : Nat) (change : α → α) : Pool α :=
  { pool with entries := pool.entries.modify index change }

variable [PoolEntry α]

/-- The name of the entry at an index. -/
def nameAt? (pool : Pool α) (index : Nat) : Option String := (pool.get? index).map PoolEntry.name

/-- The index of a name and the pool that has it: a new name is appended. -/
def ensure (pool : Pool α) (name : String) : Nat × Pool α :=
  match pool.position? name with
  | some index => (index, pool)
  | none => (pool.size, ⟨pool.entries ++ [PoolEntry.ofName name], pool.names ++ [name]⟩)

/-- The pool of the given names, each once, in the order of their first mention. -/
def ofNames (names : List String) : Pool α :=
  names.foldl (fun pool name => (pool.ensure name).2) empty

end Pool

end VisualNovel
