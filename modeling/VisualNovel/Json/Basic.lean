import VisualNovel.Binary.Style

/-!
# JSON values

A JSON tree is generic in what stands for its numbers and strings. A `Json` value has `Json.Number`s
and `String`s; a tree that is only half understood or not yet widened has other leaves.

The entries of an object are a list. In a value they are in increasing order of their keys, each
key once (`Json.Tree.Ordered`); `Json.Tree.canonical` brings the entries of any tree into this form,
where of equal keys the last one counts.
-/

namespace VisualNovel

namespace Json

/-- A tree with numbers in `ν` and strings, keys included, in `σ`. -/
inductive Tree (ν σ : Type) where
  | null
  | bool (value : Bool)
  | number (value : ν)
  | string (value : σ)
  | array (elements : List (Tree ν σ))
  | object (entries : List (σ × Tree ν σ))
  deriving Inhabited

/-- A number of a JSON value: an integer stays exact, anything else is a double. -/
inductive Number where
  | integer (value : Int)
  | real (value : Double)
  deriving DecidableEq, Repr

namespace Number

/-- The double nearest to a number. -/
def toDouble : Number → Double
  | integer n => .ofInt n
  | real x => x

/-- The natural number that a number is, however it is written: `2`, `2.0` and `-0` are whole. -/
def toNat? : Number → Option Nat
  | integer n => n.toNat?
  | real x => x.toNat?

/-- Integers in decimal, doubles by their shortest digits. -/
def text : Number → String
  | integer n => toString n
  | real x => x.text .jsonDouble

end Number

end Json

/-- A JSON value. -/
abbrev Json := Json.Tree Json.Number String

namespace Json

/-! ## Entries of an object -/

/-- Sets the entry of a key in entries ordered by key. -/
def insertEntry {α : Type} (key : String) (value : α) : List (String × α) → List (String × α)
  | [] => [(key, value)]
  | (other, old) :: rest =>
    if key < other then (key, value) :: (other, old) :: rest
    else if key = other then (key, value) :: rest
    else (other, old) :: insertEntry key value rest

/-- Entries ordered by key; of equal keys the last one counts. -/
def orderEntries {α : Type} (entries : List (String × α)) : List (String × α) :=
  entries.foldl (fun ordered entry => insertEntry entry.1 entry.2 ordered) []

/-- Keys increase, so each is there once. -/
def KeysIncrease {α : Type} (entries : List (String × α)) : Prop :=
  (entries.map Prod.fst).Pairwise (· < ·)

namespace Tree

variable {ν ν' σ σ' : Type}

mutual

/-- Changes the leaves and keys of a tree. -/
def map (number : ν → ν') (string : σ → σ') : Tree ν σ → Tree ν' σ'
  | null => .null
  | bool b => .bool b
  | .number n => .number (number n)
  | .string s => .string (string s)
  | array elements => .array (mapElements number string elements)
  | object entries => .object (mapEntries number string entries)

/-- `map` on each element of an array. -/
def mapElements (number : ν → ν') (string : σ → σ') : List (Tree ν σ) → List (Tree ν' σ')
  | [] => []
  | element :: rest => element.map number string :: mapElements number string rest

/-- `map` on each entry of an object. -/
def mapEntries (number : ν → ν') (string : σ → σ') :
    List (σ × Tree ν σ) → List (σ' × Tree ν' σ')
  | [] => []
  | (key, value) :: rest =>
    (string key, value.map number string) :: mapEntries number string rest

end

mutual

/-- Orders the entries of every object of a tree. -/
def canonical : Tree ν String → Tree ν String
  | null => .null
  | bool b => .bool b
  | .number n => .number n
  | .string s => .string s
  | array elements => .array (canonicalElements elements)
  | object entries => .object (orderEntries (canonicalEntries entries))

/-- `canonical` on each element of an array. -/
def canonicalElements : List (Tree ν String) → List (Tree ν String)
  | [] => []
  | element :: rest => element.canonical :: canonicalElements rest

/-- `canonical` on each value of an object. -/
def canonicalEntries : List (String × Tree ν String) → List (String × Tree ν String)
  | [] => []
  | (key, value) :: rest => (key, value.canonical) :: canonicalEntries rest

end

/-- The entries of every object in a tree are ordered by key, each key once. -/
inductive Ordered : Tree ν String → Prop where
  | null : Ordered .null
  | bool (b : Bool) : Ordered (.bool b)
  | number (n : ν) : Ordered (.number n)
  | string (s : String) : Ordered (.string s)
  | array {elements : List (Tree ν String)} (each : ∀ x ∈ elements, Ordered x) :
    Ordered (.array elements)
  | object {entries : List (String × Tree ν String)} (keys : KeysIncrease entries)
    (each : ∀ entry ∈ entries, Ordered entry.2) : Ordered (.object entries)

end Tree

end Json

end VisualNovel
