import VisualNovel.Json.Printer
import VisualNovel.Json.Reader
import VisualNovel.Proofs.Json.Written

/-!
# What is printed is read

A string is read back from its quoted form, with whatever escapes it has. A tree is read back from
its print, up to what its numbers are read as (`readText_print`): the blanks of the layout are
skipped, and each part ends where the next begins.
-/

namespace VisualNovel.Json

/-! ## Strings -/

section Strings

variable {bound : Nat} (read : List Char)

/-- A hexadecimal digit has the value that it was written for. -/
theorem hexValue?_digitChar : ∀ d : Nat, d < 16 → hexValue? d.digitChar = some d := by
  decide

/-- The escape of a control character is read back. -/
theorem unicodeEscape_gives {c : Char} (h : c.toNat < 32) (text : List Char) :
    (unicodeEscape ('0' :: '0' :: (c.toNat / 16).digitChar :: (c.toNat % 16).digitChar ::
      text)).Gives c text := by
  have hunit : (codeUnit ('0' :: '0' :: (c.toNat / 16).digitChar :: (c.toNat % 16).digitChar ::
      text)).Gives c.toNat text := by
    refine ⟨by simp only [List.length_cons]; omega, ?_⟩
    rw [codeUnit, hexValue?_digitChar _ (by omega), hexValue?_digitChar _ (by omega)]
    have hsum : ((0 * 16 + 0) * 16 + c.toNat / 16) * 16 + c.toNat % 16 = c.toNat := by omega
    show Except.ok (((0 * 16 + 0) * 16 + c.toNat / 16) * 16 + c.toNat % 16, _) = _
    rw [hsum]
  obtain ⟨hlt, hunit⟩ := hunit
  refine ⟨hlt, ?_⟩
  have hlow : ¬(0xDC00 ≤ c.toNat ∧ c.toNat ≤ 0xDFFF) := by omega
  have hhigh : ¬(0xD800 ≤ c.toNat ∧ c.toNat ≤ 0xDBFF) := by omega
  simp only [unicodeEscape, hunit, bind, Except.bind, if_neg hlow, if_neg hhigh, Char.ofNat_toNat]
  rfl

/-- A character has a short escape, a long one or none. -/
theorem escapeChar_cases (c : Char) :
    (∃ k, escapeChar c = ['\\', k] ∧ k ≠ 'u' ∧ shortEscape? k = some c) ∨
      (c.toNat < 32 ∧ escapeChar c =
        ['\\', 'u', '0', '0', (c.toNat / 16).digitChar, (c.toNat % 16).digitChar]) ∨
      (escapeChar c = [c] ∧ c ≠ '"' ∧ c ≠ '\\' ∧ 32 ≤ c.toNat) := by
  rw [escapeChar]
  split
  · next h => exact Or.inl ⟨'"', rfl, by decide, by rw [h]; rfl⟩
  split
  · next h => exact Or.inl ⟨'\\', rfl, by decide, by rw [h]; rfl⟩
  split
  · next h => exact Or.inl ⟨'b', rfl, by decide, by rw [h]; rfl⟩
  split
  · next h => exact Or.inl ⟨'f', rfl, by decide, by rw [h]; rfl⟩
  split
  · next h => exact Or.inl ⟨'n', rfl, by decide, by rw [h]; rfl⟩
  split
  · next h => exact Or.inl ⟨'r', rfl, by decide, by rw [h]; rfl⟩
  split
  · next h => exact Or.inl ⟨'t', rfl, by decide, by rw [h]; rfl⟩
  split
  · next h => exact Or.inr (Or.inl ⟨h, rfl⟩)
  · next hquote hslash _ _ _ _ _ h => exact Or.inr (Or.inr ⟨rfl, hquote, hslash, Nat.not_lt.mp h⟩)

/-- A character is read back from the form that it has in a string. -/
theorem quotedFrom_escapeChar (c : Char) (text : List Char)
    (h : (escapeChar c ++ text).length ≤ bound) (h' : text.length ≤ bound) :
    quotedFrom id unicodeEscape bound read (escapeChar c ++ text) h =
      quotedFrom id unicodeEscape bound (c :: read) text h' := by
  rcases escapeChar_cases c with ⟨k, heq, hk, hshort⟩ | ⟨hcontrol, heq⟩ | ⟨heq, hquote, hslash, hle⟩
  · simp only [heq, List.cons_append, List.nil_append]
    rw [quotedFrom]
    · simp only [hshort]
      rfl
    · exact hk
  · simp only [heq, List.cons_append, List.nil_append]
    obtain ⟨hlt, hescape⟩ := unicodeEscape_gives hcontrol text
    rw [quotedFrom]
    simp only [hescape]
  · simp only [heq, List.cons_append, List.nil_append]
    rw [quotedFrom]
    · rw [if_neg (Nat.not_lt.mpr hle)]
      rfl
    · exact hquote
    · exact hslash

/-- The characters of a string are read back up to the closing quote. -/
theorem quotedFrom_gives (cs rest : List Char)
    (h : (cs.flatMap escapeChar ++ '"' :: rest).length ≤ bound) :
    (quotedFrom id unicodeEscape bound read (cs.flatMap escapeChar ++ '"' :: rest) h).Gives
      (read.reverse ++ cs) rest := by
  induction cs generalizing read with
  | nil =>
    refine ⟨h, ?_⟩
    simp only [List.flatMap_nil, List.nil_append, List.append_nil]
    rw [quotedFrom]
  | cons c cs ih =>
    simp only [List.flatMap_cons, List.append_assoc] at h ⊢
    have h' : (cs.flatMap escapeChar ++ '"' :: rest).length ≤ bound := by
      rw [List.length_append] at h
      omega
    rw [quotedFrom_escapeChar read c _ h h']
    have hread := ih (c :: read) h'
    rw [List.reverse_cons, List.append_assoc, List.singleton_append] at hread
    exact hread

end Strings

/-- A string is read back. -/
theorem string_gives (s : String) (rest : List Char) :
    (Leaves.strict.string (s.toList.flatMap escapeChar ++ '"' :: rest)).Gives s rest := by
  have hread := (quotedFrom_gives [] s.toList rest (length_le_self _)).map String.ofList
  rw [List.reverse_nil, List.nil_append, String.ofList_toList] at hread
  exact hread

/-! ## Blanks -/

/-- A layout puts nothing but blanks between the parts of a container. -/
structure Layout.Blank (layout : Layout) : Prop where
  lineBreak : ∀ depth, ∀ c ∈ layout.lineBreak depth, isBlank c
  colon : ∃ blanks, layout.colon = ':' :: blanks ∧ ∀ c ∈ blanks, isBlank c

/-- The pretty layout consists of blanks. -/
theorem Layout.blank_pretty : Layout.pretty.Blank where
  lineBreak depth := by
    rw [Layout.pretty]
    simp only [List.forall_mem_cons, List.mem_replicate]
    exact ⟨rfl, fun c hc => hc.2 ▸ rfl⟩
  colon := ⟨[' '], rfl, by simp [isBlank]⟩

/-- Blanks are skipped. -/
theorem skipBlanks_append {blanks : List Char} (h : ∀ c ∈ blanks, isBlank c) (text : List Char) :
    skipBlanks (blanks ++ text) = skipBlanks text :=
  List.dropWhile_append_of_pos h

/-- What is not blank is not skipped. -/
theorem skipBlanks_cons {c : Char} (h : isBlank c = false) (rest : List Char) :
    skipBlanks (c :: rest) = c :: rest :=
  List.dropWhile_cons_of_neg (by simp [h])

/-- A blank, a comma or a bracket follows a number. -/
theorem afterNumber_blanks {blanks : List Char} (h : ∀ c ∈ blanks, isBlank c) {rest : List Char}
    (hrest : AfterNumber rest) : AfterNumber (blanks ++ rest) := by
  cases blanks with
  | nil => exact hrest
  | cons c blanks =>
    rintro _ ⟨rfl⟩
    have hc := h c List.mem_cons_self
    simp only [isBlank, Bool.or_eq_true, decide_eq_true_eq] at hc
    rcases hc with ((rfl | rfl) | rfl) | rfl <;> decide

/-! ## Reading a tree by its parts -/

section Reader

variable {ν σ : Type} {leaves : Leaves ν σ} {depth bound : Nat}

/-- The letters of a word are read up to its end. -/
theorem restOfWord_append (letters rest : List Char) :
    ∃ h, restOfWord letters (letters ++ rest) = .ok ⟨rest, h⟩ := by
  induction letters with
  | nil =>
    refine ⟨Nat.le_refl _, ?_⟩
    show restOfWord [] rest = _
    rw [restOfWord]
  | cons letter letters ih =>
    obtain ⟨h, hword⟩ := ih
    refine ⟨Nat.le_succ_of_le h, ?_⟩
    show restOfWord (letter :: letters) (letter :: (letters ++ rest)) = _
    rw [restOfWord, if_pos rfl, hword]
    rfl

/-- A word gives the tree that it stands for. -/
theorem word_gives (letters : List Char) (tree : Tree ν σ) (rest : List Char) :
    (word letters tree (letters ++ rest)).Gives tree rest := by
  obtain ⟨h, hword⟩ := restOfWord_append letters rest
  refine ⟨Nat.lt_succ_of_le h, ?_⟩
  rw [word, hword]
  rfl

/-- A quotation mark begins a string. -/
theorem readTree_string {text rest : List Char} {s : σ} (h : (leaves.string text).Gives s rest) :
    (readTree leaves depth ('"' :: text)).Gives (.string s) rest := by
  rw [readTree]
  exact (h.weaken _).map Tree.string

/-- A minus sign or a digit begins a number. -/
theorem readTree_number {c : Char} {cs rest : List Char} {n : ν} (hc : c = '-' ∨ c.isDigit)
    (h : (leaves.number (c :: cs)).Gives n rest) :
    (readTree leaves depth (c :: cs)).Gives (.number n) rest := by
  rw [readTree]
  · rw [if_pos hc]
    exact h.map Tree.number
  all_goals
    rintro rfl
    exact absurd hc (by decide)

/-- A bracket that closes at once is an empty array. -/
theorem readTree_array_empty {text rest : List Char} (h : skipBlanks text = ']' :: rest) :
    (readTree leaves (depth + 1) ('[' :: text)).Gives (.array []) rest := by
  rw [readTree, if_neg (Nat.succ_ne_zero depth)]
  split
  · next hskip => exact absurd (h.symm.trans hskip) (List.cons_ne_nil _ _)
  · next after hskip =>
    obtain rfl : rest = after := (List.cons.inj (h.symm.trans hskip)).2
    exact ⟨_, rfl⟩
  · next c after hne hskip => exact absurd (List.cons.inj (h.symm.trans hskip)).1.symm hne

/-- An array is read where its elements are. -/
theorem readTree_array {text after rest : List Char} {c : Char} {elements : List (Tree ν σ)}
    (h : skipBlanks text = c :: after) (hne : c ≠ ']')
    (hread : ∀ bound hbound,
      (readElements leaves depth bound [] (c :: after) hbound).Gives elements rest) :
    (readTree leaves (depth + 1) ('[' :: text)).Gives (.array elements) rest := by
  rw [readTree, if_neg (Nat.succ_ne_zero depth)]
  split
  · next hskip => exact absurd (h.symm.trans hskip) (List.cons_ne_nil _ _)
  · next hskip => exact absurd (List.cons.inj (h.symm.trans hskip)).1 hne
  · next hskip =>
    obtain ⟨rfl, rfl⟩ := List.cons.inj (h.symm.trans hskip)
    exact (hread _ _).map Tree.array

/-- A brace that closes at once is an empty object. -/
theorem readTree_object_empty {text rest : List Char} (h : skipBlanks text = '}' :: rest) :
    (readTree leaves (depth + 1) ('{' :: text)).Gives (.object []) rest := by
  rw [readTree, if_neg (Nat.succ_ne_zero depth)]
  split
  · next hskip => exact absurd (h.symm.trans hskip) (List.cons_ne_nil _ _)
  · next after hskip =>
    obtain rfl : rest = after := (List.cons.inj (h.symm.trans hskip)).2
    exact ⟨_, rfl⟩
  · next hskip => exact absurd (List.cons.inj (h.symm.trans hskip)).1 (by decide)
  · next hne _ hskip => exact absurd (List.cons.inj (h.symm.trans hskip)).1.symm hne

/-- An object is read where its entries are. -/
theorem readTree_object {text after rest : List Char} {entries : List (σ × Tree ν σ)}
    (h : skipBlanks text = '"' :: after)
    (hread : ∀ bound hbound,
      (readEntries leaves depth bound [] after hbound).Gives entries rest) :
    (readTree leaves (depth + 1) ('{' :: text)).Gives (.object entries) rest := by
  rw [readTree, if_neg (Nat.succ_ne_zero depth)]
  split
  · next hskip => exact absurd (h.symm.trans hskip) (List.cons_ne_nil _ _)
  · next hskip => exact absurd (List.cons.inj (h.symm.trans hskip)).1 (by decide)
  · next hskip =>
    obtain ⟨-, rfl⟩ := List.cons.inj (h.symm.trans hskip)
    exact (hread _ _).map Tree.object
  · next hne hskip => exact absurd (List.cons.inj (h.symm.trans hskip)).1.symm hne

section Elements

variable {read : List (Tree ν σ)} {text middle after rest : List Char} {element : Tree ν σ}
  {elements : List (Tree ν σ)} (hbound : text.length ≤ bound)
  (helement : (readTree leaves depth text).Gives element middle)
include helement

/-- The last element is followed by a bracket. -/
theorem readElements_last (h : skipBlanks middle = ']' :: rest) :
    (readElements leaves depth bound read text hbound).Gives (element :: read).reverse rest := by
  obtain ⟨hlt, helement⟩ := helement
  rw [readElements]
  simp only [helement]
  split
  · next hskip => exact absurd (h.symm.trans hskip) (List.cons_ne_nil _ _)
  · next hskip =>
    obtain rfl := (List.cons.inj (h.symm.trans hskip)).2
    exact ⟨_, rfl⟩
  · next hskip => exact absurd (List.cons.inj (h.symm.trans hskip)).1 (by decide)
  · next hne _ hskip => exact absurd (List.cons.inj (h.symm.trans hskip)).1.symm hne

/-- Any other element is followed by a comma, and by the elements after it. -/
theorem readElements_more {next : List Char} {c : Char} (h : skipBlanks middle = ',' :: after)
    (hafter : skipBlanks after = c :: next) (hc : c ≠ ']')
    (hread : ∀ hnext, (readElements leaves depth bound (element :: read) (c :: next) hnext).Gives
      elements rest) :
    (readElements leaves depth bound read text hbound).Gives elements rest := by
  obtain ⟨hlt, helement⟩ := helement
  rw [readElements]
  simp only [helement]
  split
  · next hskip => exact absurd (h.symm.trans hskip) (List.cons_ne_nil _ _)
  · next hskip => exact absurd (List.cons.inj (h.symm.trans hskip)).1 (by decide)
  · next hskip =>
    obtain rfl := (List.cons.inj (h.symm.trans hskip)).2
    split
    · next hbracket => exact absurd (List.cons.inj (hafter.symm.trans hbracket)).1 hc
    · simp only [hafter]
      exact hread _
  · next hne hskip => exact absurd (List.cons.inj (h.symm.trans hskip)).1.symm hne

end Elements

section Entries

variable {read : List (σ × Tree ν σ)} {text colon value middle after rest : List Char} {key : σ}
  {tree : Tree ν σ} {entries : List (σ × Tree ν σ)} (hbound : text.length ≤ bound)
  (hkey : (leaves.string text).Gives key colon) (hcolon : skipBlanks colon = ':' :: value)
  (htree : (readTree leaves depth (skipBlanks value)).Gives tree middle)
include hkey hcolon htree

/-- The last entry is followed by a brace. -/
theorem readEntries_last (h : skipBlanks middle = '}' :: rest) :
    (readEntries leaves depth bound read text hbound).Gives ((key, tree) :: read).reverse rest := by
  obtain ⟨hltKey, hkey⟩ := hkey
  obtain ⟨hltTree, htree⟩ := htree
  rw [readEntries]
  simp only [hkey]
  split
  · next hskip =>
    obtain rfl := (List.cons.inj (hcolon.symm.trans hskip)).2
    simp only [htree]
    split
    · next hskip => exact absurd (h.symm.trans hskip) (List.cons_ne_nil _ _)
    · next hskip =>
      obtain rfl := (List.cons.inj (h.symm.trans hskip)).2
      exact ⟨_, rfl⟩
    · next hskip => exact absurd (List.cons.inj (h.symm.trans hskip)).1 (by decide)
    · next hne _ hskip => exact absurd (List.cons.inj (h.symm.trans hskip)).1.symm hne
  · next hskip => exact absurd (hcolon.symm.trans hskip) (List.cons_ne_nil _ _)
  · next hne hskip => exact absurd (List.cons.inj (hcolon.symm.trans hskip)).1.symm hne

/-- Any other entry is followed by a comma, and by the key of the entry after it. -/
theorem readEntries_more {next : List Char} (h : skipBlanks middle = ',' :: after)
    (hafter : skipBlanks after = '"' :: next)
    (hread : ∀ hnext, (readEntries leaves depth bound ((key, tree) :: read) next hnext).Gives
      entries rest) :
    (readEntries leaves depth bound read text hbound).Gives entries rest := by
  obtain ⟨hltKey, hkey⟩ := hkey
  obtain ⟨hltTree, htree⟩ := htree
  rw [readEntries]
  simp only [hkey]
  split
  · next hskip =>
    obtain rfl := (List.cons.inj (hcolon.symm.trans hskip)).2
    simp only [htree]
    split
    · next hskip => exact absurd (h.symm.trans hskip) (List.cons_ne_nil _ _)
    · next hskip => exact absurd (List.cons.inj (h.symm.trans hskip)).1 (by decide)
    · next hskip =>
      obtain rfl := (List.cons.inj (h.symm.trans hskip)).2
      split
      · next hquote =>
        obtain rfl := (List.cons.inj (hafter.symm.trans hquote)).2
        exact hread _
      · next hbrace => exact absurd (List.cons.inj (hafter.symm.trans hbrace)).1 (by decide)
      · next hend => exact absurd (hafter.symm.trans hend) (List.cons_ne_nil _ _)
      · next hne _ hother => exact absurd (List.cons.inj (hafter.symm.trans hother)).1.symm hne
    · next hne hskip => exact absurd (List.cons.inj (h.symm.trans hskip)).1.symm hne
  · next hskip => exact absurd (hcolon.symm.trans hskip) (List.cons_ne_nil _ _)
  · next hne hskip => exact absurd (List.cons.inj (hcolon.symm.trans hskip)).1.symm hne

end Entries

/-- A text with nothing after its tree is read as the tree. -/
theorem readText_eq_ok {text : List Char} {tree : Tree ν σ}
    (h : (readTree leaves depth (skipBlanks text)).Gives tree []) :
    readText leaves depth text = .ok tree := by
  obtain ⟨hlt, h⟩ := h
  rw [readText, h]
  rfl

end Reader

/-! ## Trees -/

namespace Tree

/-- Containers are nested no deeper than allowed, and each number has a property. -/
inductive Fits {ν : Type} (p : ν → Prop) : Nat → Tree ν String → Prop where
  | null {allowed : Nat} : Fits p allowed .null
  | bool {allowed : Nat} (b : Bool) : Fits p allowed (.bool b)
  | number {allowed : Nat} {n : ν} (h : p n) : Fits p allowed (.number n)
  | string {allowed : Nat} (s : String) : Fits p allowed (.string s)
  | array {allowed : Nat} {elements : List (Tree ν String)}
    (each : ∀ x ∈ elements, Fits p allowed x) : Fits p (allowed + 1) (.array elements)
  | object {allowed : Nat} {entries : List (String × Tree ν String)}
    (each : ∀ entry ∈ entries, Fits p allowed entry.2) : Fits p (allowed + 1) (.object entries)

section Print

variable {ν : Type} (text : ν → String) (back : ν → Number) (layout : Layout)

/-- The print of a tree is read back, whatever follows it. -/
structure ReadsBack (allowed : Nat) (tree : Tree ν String) : Prop where
  begins : ∀ depth, ∃ c cs, tree.render text layout depth = c :: cs ∧ isBlank c = false ∧ c ≠ ']'
  gives : ∀ depth rest, AfterNumber rest →
    (readTree .strict allowed (tree.render text layout depth ++ rest)).Gives (tree.map back id) rest

variable {text back layout} (hlayout : layout.Blank) {allowed depth bound : Nat} {rest : List Char}
include hlayout

/-- What follows an element is a blank, a comma or a bracket. -/
theorem afterNumber_renderElements (elements : List (Tree ν String)) :
    AfterNumber (renderElements text layout depth elements ++ rest) := by
  cases elements with
  | nil =>
    rw [renderElements, List.append_assoc]
    refine afterNumber_blanks (hlayout.lineBreak depth) ?_
    rintro _ ⟨rfl⟩
    decide
  | cons element elements =>
    rw [renderElements]
    rintro _ ⟨rfl⟩
    decide

/-- The elements of an array are read back, from any of them on. -/
theorem readElements_render (first : Tree ν String) {elements : List (Tree ν String)}
    (h : ∀ x ∈ first :: elements, x.ReadsBack text back layout allowed)
    (read : List (Tree Number String))
    (hbound : (first.render text layout (depth + 1) ++
      (renderElements text layout depth elements ++ rest)).length ≤ bound) :
    (readElements .strict allowed bound read (first.render text layout (depth + 1) ++
      (renderElements text layout depth elements ++ rest)) hbound).Gives
        (read.reverse ++ mapElements back id (first :: elements)) rest := by
  induction elements generalizing first read with
  | nil =>
    have hfirst := (h first List.mem_cons_self).gives (depth + 1)
      (renderElements text layout depth [] ++ rest) (afterNumber_renderElements hlayout [])
    have hskip : skipBlanks (renderElements text layout depth [] ++ rest) = ']' :: rest := by
      rw [renderElements, List.append_assoc, skipBlanks_append (hlayout.lineBreak depth)]
      exact skipBlanks_cons rfl rest
    have hlast : (readElements .strict allowed bound read _ hbound).Gives
        (first.map back id :: read).reverse rest := readElements_last hbound hfirst hskip
    rw [List.reverse_cons] at hlast
    exact hlast
  | cons second elements ih =>
    obtain ⟨hfirst, hothers⟩ := List.forall_mem_cons.mp h
    obtain ⟨c, cs, hbegins, hblank, hc⟩ := (hothers second List.mem_cons_self).begins (depth + 1)
    have hmiddle := hfirst.gives (depth + 1)
      (renderElements text layout depth (second :: elements) ++ rest)
      (afterNumber_renderElements hlayout _)
    have hskip : skipBlanks (renderElements text layout depth (second :: elements) ++ rest) =
        ',' :: (layout.lineBreak (depth + 1) ++ (second.render text layout (depth + 1) ++
          (renderElements text layout depth elements ++ rest))) := by
      simp only [renderElements, List.cons_append, List.append_assoc]
      exact skipBlanks_cons rfl _
    have hnext : skipBlanks (layout.lineBreak (depth + 1) ++
        (second.render text layout (depth + 1) ++
          (renderElements text layout depth elements ++ rest))) =
          c :: (cs ++ (renderElements text layout depth elements ++ rest)) := by
      rw [skipBlanks_append (hlayout.lineBreak _), hbegins, List.cons_append,
        skipBlanks_cons hblank]
    have hread := ih second hothers (first.map back id :: read)
    rw [hbegins, List.cons_append, List.reverse_cons, List.append_assoc] at hread
    exact readElements_more hbound hmiddle hskip hnext hc hread

/-- What follows an entry is a blank, a comma or a brace. -/
theorem afterNumber_renderEntries (entries : List (String × Tree ν String)) :
    AfterNumber (renderEntries text layout depth entries ++ rest) := by
  cases entries with
  | nil =>
    rw [renderEntries, List.append_assoc]
    refine afterNumber_blanks (hlayout.lineBreak depth) ?_
    rintro _ ⟨rfl⟩
    decide
  | cons entry entries =>
    rw [renderEntries]
    rintro _ ⟨rfl⟩
    decide

omit hlayout in
/-- A tree whose print is read back does not begin with a blank. -/
theorem ReadsBack.skipBlanks_render {tree : Tree ν String}
    (h : tree.ReadsBack text back layout allowed) (after : List Char) :
    skipBlanks (tree.render text layout depth ++ after) =
      tree.render text layout depth ++ after := by
  obtain ⟨c, cs, hbegins, hblank, -⟩ := h.begins depth
  rw [hbegins, List.cons_append, skipBlanks_cons hblank]

/-- An entry after the opening quote of its key, and those after it. -/
def renderFromKey (text : ν → String) (layout : Layout) (depth : Nat)
    (key : String) (value : Tree ν String) (entries : List (String × Tree ν String))
    (rest : List Char) : List Char :=
  key.toList.flatMap escapeChar ++ '"' :: (layout.colon ++
    (value.render text layout (depth + 1) ++ (renderEntries text layout depth entries ++ rest)))

/-- The parts of an entry are read back: its key, the colon, and its value. -/
theorem exists_entry_parts (depth : Nat) (key : String) {value : Tree ν String}
    (entries : List (String × Tree ν String)) (rest : List Char)
    (h : value.ReadsBack text back layout allowed) :
    ∃ colon middle,
      (Leaves.strict.string (renderFromKey text layout depth key value entries rest)).Gives
          key colon ∧
        skipBlanks colon = ':' :: middle ∧
        (readTree .strict allowed (skipBlanks middle)).Gives (value.map back id)
          (renderEntries text layout depth entries ++ rest) := by
  obtain ⟨blanks, hcolon, hblanks⟩ := hlayout.colon
  have htree := h.gives (depth + 1) (renderEntries text layout depth entries ++ rest)
    (afterNumber_renderEntries hlayout entries)
  rw [← h.skipBlanks_render, ← skipBlanks_append hblanks] at htree
  refine ⟨_, _, string_gives key _, ?_, htree⟩
  rw [hcolon]
  exact skipBlanks_cons rfl _

/-- The entries of an object are read back, from any of them on. -/
theorem readEntries_render (key : String) (value : Tree ν String)
    {entries : List (String × Tree ν String)}
    (h : ∀ entry ∈ (key, value) :: entries, entry.2.ReadsBack text back layout allowed)
    (read : List (String × Tree Number String))
    (hbound : (renderFromKey text layout depth key value entries rest).length ≤ bound) :
    (readEntries .strict allowed bound read
      (renderFromKey text layout depth key value entries rest) hbound).Gives
        (read.reverse ++ mapEntries back id ((key, value) :: entries)) rest := by
  induction entries generalizing key value read with
  | nil =>
    obtain ⟨colon, middle, hkey, hcolon, htree⟩ :=
      exists_entry_parts hlayout depth key [] rest (h (key, value) List.mem_cons_self)
    have hskip : skipBlanks (renderEntries text layout depth [] ++ rest) = '}' :: rest := by
      rw [renderEntries, List.append_assoc, skipBlanks_append (hlayout.lineBreak depth)]
      exact skipBlanks_cons rfl rest
    have hlast : (readEntries .strict allowed bound read _ hbound).Gives
        ((key, value.map back id) :: read).reverse rest :=
      readEntries_last hbound hkey hcolon htree hskip
    rw [List.reverse_cons] at hlast
    exact hlast
  | cons second entries ih =>
    obtain ⟨other, tree⟩ := second
    obtain ⟨hentry, hothers⟩ := List.forall_mem_cons.mp h
    obtain ⟨colon, middle, hkey, hcolon, htree⟩ :=
      exists_entry_parts hlayout depth key ((other, tree) :: entries) rest hentry
    have hskip : skipBlanks (renderEntries text layout depth ((other, tree) :: entries) ++ rest) =
        ',' :: (layout.lineBreak (depth + 1) ++
          ('"' :: renderFromKey text layout depth other tree entries rest)) := by
      simp only [renderEntries, renderFromKey, quote, List.cons_append, List.append_assoc]
      exact skipBlanks_cons rfl _
    have hnext : skipBlanks (layout.lineBreak (depth + 1) ++
        ('"' :: renderFromKey text layout depth other tree entries rest)) =
          '"' :: renderFromKey text layout depth other tree entries rest := by
      rw [skipBlanks_append (hlayout.lineBreak _), skipBlanks_cons rfl]
    have hread := ih other tree hothers ((key, value.map back id) :: read)
    rw [List.reverse_cons, List.append_assoc] at hread
    exact readEntries_more hbound hkey hcolon htree hskip hnext hread

omit hlayout in
/-- A number is read back if it is written as what it is read as. -/
theorem readsBack_number {n : ν} (h : (back n).WrittenAs (text n).toList) :
    (number n).ReadsBack text back layout allowed := by
  obtain ⟨numeral, hregular, hchars, hvalue⟩ := h
  obtain ⟨c, cs, hcons, hc⟩ := exists_chars_eq_cons hregular
  constructor
  case begins =>
    refine fun depth => ⟨c, cs, hchars.symm.trans hcons, ?_⟩
    rcases hc with rfl | hdigit
    · decide
    · simp only [isBlank, Bool.or_eq_false_iff, decide_eq_false_iff_not]
      refine ⟨⟨⟨⟨?_, ?_⟩, ?_⟩, ?_⟩, ?_⟩
      all_goals
        rintro rfl
        exact absurd hdigit (by decide)
  case gives =>
    intro depth rest hrest
    have hread := strictNumber_gives hregular hrest hvalue
    rw [hcons, List.cons_append] at hread
    rw [render, ← hchars, hcons, List.cons_append]
    exact readTree_number hc hread

/-- An array is read back if its elements are. -/
theorem readsBack_array {elements : List (Tree ν String)}
    (h : ∀ x ∈ elements, x.ReadsBack text back layout allowed) :
    (array elements).ReadsBack text back layout (allowed + 1) := by
  constructor
  case begins =>
    intro depth
    cases elements with
    | nil => exact ⟨'[', _, rfl, rfl, by decide⟩
    | cons first elements => exact ⟨'[', _, rfl, rfl, by decide⟩
  case gives =>
    intro depth rest hrest
    cases elements with
    | nil => exact readTree_array_empty (skipBlanks_cons rfl rest)
    | cons first elements =>
      obtain ⟨c, cs, hbegins, hblank, hc⟩ := (h first List.mem_cons_self).begins (depth + 1)
      have hskip : skipBlanks (layout.lineBreak (depth + 1) ++
          (first.render text layout (depth + 1) ++
            (renderElements text layout depth elements ++ rest))) =
            c :: (cs ++ (renderElements text layout depth elements ++ rest)) := by
        rw [skipBlanks_append (hlayout.lineBreak _), hbegins, List.cons_append,
          skipBlanks_cons hblank]
      have hread (bound : Nat) (hbound : (first.render text layout (depth + 1) ++
          (renderElements text layout depth elements ++ rest)).length ≤ bound) :=
        readElements_render hlayout first h [] hbound
      simp only [hbegins, List.cons_append, List.reverse_nil, List.nil_append] at hread
      have hrender : (array (first :: elements)).render text layout depth ++ rest =
          '[' :: (layout.lineBreak (depth + 1) ++ (first.render text layout (depth + 1) ++
            (renderElements text layout depth elements ++ rest))) := by
        simp only [render, List.cons_append, List.append_assoc]
      rw [hrender]
      exact readTree_array hskip hc hread

/-- An object is read back if its values are. -/
theorem readsBack_object {entries : List (String × Tree ν String)}
    (h : ∀ entry ∈ entries, entry.2.ReadsBack text back layout allowed) :
    (object entries).ReadsBack text back layout (allowed + 1) := by
  constructor
  case begins =>
    intro depth
    cases entries with
    | nil => exact ⟨'{', _, rfl, rfl, by decide⟩
    | cons first entries => exact ⟨'{', _, rfl, rfl, by decide⟩
  case gives =>
    intro depth rest hrest
    cases entries with
    | nil => exact readTree_object_empty (skipBlanks_cons rfl rest)
    | cons first entries =>
      obtain ⟨key, value⟩ := first
      have hskip : skipBlanks (layout.lineBreak (depth + 1) ++
          ('"' :: renderFromKey text layout depth key value entries rest)) =
            '"' :: renderFromKey text layout depth key value entries rest := by
        rw [skipBlanks_append (hlayout.lineBreak _), skipBlanks_cons rfl]
      have hrender : (object ((key, value) :: entries)).render text layout depth ++ rest =
          '{' :: (layout.lineBreak (depth + 1) ++
            ('"' :: renderFromKey text layout depth key value entries rest)) := by
        simp only [render, renderFromKey, quote, List.cons_append, List.append_assoc,
          List.nil_append]
      rw [hrender]
      exact readTree_object hskip fun bound hbound =>
        readEntries_render hlayout key value h [] hbound

/-- A tree is read back if its numbers are written as what they are read as. -/
theorem readsBack_of_fits {p : ν → Prop} (hwritten : ∀ n, p n → (back n).WrittenAs (text n).toList)
    {tree : Tree ν String} (h : tree.Fits p allowed) : tree.ReadsBack text back layout allowed := by
  induction h with
  | null =>
    refine ⟨fun _ => ⟨'n', _, rfl, rfl, by decide⟩, fun _ rest _ => ?_⟩
    show (readTree .strict _ ('n' :: (['u', 'l', 'l'] ++ rest))).Gives .null rest
    rw [readTree]
    exact word_gives _ _ rest
  | bool b =>
    cases b with
    | false =>
      refine ⟨fun _ => ⟨'f', _, rfl, rfl, by decide⟩, fun _ rest _ => ?_⟩
      show (readTree .strict _ ('f' :: (['a', 'l', 's', 'e'] ++ rest))).Gives (.bool false) rest
      rw [readTree]
      exact word_gives _ _ rest
    | true =>
      refine ⟨fun _ => ⟨'t', _, rfl, rfl, by decide⟩, fun _ rest _ => ?_⟩
      show (readTree .strict _ ('t' :: (['r', 'u', 'e'] ++ rest))).Gives (.bool true) rest
      rw [readTree]
      exact word_gives _ _ rest
  | number h => exact readsBack_number (hwritten _ h)
  | string s =>
    refine ⟨fun _ => ⟨'"', _, rfl, rfl, by decide⟩, fun _ rest _ => ?_⟩
    rw [render, quote, List.append_assoc]
    exact readTree_string (string_gives s rest)
  | array each ih => exact readsBack_array hlayout ih
  | object each ih => exact readsBack_object hlayout ih

/-- A printed tree is read back from the whole text. -/
theorem readText_print {p : ν → Prop} (hwritten : ∀ n, p n → (back n).WrittenAs (text n).toList)
    {tree : Tree ν String} (h : tree.Fits p allowed) :
    readText .strict allowed (tree.print text layout).toList = .ok (tree.map back id) := by
  have hreadsBack := readsBack_of_fits hlayout hwritten h
  have hread := hreadsBack.gives 0 [] nofun
  rw [← hreadsBack.skipBlanks_render, List.append_nil] at hread
  rw [print, String.toList_ofList]
  exact readText_eq_ok hread

end Print

end Tree

end VisualNovel.Json
