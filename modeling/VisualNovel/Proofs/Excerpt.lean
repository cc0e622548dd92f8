import VisualNovel.Excerpt

/-!
# Windows on a text

The window of an excerpt is cut from the text between two characters, whatever place it is asked
for, so the slice is never refused (`Excerpt.of_shows`). It is all that stands within the reach of
the marked byte, and longer than that by three bytes at most on either side, which is what is left
of a character that the reach would cut.

Where a line begins with characters of one byte each, the columns among these are counted right: the
mark is at the byte of the column. What comes before a line of a text (`Excerpt.BeforeLine`) is
divided into lines by itself, so a place can be looked up behind the lines before it.
-/

namespace VisualNovel

/-! ## Bytes of a text -/

section Bytes

variable {text : List Char}

/-- Bytes are counted as they are in a string. -/
theorem utf8ByteSize_ofList (text : List Char) :
    (String.ofList text).utf8ByteSize = byteCount text := by
  induction text with
  | nil => rfl
  | cons c text ih =>
    rw [String.ofList_cons, String.utf8ByteSize_append, String.utf8ByteSize_singleton, ih,
      byteCount_cons]

/-- A text of characters of one byte each has as many bytes as characters. -/
theorem byteCount_eq_length (h : ∀ c ∈ text, c.toNat < 128) : byteCount text = text.length := by
  induction text with
  | nil => rfl
  | cons c text ih =>
    rw [List.forall_mem_cons] at h
    have hsize : c.utf8Size = 1 :=
      Char.utf8Size_eq_one_iff.mpr (UInt32.le_iff_toNat_le.mpr (Nat.le_of_lt_succ h.1))
    rw [byteCount_cons, ih h.2, hsize, List.length_cons, Nat.add_comm]

/-! ## The nearest boundaries -/

/-- A byte of a text that is no boundary is inside a character. -/
theorem exists_inside {byte : Nat} (h : byte ≤ byteCount text) (hinside : ¬isBoundary text byte) :
    ∃ before c after, text = before ++ c :: after ∧ byteCount before < byte ∧
      byte < byteCount before + c.utf8Size := by
  induction text generalizing byte with
  | nil =>
    obtain rfl : byte = 0 := Nat.le_zero.mp h
    exact absurd (isBoundary_zero []) hinside
  | cons c rest ih =>
    rw [byteCount_cons] at h
    rcases Nat.lt_or_ge byte c.utf8Size with hlt | hge
    · have hne : byte ≠ 0 := fun hzero => hinside (hzero ▸ isBoundary_zero _)
      refine ⟨[], c, rest, rfl, Nat.pos_of_ne_zero hne, ?_⟩
      rw [byteCount_nil]
      omega
    · have hrest : ¬isBoundary rest (byte - c.utf8Size) := by
        intro hboundary
        obtain ⟨before, after, rfl, hcount⟩ := isBoundary_iff.mp hboundary
        refine hinside (isBoundary_iff.mpr ⟨c :: before, after, rfl, ?_⟩)
        rw [byteCount_cons]
        omega
      obtain ⟨before, inner, after, rfl, hbefore, hafter⟩ := ih (by omega) hrest
      refine ⟨c :: before, inner, after, rfl, ?_, ?_⟩ <;> rw [byteCount_cons] <;> omega

/-- Both ends of a character are boundaries. -/
theorem isBoundary_ends (before : List Char) (c : Char) (after : List Char) :
    isBoundary (before ++ c :: after) (byteCount before) ∧
      isBoundary (before ++ c :: after) (byteCount before + c.utf8Size) := by
  refine ⟨isBoundary_iff.mpr ⟨before, c :: after, rfl, rfl⟩,
    isBoundary_iff.mpr ⟨before ++ [c], after, ?_, ?_⟩⟩
  · rw [List.append_assoc, List.singleton_append]
  · rw [byteCount_append, byteCount_cons, byteCount_nil, Nat.add_zero]

/-- Going backward stops at the first boundary. -/
theorem le_boundaryBefore {byte boundary : Nat} (h : isBoundary text boundary)
    (hle : boundary ≤ byte) : boundary ≤ boundaryBefore text byte := by
  induction byte with
  | zero => exact hle
  | succ byte ih =>
    rw [boundaryBefore]
    split
    · exact hle
    · next hno =>
      have hne : boundary ≠ byte + 1 := fun heq => hno (heq ▸ h)
      exact ih (by omega)

/-- Going forward stops at the first boundary. -/
theorem boundaryAfter_le {byte boundary : Nat} (h : isBoundary text boundary)
    (hle : byte ≤ boundary) : boundaryAfter text byte ≤ boundary := by
  induction byte using boundaryAfter.induct text with
  | case1 byte hmore ih =>
    have hne : byte ≠ boundary := fun heq => hmore.2 (heq ▸ h)
    rw [boundaryAfter, dif_pos hmore]
    exact ih (by omega)
  | case2 byte hdone =>
    rw [boundaryAfter, dif_neg hdone]
    exact hle

/-- Going backward passes three bytes at most, as a character has four. -/
theorem le_boundaryBefore_add {byte : Nat} (h : byte ≤ byteCount text) :
    byte ≤ boundaryBefore text byte + 3 := by
  by_cases hboundary : isBoundary text byte
  · exact Nat.le_add_right_of_le (le_boundaryBefore hboundary (Nat.le_refl _))
  · obtain ⟨before, c, after, rfl, hbefore, hafter⟩ := exists_inside h hboundary
    have hstart := le_boundaryBefore (isBoundary_ends before c after).1 (Nat.le_of_lt hbefore)
    have hsize := c.utf8Size_le_four
    omega

/-- Going forward passes three bytes at most, as a character has four. -/
theorem boundaryAfter_le_add {byte : Nat} (h : byte ≤ byteCount text) :
    boundaryAfter text byte ≤ byte + 3 := by
  by_cases hboundary : isBoundary text byte
  · exact Nat.le_add_right_of_le (boundaryAfter_le hboundary (Nat.le_refl _))
  · obtain ⟨before, c, after, rfl, hbefore, hafter⟩ := exists_inside h hboundary
    have hstop := boundaryAfter_le (isBoundary_ends before c after).2 (Nat.le_of_lt hafter)
    have hsize := c.utf8Size_le_four
    omega

end Bytes

namespace Excerpt

/-! ## Windows -/

/-- A window is the part of a text from one byte up to another, and at both a character begins or
the text ends. -/
structure IsPart (window text : String) (start stop : Nat) : Prop where
  start_valid : String.Pos.Raw.IsValid text ⟨start⟩
  stop_valid : String.Pos.Raw.IsValid text ⟨stop⟩
  bytes_eq : window.toByteArray = text.toByteArray.extract start stop
  stop_eq : stop = start + window.utf8ByteSize

/-- Characters in a row make up such a part. -/
theorem isPart_append (before window after : List Char) :
    IsPart (String.ofList window) (String.ofList (before ++ window ++ after)) (byteCount before)
      (byteCount before + byteCount window) := by
  have hsize (part : List Char) : byteCount part = (String.ofList part).toByteArray.size := by
    rw [String.size_toByteArray, utf8ByteSize_ofList]
  constructor
  case start_valid =>
    rw [String.Pos.Raw.isValid_iff_exists_append]
    refine ⟨.ofList before, .ofList (window ++ after), ?_, ?_⟩
    · rw [← String.ofList_append, List.append_assoc]
    · rw [String.rawEndPos, utf8ByteSize_ofList]
  case stop_valid =>
    rw [String.Pos.Raw.isValid_iff_exists_append]
    refine ⟨.ofList (before ++ window), .ofList after, String.ofList_append, ?_⟩
    rw [String.rawEndPos, utf8ByteSize_ofList, byteCount_append]
  case bytes_eq =>
    rw [String.ofList_append, String.toByteArray_append, ← byteCount_append,
      hsize (before ++ window), ByteArray.extract_append_size_left, String.ofList_append,
      String.toByteArray_append, ByteArray.size_append]
    exact (ByteArray.extract_append_eq_right (hsize before) rfl).symm
  case stop_eq => rw [utf8ByteSize_ofList]

/-! ## Lines -/

/-- The lines of a text make up the text. -/
theorem flatten_lines (text : List Char) : (lines text).flatten = text := by
  induction text with
  | nil => rfl
  | cons c rest ih =>
    rw [lines]
    split
    · rw [List.flatten_cons, ih, List.singleton_append]
    · split
      · next hnone =>
        rw [hnone] at ih
        rw [← ih]
        rfl
      · next line others hlines =>
        rw [hlines, List.flatten_cons] at ih
        rw [List.flatten_cons, List.cons_append, ih]

/-- No line is empty: there is a line break to each but the last. -/
theorem ne_nil_of_mem_lines {text line : List Char} (h : line ∈ lines text) : line ≠ [] := by
  induction text generalizing line with
  | nil => exact absurd h List.not_mem_nil
  | cons c rest ih =>
    rw [lines] at h
    split at h
    · rcases List.mem_cons.mp h with rfl | hrest
      · exact List.cons_ne_nil _ _
      · exact ih hrest
    · split at h
      · rw [List.mem_singleton.mp h]
        exact List.cons_ne_nil _ _
      · next hlines =>
        rcases List.mem_cons.mp h with rfl | hrest
        · exact List.cons_ne_nil _ _
        · exact ih (hlines ▸ List.mem_cons_of_mem _ hrest)

/-- What comes before a line of a text: nothing before the first, and before each later one a line
more, with the line break that ends it. -/
inductive BeforeLine : List Char → Nat → Prop
  | first : BeforeLine [] 1
  | next {line before : List Char} {number : Nat} :
      '\n' ∉ line → BeforeLine before number → BeforeLine (line ++ '\n' :: before) (number + 1)

/-- A line ends with its line break, and what follows is divided as if it stood alone. -/
theorem lines_break {line : List Char} (h : '\n' ∉ line) (rest : List Char) :
    lines (line ++ '\n' :: rest) = (line ++ ['\n']) :: lines rest := by
  induction line with
  | nil => rw [List.nil_append, lines, if_pos rfl, List.nil_append]
  | cons c line ih =>
    rw [List.mem_cons, not_or] at h
    rw [List.cons_append, lines, if_neg (Ne.symm h.1), ih h.2]
    rfl

/-- The lines of a text go on behind the earlier ones as those of what is left. -/
theorem BeforeLine.exists_lines {before : List Char} {number : Nat} (h : BeforeLine before number)
    (text : List Char) : ∃ earlier, lines (before ++ text) = earlier ++ lines text ∧
      earlier.flatten = before ∧ earlier.length + 1 = number := by
  induction h with
  | first => exact ⟨[], rfl, rfl, rfl⟩
  | @next line before number hline _ ih =>
    obtain ⟨earlier, hlines, hflatten, hlength⟩ := ih
    refine ⟨(line ++ ['\n']) :: earlier, ?_, ?_, congrArg (· + 1) hlength⟩
    · rw [List.append_assoc, List.cons_append, lines_break hline, hlines]
      rfl
    · rw [List.flatten_cons, hflatten, List.append_assoc, List.singleton_append]

/-- Characters without a line break among them, except for the last, stand in one line. -/
theorem exists_lines_eq_cons {head : List Char} (hne : head ≠ []) (h : '\n' ∉ head.dropLast)
    (rest : List Char) : ∃ line others, lines (head ++ rest) = line :: others ∧ head <+: line := by
  induction head with
  | nil => exact absurd rfl hne
  | cons c tail ih =>
    cases tail with
    | nil =>
      rw [List.singleton_append, lines]
      split
      · exact ⟨_, _, rfl, List.prefix_refl _⟩
      · split
        · exact ⟨_, _, rfl, List.prefix_refl _⟩
        · exact ⟨_, _, rfl, List.cons_prefix_cons.mpr ⟨rfl, List.nil_prefix⟩⟩
    | cons next tail =>
      rw [List.dropLast_cons_cons, List.mem_cons, not_or] at h
      obtain ⟨line, others, hlines, hprefix⟩ := ih (List.cons_ne_nil _ _) h.2
      refine ⟨c :: line, others, ?_, List.cons_prefix_cons.mpr ⟨rfl, hprefix⟩⟩
      rw [List.cons_append, lines, if_neg (Ne.symm h.1), hlines]

/-! ## The marked byte -/

/-- A column is at a byte of its line. -/
theorem columnOffset_lt {line : List Char} (h : line ≠ []) (column : Nat) :
    columnOffset line column < byteCount line := by
  rw [columnOffset]
  split
  · next hlt =>
    have hsplit : byteCount line =
        byteCount (line.take (column - 1)) + byteCount (line.drop (column - 1)) := by
      rw [← byteCount_append, List.take_append_drop]
    have hrest : 0 < byteCount (line.drop (column - 1)) :=
      byteCount_pos (mt List.drop_eq_nil_iff.mp (Nat.not_le.mpr hlt))
    omega
  · exact Nat.sub_one_lt (Nat.ne_of_gt (byteCount_pos h))

/-- A line and those before it are the beginning of the text. -/
theorem byteCount_line_le {text line : List Char} {index : Nat}
    (h : (lines text)[index]? = some line) :
    byteCount ((lines text).take index).flatten + byteCount line ≤ byteCount text := by
  obtain ⟨hlt, rfl⟩ := List.getElem?_eq_some_iff.mp h
  have hsplit : text = ((lines text).take index).flatten ++ (lines text)[index] ++
      ((lines text).drop (index + 1)).flatten := by
    rw [List.append_assoc, ← List.flatten_cons, ← List.drop_eq_getElem_cons hlt,
      ← List.flatten_append, List.take_append_drop, flatten_lines]
  have hcount := congrArg byteCount hsplit
  rw [byteCount_append, byteCount_append] at hcount
  omega

/-- Every place is at a byte of the text, or at the start of an empty one. -/
theorem offset_le (text : List Char) (place : Position) :
    offset text place ≤ byteCount text - 1 := by
  rw [offset]
  split
  · exact Nat.zero_le _
  · split
    · next line hline =>
      have hne := ne_nil_of_mem_lines (List.mem_of_getElem? hline)
      have hcolumn := columnOffset_lt hne place.column
      have hbefore := byteCount_line_le hline
      omega
    · exact Nat.le_refl _

/-- Among characters of one byte each, a column is the byte of that number in its line. -/
theorem offset_eq {before head : List Char} {place : Position}
    (hbefore : BeforeLine before place.line) (hlength : head.length = place.column)
    (hcolumn : 1 ≤ place.column) (hhead : '\n' ∉ head.dropLast)
    (hascii : ∀ c ∈ head, c.toNat < 128) (after : List Char) :
    offset (before ++ head ++ after) place = byteCount before + (place.column - 1) := by
  have hne : head ≠ [] := List.ne_nil_of_length_pos (hlength ▸ hcolumn)
  obtain ⟨earlier, hearlier, hflatten, hnumber⟩ := hbefore.exists_lines (head ++ after)
  obtain ⟨line, others, hlines, rest, rfl⟩ := exists_lines_eq_cons hne hhead after
  have hindex : place.line - 1 = earlier.length := by omega
  have hplace : ¬(place.line = 0 ∨ place.column = 0) := by omega
  rw [List.append_assoc, offset, if_neg hplace, hearlier, hlines, hindex,
    List.getElem?_append_right (Nat.le_refl _), Nat.sub_self, List.getElem?_cons_zero,
    List.take_left, hflatten]
  dsimp only
  have hshort : place.column - 1 < (head ++ rest).length := by
    rw [List.length_append]
    omega
  have hbytes : byteCount (head.take (place.column - 1)) = place.column - 1 := by
    rw [byteCount_eq_length fun c hc => hascii c (List.mem_of_mem_take hc), List.length_take]
    omega
  rw [columnOffset, if_pos hshort, List.take_append_of_le_length (by omega), hbytes]

/-! ## Excerpts -/

/-- An excerpt shows a byte of a text: its window is the part of the text from one byte up to
another, it reaches 160 bytes to either side as far as there is text, and one byte is marked in it
if there is one. -/
structure Shows (excerpt : Excerpt) (text : String) (offset start stop : Nat) : Prop where
  isPart : IsPart excerpt.window text start stop
  mark_eq : start + excerpt.start = offset
  reaches : ∀ i < text.utf8ByteSize, offset ≤ i + 160 → i ≤ offset + 160 → start ≤ i ∧ i < stop
  size_le : excerpt.window.utf8ByteSize ≤ 327
  mark_le : excerpt.start + excerpt.length ≤ excerpt.window.utf8ByteSize
  length_eq : excerpt.length = if text = "" then 0 else 1

/-- The text is divided into what comes before the window, the window, and what comes after it. The
window begins where its reach does or up to three bytes before, and ends where its reach does or up
to three bytes after. -/
theorem exists_parts_around {text : List Char} {offset : Nat} (h : offset ≤ byteCount text) :
    ∃ before window after, text = before ++ window ++ after ∧
      around? text offset = some ⟨String.ofList window, offset - byteCount before,
        min 1 (byteCount window - (offset - byteCount before))⟩ ∧
      byteCount before ≤ offset - reach ∧ offset - reach ≤ byteCount before + 3 ∧
      min (offset + 1 + reach) (byteCount text) ≤ byteCount before + byteCount window ∧
      byteCount before + byteCount window ≤ min (offset + 1 + reach) (byteCount text) + 3 := by
  have hfirst : offset - reach ≤ byteCount text := Nat.le_trans (Nat.sub_le _ _) h
  have hlast : min (offset + 1 + reach) (byteCount text) ≤ byteCount text := Nat.min_le_right _ _
  obtain ⟨window, hwindow⟩ := Option.isSome_iff_exists.mp (isSome_slice?_window text offset)
  obtain ⟨before, after, htext, hstart, hstop⟩ := slice?_eq_some_iff.mp hwindow
  refine ⟨before, window, after, htext, ?_, ?_, ?_, ?_, ?_⟩
  · rw [around?, hwindow, hstart]
    rfl
  · exact hstart ▸ boundaryBefore_le text _
  · exact hstart ▸ le_boundaryBefore_add hfirst
  · exact hstop ▸ le_boundaryAfter text _
  · exact hstop ▸ boundaryAfter_le_add hlast

/-- The excerpt around a byte shows it. -/
theorem exists_shows_around {text : List Char} {offset : Nat} (h : offset ≤ byteCount text - 1) :
    ∃ excerpt start stop, around? text offset = some excerpt ∧
      excerpt.Shows (String.ofList text) offset start stop := by
  obtain ⟨before, window, after, htext, heq, hbefore_le, hle_before, hle_window, hwindow_le⟩ :=
    exists_parts_around (Nat.le_trans h (Nat.sub_le _ 1))
  have htotal := congrArg byteCount htext
  rw [byteCount_append, byteCount_append] at htotal
  have hreach : reach = 160 := rfl
  have hmark : byteCount before + (offset - byteCount before) = offset := by omega
  -- the marked byte is in the window if there is a byte
  have hlength :
      min 1 (byteCount window - (offset - byteCount before)) = min 1 (byteCount text) := by
    omega
  rw [hlength] at heq
  refine ⟨_, _, _, heq, htext ▸ isPart_append before window after, hmark, ?_, ?_, ?_, ?_⟩
  · intro i hi hreaches hreached
    rw [utf8ByteSize_ofList] at hi
    omega
  · rw [utf8ByteSize_ofList]
    omega
  · rw [utf8ByteSize_ofList]
    dsimp only
    omega
  · dsimp only
    split
    · next hempty =>
      rw [← utf8ByteSize_ofList, hempty]
      rfl
    · next hmore =>
      have hsize := mt String.utf8ByteSize_eq_zero_iff.mp hmore
      rw [utf8ByteSize_ofList] at hsize
      omega

/-- Whatever place an excerpt is asked for, its window can be cut from the text, and it shows a byte
of the text. If the place is on a line that begins with as many characters of one byte as the column
says, this is the byte of the column, counted from the start of the line. -/
theorem of_shows (text : String) (place : Position) :
    ∃ excerpt start stop, Excerpt.of? text.toList place = some excerpt ∧
      Excerpt.of text.toList place = excerpt ∧
      excerpt.Shows text (offset text.toList place) start stop ∧
      ∀ before head after, text.toList = before ++ head ++ after →
        BeforeLine before place.line → head.length = place.column → 1 ≤ place.column →
        '\n' ∉ head.dropLast → (∀ c ∈ head, c.toNat < 128) →
        start + excerpt.start = (String.ofList before).utf8ByteSize + (place.column - 1) := by
  obtain ⟨excerpt, start, stop, heq, hshows⟩ := exists_shows_around (offset_le text.toList place)
  rw [String.ofList_toList] at hshows
  refine ⟨excerpt, start, stop, heq, Option.get_of_eq_some _ heq, hshows, ?_⟩
  intro before head after htext hbefore hlength hcolumn hhead hascii
  have hoffset := offset_eq hbefore hlength hcolumn hhead hascii after
  rw [← htext] at hoffset
  rw [utf8ByteSize_ofList, ← hoffset]
  exact hshows.mark_eq

/-- Two blanks begin the second line of a text, before a character of two bytes: at column two the
mark comes after five bytes. -/
theorem of_shows_blank :
    ∃ excerpt start stop, Excerpt.of? "[1,\n  é x]".toList ⟨2, 2⟩ = some excerpt ∧
      excerpt.Shows "[1,\n  é x]" 5 start stop ∧ start + excerpt.start = 5 := by
  obtain ⟨excerpt, start, stop, heq, -, hshows, hmark⟩ := of_shows "[1,\n  é x]" ⟨2, 2⟩
  have hoffset : offset "[1,\n  é x]".toList ⟨2, 2⟩ = 5 := by decide +kernel
  have hbefore : BeforeLine ("[1,".toList ++ '\n' :: []) 2 := .next (by decide) .first
  have hascii : ∀ c ∈ List.replicate 2 ' ', c.toNat < 128 := by
    intro c hc
    rw [List.eq_of_mem_replicate hc]
    decide
  have hbyte := hmark _ (List.replicate 2 ' ') "é x]".toList (by decide +kernel) hbefore rfl
    (Nat.le_succ 1) (by decide) hascii
  rw [hoffset] at hshows
  exact ⟨excerpt, start, stop, heq, hshows, hbyte.trans (by decide +kernel)⟩

end Excerpt

end VisualNovel
