import VisualNovel.Files
import VisualNovel.Settings
import VisualNovel.Toml.Document

/-!
# Settings files

Settings are kept in a TOML file with two keys, `char_interval` and `reveal_advance`. A key that is
absent leaves the standard setting, and other keys do not count.

`Settings.ofText` reads and validates a text, `Settings.toText` writes one; `Settings.load` and
`Settings.save` do the same with a file.
-/

namespace VisualNovel.Settings

/-- The interval in an item: a float or an integer, rounded to single precision. -/
def intervalOf? : Toml.Item → Option Single
  | .float x => some x.narrow
  | .integer n => some (.ofInt n)
  | _ => none

/-- Whether an item is a table or an array without content. -/
def isEmptyItem : Toml.Item → Bool
  | .array [] => true
  | .inlineTable [] => true
  | .table _ [] => true
  | _ => false

/-- The choice in an item: its word, or a table with the word as its only key and nothing in it. -/
def choiceOf? : Toml.Item → Option RevealAdvance
  | .string word => RevealAdvance.ofWord? word
  | .inlineTable [(word, item)] => if isEmptyItem item then RevealAdvance.ofWord? word else none
  | .table _ [(word, item)] => if isEmptyItem item then RevealAdvance.ofWord? word else none
  | _ => none

/-- A setting under a key, or the standard one if the key is absent. -/
def setting? {α : Type} (entries : Toml.Entries) (key : String) (read : Toml.Item → Option α)
    (standard : α) : Option α :=
  match entries.lookup key with
  | none => some standard
  | some item => read item

/-- The settings in a document. -/
def ofEntries? (entries : Toml.Entries) : Option Settings := do
  let charInterval ← setting? entries "char_interval" intervalOf? standard.charInterval
  let revealAdvance ← setting? entries "reveal_advance" choiceOf? standard.revealAdvance
  return ⟨charInterval, revealAdvance⟩

/-- The settings in a text, if they are valid. -/
def ofText (text : String) : Except Error Settings := do
  match (Toml.parse? text.toList).bind ofEntries? with
  | none => throw (.settings .unreadable)
  | some settings =>
    settings.validate
    return settings

/-- The text of settings. -/
def toText (settings : Settings) : String :=
  "char_interval = " ++ settings.charInterval.widen.text .settings ++ "\nreveal_advance = \""
    ++ settings.revealAdvance.word ++ "\"\n"

/-- The settings in a file; where nothing stands at the path the standard settings hold. -/
def load (files : Files) (path : String) : Except Error Settings :=
  match files.find? path with
  | none => .ok standard
  | some _ => do ofText (← files.readText path)

/-- Writes settings into a file. They need not be valid. -/
def save (settings : Settings) (files : Files) (path : String) : Files × Except Error Unit :=
  files.write path settings.toText.toUTF8

end VisualNovel.Settings
