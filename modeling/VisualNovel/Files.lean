import VisualNovel.Error

/-!
# Files

Scenes and settings are kept in files. `Files` is what stands below one folder, the top: further
folders, and files with their content. A path is walked from the top, part by part; walking on is
only possible from a folder, and leading upward from the top stays there.

`Files.find?` says what a path leads to, and `Files.readText` reads the text there. `Files.write`
puts content at a path and makes the folders that are missing on the way.
-/

namespace VisualNovel

/-! ## Paths -/

namespace Path

/-- The pieces of a text between its slashes. -/
def split : List Char → List (List Char)
  | [] => [[]]
  | c :: rest =>
    if c = '/' then [] :: split rest
    else
      match split rest with
      | [] => [[c]]
      | piece :: pieces => (c :: piece) :: pieces

/-- The parts of a path. -/
def parts (path : String) : List String :=
  (split path.toList).map String.ofList

/-- Whether a part stays in the folder that was reached. -/
def staysPut (part : String) : Bool :=
  part = "" ∨ part = "."

/-- Whether a folder or a file may be called so: within 255 bytes, without the null character, and
none of the parts with a meaning of their own. -/
def isName (part : String) : Bool :=
  ¬ staysPut part ∧ part ≠ ".." ∧ part.utf8ByteSize ≤ 255 ∧ '\x00' ∉ part.toList

/-- The parts in front of the last one that does not stay put. -/
def front (parts : List String) : List String :=
  (parts.reverse.dropWhile staysPut).tail.reverse

/-- The last component of a path; none if it leads upward. -/
def fileName? (path : String) : Option String :=
  ((parts path).reverse.dropWhile staysPut).head?.filter (· ≠ "..")

/-- A file name without what follows its last point; a point in front does not count. -/
def stem (fileName : String) : String :=
  match fileName.toList.reverse.dropWhile (· ≠ '.') with
  | '.' :: c :: front => String.ofList (c :: front).reverse
  | _ => fileName

end Path

/-! ## What stands below a folder -/

/-- The names that lead from the top to a folder or file, the innermost first. -/
abbrev Place := List String

/-- The folders below the top, and the files with their content. -/
structure Files where
  folders : List Place
  contents : List (Place × ByteArray)

namespace Files

/-- What a path can lead to. -/
inductive Item where
  | folder
  | file (content : ByteArray)

/-- Nothing but the top. -/
def empty : Files := ⟨[], []⟩

/-- Whether a place is a folder; the top always is. -/
def isFolder (files : Files) (place : Place) : Bool :=
  place = [] ∨ place ∈ files.folders

/-- What stands at a place. -/
def item? (files : Files) (place : Place) : Option Item :=
  if files.isFolder place then some .folder
  else (files.contents.lookup place).map .file

/-- The place one part further; nothing has to stand there yet. -/
def step? (files : Files) (place : Place) (part : String) : Option Place :=
  if ¬ files.isFolder place then none
  else if Path.staysPut part then some place
  else if part = ".." then some place.tail
  else some (part :: place)

/-- The place that parts lead to. -/
def walk? (files : Files) (place : Place) (parts : List String) : Option Place :=
  parts.foldlM files.step? place

/-- What a path leads to. -/
def find? (files : Files) (path : String) : Option Item :=
  (files.walk? [] (Path.parts path)).bind files.item?

/-- The text of the file that a path leads to. -/
def readText (files : Files) (path : String) : Except Error String :=
  match files.find? path with
  | some (.file content) =>
    match String.fromUTF8? content with
    | some text => .ok text
    | none => .error .inaccessibleFile
  | _ => .error .inaccessibleFile

/-! ## Writing -/

/-- Walks like `walk?` through folders only, and makes those that are missing. What was made stays
even if the walk fails later. -/
def makeFolders (files : Files) (place : Place) : List String → Files × Option Place
  | [] => (files, some place)
  | part :: rest =>
    match files.step? place part with
    | none => (files, none)
    | some next =>
      match files.item? next with
      | some .folder => files.makeFolders next rest
      | some (.file _) => (files, none)
      | none =>
        if Path.isName part then
          { files with folders := next :: files.folders }.makeFolders next rest
        else (files, none)

/-- The files with a new content at a place. -/
def put (files : Files) (place : Place) (content : ByteArray) : Files :=
  { files with contents := (place, content) :: files.contents.filter (·.1 ≠ place) }

/-- Whether content can be put at a place: there is a file already, or there could be one. -/
def takesContent (files : Files) (place : Place) : Bool :=
  match files.item? place with
  | some .folder => false
  | some (.file _) => true
  | none => place.head?.any Path.isName

/-- Writes a file. The folders in front of it are made if they are missing, and stay even if the
file cannot be written. -/
def write (files : Files) (path : String) (content : ByteArray) : Files × Except Error Unit :=
  let parts := Path.parts path
  let (files, folder?) := files.makeFolders [] (Path.front parts)
  match folder?.bind fun _ => files.walk? [] parts with
  | none => (files, .error .inaccessibleFile)
  | some place =>
    if files.takesContent place then (files.put place content, .ok ())
    else (files, .error .inaccessibleFile)

end Files

end VisualNovel
