import Typeline.History.Basic

/-!
# Histories in files

A history is kept in a file with one entry on each line, which only its owner may read. Reading
the file adds its lines as if they were entered one after another; a line counts up to a carriage
return in it, and bytes that are no text become U+FFFD.

## Main definitions

* `Folder` : the files that can be read and written.
* `History.save`, `History.load` : writing a history to a file and adding the entries of one.
-/

namespace Typeline

/-- What a name in a folder stands for. -/
inductive FileEntry where
  /-- A file with its bytes and its permissions. -/
  | file (bytes : List UInt8) (mode : Nat)
  /-- A folder. -/
  | folder
  deriving DecidableEq, Repr

/-- A folder: the names in it and what they stand for. The entry that was made last counts. -/
abbrev Folder := List (Text × FileEntry)

namespace Folder

/-- What a name stands for. A name with a slash leads into a folder that does not exist. -/
def find? (folder : Folder) (name : Text) : Option FileEntry :=
  if name.contains '/' then none else folder.lookup name

/-- Read a file. -/
def read (folder : Folder) (name : Text) : Except IoFailure (List UInt8) :=
  match folder.find? name with
  | some (.file bytes _) => .ok bytes
  | some .folder => .error .isDirectory
  | none => .error .notFound

/-- Write a file with the given permissions, whether there is one of that name or not. -/
def write (folder : Folder) (name : Text) (bytes : List UInt8) (mode : Nat) :
    Except IoFailure Folder :=
  if name.contains '/' then .error .notFound
  else match folder.find? name with
    | some .folder => .error .isDirectory
    | _ => .ok ((name, .file bytes mode) :: folder)

/-- Make a folder. -/
def makeFolder (folder : Folder) (name : Text) : Folder := (name, .folder) :: folder

end Folder

namespace History

/-- The permissions of a file of a history: reading and writing for its owner alone. -/
def fileMode : Nat := 0o600

/-- The text of a file of a history. -/
def fileText (h : History) : Text := h.entries.flatMap fun entry => entry ++ ['\n']

/-- The lines of the bytes of a file, without the line feeds that end them. What comes after the
last line feed is a line if it is not empty. -/
def fileLines : List UInt8 → List (List UInt8)
  | [] => []
  | b :: rest =>
    if b = 0x0A then [] :: fileLines rest
    else match fileLines rest with
      | [] => [[b]]
      | line :: lines => (b :: line) :: lines

/-- The entry on a line of a file. -/
def entryOfLine (line : List UInt8) : Text := Utf8.lossy (line.takeWhile (· ≠ 0x0D))

/-- A history with the entries of a file added. -/
def addBytes (h : History) (bytes : List UInt8) : History :=
  h.addAll ((fileLines bytes).map entryOfLine)

/-- Save a history to a file. -/
def save (h : History) (folder : Folder) (name : Text) : Except EditError Folder :=
  (folder.write name (Utf8.encode h.fileText) fileMode).mapError .io

/-- Add the entries of a file to a history. -/
def load (h : History) (folder : Folder) (name : Text) : Except EditError History :=
  ((folder.read name).map h.addBytes).mapError .io

end History

end Typeline
