import Gradual.Files.Access
import Gradual.Table

/-!
# Trees of files

A finite tree of files in memory. A path is followed piece by piece, and every piece but the last
has to be a folder, also before `..`.
-/

namespace Gradual

/-- Files with their bytes, folders that may be empty, and a place to work at. -/
structure FileTree where
  files : Table Place (List UInt8)
  folders : List Place
  workingPlace : Place

namespace FileTree

/-- Whether a place is a folder: the root, a listed one, or one on the way to something. -/
def isFolder (t : FileTree) (place : Place) : Bool :=
  place.isEmpty || t.folders.any (fun f => place.isPrefixOf f) ||
    t.files.keys.any fun f => place.isPrefixOf f && place != f

/-- Follows pieces from a folder. -/
def follow (t : FileTree) : Place → List Text → Option Place
  | place, [] => some place
  | place, piece :: rest => if t.isFolder place then t.follow (Path.step place piece) rest else none

/-- The place of a path that can be followed. -/
def place? (t : FileTree) (path : Text) : Option Place :=
  if path.isEmpty then none
  else t.follow (if Path.isAbsolute path then [] else t.workingPlace) (Path.pieces path)

/-- Whether a file or folder is present under a path. -/
def isPresent (t : FileTree) (path : Text) : Bool :=
  match t.place? path with
  | some place => t.isFolder place || t.files.contains place
  | none => false

/-- The bytes of the file under a path. -/
def read (t : FileTree) (path : Text) : Except Text (List UInt8) :=
  match t.place? path with
  | some place =>
    match t.files.get? place with
    | some bytes => .ok bytes
    | none => .error (if t.isFolder place then "is a folder" else "no such file")
  | none => .error "no such file"

/-- Access to the files of a tree, where no time passes. -/
def access (t : FileTree) : FileAccess Id where
  workingPlace := t.workingPlace
  isPresent := t.isPresent
  read := t.read
  milliseconds := (0 : Nat)

end FileTree

end Gradual
