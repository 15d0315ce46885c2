import Gradual.Text.Basic

/-!
# Paths

A path is a text with slashes. A place in the file tree is the list of names on the way from the
root. Paths are resolved by their text alone: `.` stays, `..` goes up, and the root is above itself.
-/

namespace Gradual

/-- The names on the way from the root to a file or folder. -/
abbrev Place := List Text

namespace Path

/-- The unit between names. -/
def slash : CodeUnit := 0x2F

/-- The pieces of a path between its slashes. -/
def pieces : Text → List Text
  | [] => [[]]
  | c :: rest =>
    if c == slash then [] :: pieces rest
    else
      match pieces rest with
      | [] => [[c]]
      | p :: ps => (c :: p) :: ps

/-- Whether a path starts at the root. -/
def isAbsolute (path : Text) : Bool := path.head? == some slash

/-- Goes one piece further. -/
def step (place : Place) (piece : Text) : Place :=
  if piece.isEmpty || piece == "." then place
  else if piece == ".." then place.dropLast
  else place ++ [piece]

/-- The place of a path, seen from a place. -/
def enter (place : Place) (path : Text) : Place :=
  (pieces path).foldl step (if isAbsolute path then [] else place)

/-- The absolute path of a place. -/
def ofPlace (place : Place) : Text := "/" ++ Text.join "/" place

/-- The part of a place behind what it shares with another, and how far the other goes on. -/
def diverge : Place → Place → Nat × Place
  | a :: as, b :: bs => if a == b then diverge as bs else ((a :: as).length, b :: bs)
  | as, bs => (as.length, bs)

/-- The path from one place to another; empty when they are the same. -/
def relative (source target : Place) : Text :=
  let (up, down) := diverge source target
  Text.join "/" (List.replicate up (Text.ofString "..") ++ down)

/-- The folder of a path, by its text: what stands before the slash in front of the last name. -/
def folder (path : Text) : Text :=
  let behind := ((path.drop 1).reverse.dropWhile fun c => c == slash).dropWhile fun c => c != slash
  if behind.isEmpty then (if isAbsolute path then "/" else ".")
  else if isAbsolute path && behind.length == 1 then "//"
  else path.take behind.length

/-- A place and all places above it, the nearest first. -/
def ancestors (place : Place) : List Place :=
  (List.range (place.length + 1)).reverse.map fun n => place.take n

end Path

end Gradual
