import FieldFill.Files.Tree

/-!
# Paths

How the system follows a path through a file tree. A path is cut at its slashes; an empty part and
`.` stay where they are, and `..` goes up, which leaves the root where it is. Every part needs a
directory to stand in, so that a slash after the name of a file is refused.

* `follow` — the place of a path at which something stands.
* `FileTree.nodeAt` — what stands there.
* `slotFor` — the place of a path at which something may be put.
-/

namespace FieldFill

/-- The parts of a path between its slashes. -/
def pathParts : Text → List Text
  | [] => [[]]
  | c :: rest =>
    if c = '/' then [] :: pathParts rest
    else
      match pathParts rest with
      | [] => [[c]]
      | part :: more => (c :: part) :: more

/-- The parts of a path without the empty ones at its end. -/
def partsToName (path : Text) : List Text :=
  ((pathParts path).reverse.dropWhile List.isEmpty).reverse

/-- Whether a part names no entry of a directory. -/
def isDots (part : Text) : Bool :=
  part.isEmpty || part = ['.'] || part = ['.', '.']

/-- Where parts of a path lead from a place if they are all there. -/
def placeFrom (start : Place) (parts : List Text) : Place :=
  parts.foldl
    (fun place part =>
      if part = ['.', '.'] then place.dropLast
      else if isDots part then place
      else place ++ [part])
    start

/-- The greatest length in bytes of a name. -/
def greatestName : Nat :=
  255

/-- The length in bytes from which a path is too long. -/
def tooLongPath : Nat :=
  4096

/-- What is wrong with a path before it is followed. -/
def refuse? (path : Text) : Option Refusal :=
  if path.contains '\x00' then some .nulInPath
  else if path.isEmpty then some .notFound
  else if tooLongPath ≤ byteLength path then some .nameTooLong
  else none

namespace FileTree

/-- Where a path begins. -/
def startOf (tree : FileTree) (path : Text) : Place :=
  if path.head? = some '/' then [] else tree.workingDirectory

/-- The entry of a directory with a name. -/
def child (tree : FileTree) (place : Place) (name : Text) : Except Refusal Place :=
  if greatestName < byteLength name then .error .nameTooLong
  else if (tree.node? (place ++ [name])).isSome then .ok (place ++ [name])
  else .error .notFound

/-- One part of a path further. -/
def enter (tree : FileTree) (place : Place) (part : Text) : Except Refusal Place :=
  if tree.node? place ≠ some .directory then .error .notDirectory
  else if part.isEmpty || part = ['.'] then .ok place
  else if part = ['.', '.'] then .ok place.dropLast
  else tree.child place part

def enterAll (tree : FileTree) (place : Place) (parts : List Text) : Except Refusal Place :=
  parts.foldlM tree.enter place

end FileTree

/-- Where a path leads. -/
def follow (tree : FileTree) (path : Text) : Except Refusal Place :=
  match refuse? path with
  | some refusal => .error refusal
  | none => tree.enterAll (tree.startOf path) (pathParts path)

namespace FileTree

/-- What stands at a path. -/
def nodeAt (tree : FileTree) (path : Text) : Except Refusal Node :=
  match follow tree path with
  | .error refusal => .error refusal
  | .ok place =>
    match tree.node? place with
    | some node => .ok node
    | none => .error .notFound

end FileTree

/-- The place at which a path lets an entry be put: its directory has to be there, and its last
part has to be a name. `dots` is the refusal when it is none. -/
def slotFor (tree : FileTree) (path : Text) (parts : List Text) (dots : Refusal) :
    Except Refusal Place :=
  match tree.enterAll (tree.startOf path) parts.dropLast with
  | .error refusal => .error refusal
  | .ok place =>
    let name := parts.getLast?.getD []
    if tree.node? place ≠ some .directory then .error .notDirectory
    else if isDots name then .error dots
    else if greatestName < byteLength name then .error .nameTooLong
    else .ok (place ++ [name])

end FieldFill
