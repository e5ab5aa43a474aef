import FieldFill.Files.Fault

/-!
# File trees

The files and directories of a system, as a value. There are no links. A place in the tree is the
list of names on the way to it from the root; the empty list is the root itself.

* `FileTree.node?` — what stands at a place.
* `FileTree.put`, `FileTree.remove` — the two changes a tree can undergo.
* `FileTree.obstacle?` — what the system refuses although the tree would allow it.
-/

namespace FieldFill

inductive Content where
  | text (text : Text)
  /-- Bytes that are no UTF-8 text. -/
  | binary (bytes : List UInt8)
  deriving DecidableEq, Repr

/-- The content that some bytes make. -/
def Content.ofBytes (bytes : ByteArray) : Content :=
  match String.fromUTF8? bytes with
  | some decoded => .text decoded.toList
  | none => .binary bytes.toList

inductive Node where
  | file (content : Content) (mode : Nat)
  | directory
  deriving DecidableEq, Repr

abbrev Place := List Text

/-- An operation on a path that the system refuses for a reason outside of the tree, such as a lack
of permission. -/
structure Obstacle where
  operation : Operation
  path : Text
  refusal : Refusal
  deriving DecidableEq, Repr

structure FileTree where
  entries : List (Place × Node)
  /-- Where paths begin that do not begin with a slash. -/
  workingDirectory : Place
  obstacles : List Obstacle
  deriving DecidableEq, Repr

namespace FileTree

/-- What stands at a place. The root is always there. -/
def node? (tree : FileTree) (place : Place) : Option Node :=
  if place = [] then some .directory
  else (tree.entries.find? fun entry => entry.1 = place).map Prod.snd

/-- Puts a node at a place, over one that is there. -/
def put (tree : FileTree) (place : Place) (node : Node) : FileTree :=
  if tree.entries.any fun entry => entry.1 = place then
    { tree with
      entries := tree.entries.map fun entry =>
        if entry.1 = place then (place, node) else entry }
  else { tree with entries := tree.entries ++ [(place, node)] }

def remove (tree : FileTree) (place : Place) : FileTree :=
  { tree with entries := tree.entries.filter fun entry => entry.1 ≠ place }

/-- Puts a node at a place and directories on the way to it where nothing is yet. -/
def plant (tree : FileTree) (place : Place) (node : Node) : FileTree :=
  let ways := (List.range place.length).map fun n => place.take n
  let grown := ways.foldl
    (fun grown way => if (grown.node? way).isSome then grown else grown.put way .directory) tree
  grown.put place node

/-- The tree that holds nothing but a working directory. -/
def bare (workingDirectory : Place) : FileTree :=
  plant ⟨[], workingDirectory, []⟩ workingDirectory .directory

/-- Why the system refuses an operation on a path whatever the tree holds. -/
def obstacle? (tree : FileTree) (operation : Operation) (path : Text) : Option Refusal :=
  (tree.obstacles.find? fun o => o.operation = operation && o.path = path).map Obstacle.refusal

end FileTree

end FieldFill
