import FieldFill.Files.Path

/-!
# Reading and replacing files

What the system does to a file tree, and the replacement of a file built from it. New content goes
to a sibling file first, which takes the permissions of the file and is then renamed over it, so
that a failure at any step leaves the file as it was.

* `FileTree.readText`, `FileTree.writeText`, `FileTree.setMode`, `FileTree.rename` — single
  operations of the system. One that is refused changes nothing.
* `fileText`, `fileExists` — the same for a path, with the fault of the operation.
* `replaceFile` — the replacement of a file's content, with the tree it leaves behind.
-/

namespace FieldFill

namespace FileTree

/-! ## Operations of the system -/

def readText (tree : FileTree) (path : Text) : Except Refusal Text :=
  match tree.obstacle? .read path, tree.nodeAt path with
  | some refusal, _ => .error refusal
  | none, .error refusal => .error refusal
  | none, .ok .directory => .error .isDirectory
  | none, .ok (.file (.text text) _) => .ok text
  | none, .ok (.file (.binary _) _) => .error .notText

/-- The permissions of a file that is made anew. -/
def newFileMode : Nat :=
  0o644

def directoryMode : Nat :=
  0o755

/-- Writes a file, made anew or over the content that is there. Gives its place too. -/
def writeText (tree : FileTree) (path text : Text) : Except Refusal (Place × FileTree) :=
  match (tree.obstacle? .write path).or (refuse? path) with
  | some refusal => .error refusal
  | none =>
    match slotFor tree path (pathParts path) .isDirectory with
    | .error refusal => .error refusal
    | .ok place =>
      match tree.node? place with
      | some .directory => .error .isDirectory
      | some (.file _ mode) => .ok (place, tree.put place (.file (.text text) mode))
      | none => .ok (place, tree.put place (.file (.text text) newFileMode))

/-- The permissions of what stands at a path, or `none` when nothing does. -/
def mode? (tree : FileTree) (path : Text) : Except Refusal (Option Nat) :=
  match tree.obstacle? .inspect path, tree.nodeAt path with
  | some refusal, _ => .error refusal
  | none, .ok (.file _ mode) => .ok (some mode)
  | none, .ok .directory => .ok (some directoryMode)
  | none, .error .notFound => .ok none
  | none, .error refusal => .error refusal

/-- Sets the permissions of the file at a place, which `path` leads to. -/
def setMode (tree : FileTree) (path : Text) (place : Place) (mode : Nat) :
    Except Refusal FileTree :=
  match tree.obstacle? .setPermissions path, tree.node? place with
  | some refusal, _ => .error refusal
  | none, some (.file content _) => .ok (tree.put place (.file content mode))
  | none, some .directory => .ok tree
  | none, none => .error .notFound

/-- Renames the file at a place to a path. A directory is never replaced by a file, nor can the
path of a file end in a slash. -/
def rename (tree : FileTree) (source : Place) (path : Text) : Except Refusal FileTree :=
  match (tree.obstacle? .replace path).or (refuse? path) with
  | some refusal => .error refusal
  | none =>
    match slotFor tree path (partsToName path) .busy with
    | .error refusal => .error refusal
    | .ok place =>
      match tree.node? source with
      | none => .error .notFound
      | some node =>
        if path.getLast? = some '/' then .error .notDirectory
        else if tree.node? place = some .directory then .error .isDirectory
        else .ok ((tree.put place node).remove source)

end FileTree

/-! ## Files by path -/

def fileText (tree : FileTree) (path : Text) : Except FileFault Text :=
  (tree.readText path).mapError fun refusal => ⟨.read, path, refusal⟩

def fileExists (tree : FileTree) (path : Text) : Except FileFault Bool :=
  match tree.obstacle? .checkExistence path, tree.nodeAt path with
  | some refusal, _ => .error ⟨.checkExistence, path, refusal⟩
  | none, .ok _ => .ok true
  | none, .error .notFound => .ok false
  | none, .error refusal => .error ⟨.checkExistence, path, refusal⟩

/-- The path of the sibling that receives new content first. -/
def stagedPath (path : Text) : Text :=
  path ++ ".init-assign.tmp".toList

/-- Gives a new file the permissions of the one that it replaces, if there is one. -/
def takeMode (tree : FileTree) (path : Text) (place : Place) :
    Option Nat → Except Refusal FileTree
  | some mode => tree.setMode path place mode
  | none => .ok tree

/-- Replaces the content of a file. The sibling is removed again when a later step is refused. -/
def replaceFile (tree : FileTree) (path text : Text) : Except FileFault Unit × FileTree :=
  let staged := stagedPath path
  match tree.mode? path with
  | .error refusal => (.error ⟨.inspect, path, refusal⟩, tree)
  | .ok mode =>
    match tree.writeText staged text with
    | .error refusal => (.error ⟨.write, staged, refusal⟩, tree)
    | .ok (place, written) =>
      match takeMode written staged place mode with
      | .error refusal => (.error ⟨.setPermissions, staged, refusal⟩, written.remove place)
      | .ok ready =>
        match ready.rename place path with
        | .error refusal => (.error ⟨.replace, path, refusal⟩, ready.remove place)
        | .ok renamed => (.ok (), renamed)

end FieldFill
