import FieldFill.Command.Run

/-!
# The program

The files that the arguments name are looked at first, the answer is computed from what was seen,
and what the answer changed is written back.
-/

namespace FieldFill

def usage : String :=
  "Usage: init-assign [--config FILE] [--receiver NAME]... [--format text|json] COMMAND\n" ++
  "  generate [--write] [--force] FILES...\n" ++
  "  at-line --line LINE [--write] FILE\n" ++
  "  signature [TEXT]\n"

/-- The code with which the system refuses to read a directory as a file. -/
def directoryCode : UInt32 :=
  21

/-- Adds to a tree what stands at a path of the system. -/
def observe (tree : FileTree) (place : Place) (path : Text) : IO FileTree := do
  match ← (IO.FS.readBinFile (String.ofList path)).toBaseIO with
  | .ok bytes => return tree.plant place (.file (.ofBytes bytes) FileTree.newFileMode)
  | .error (.inappropriateType _ code _) =>
    return if code = directoryCode then tree.plant place .directory else tree
  | .error (.permissionDenied ..) =>
    let closed := tree.plant place (.file (.text []) FileTree.newFileMode)
    return { closed with obstacles := ⟨.read, path, .permissionDenied⟩ :: closed.obstacles }
  | .error _ => return tree

/-- Adds to a tree what stands at a path and on the way to it. -/
def observeWay (tree : FileTree) (path : Text) : IO FileTree := do
  let parts := pathParts path
  let mut seen := tree
  for n in List.range parts.length do
    let way := parts.take (n + 1)
    let place := placeFrom (tree.startOf path) way
    seen ← observe seen place (List.intercalate ['/'] way)
  return seen

def observeAll (paths : List Text) : IO FileTree := do
  let workingDirectory := placeFrom [] (pathParts (← IO.currentDir).toString.toList)
  paths.foldlM observeWay (FileTree.bare workingDirectory)

partial def readAll (stream : IO.FS.Stream) (bytes : ByteArray) : IO ByteArray := do
  let more ← stream.read 65536
  if more.isEmpty then return bytes
  readAll stream (bytes ++ more)

def readInput (request : Request) : IO Content := do
  if request.readsInput then return .ofBytes (← readAll (← IO.getStdin) ByteArray.empty)
  return .text []

def obey (request : Request) : IO UInt32 := do
  let input ← readInput request
  let before ← observeAll request.paths
  let (reply, after) := request.answer input before
  -- Writing into the file that is there keeps its permissions.
  for (path, text) in request.changes before after do
    IO.FS.writeFile (String.ofList path) (String.ofList text)
  (← IO.getStdout).putStr (String.ofList reply.output)
  (← IO.getStderr).putStr (String.ofList reply.complaint)
  return reply.status.code.toUInt32

end FieldFill

open FieldFill in
def main (arguments : List String) : IO UInt32 := do
  let environment := (← IO.getEnv "INIT_ASSIGN_CONFIG").map String.toList
  match Request.ofArguments? environment (arguments.map String.toList) with
  | some request => obey request
  | none =>
    (← IO.getStderr).putStr usage
    return 2
