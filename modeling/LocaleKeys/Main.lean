import LocaleKeys.CommandLine.Usage

/-!
# The program

The files below the working directory are read into a tree, the command line is carried out on
it, and what it comes to is written. Only a command that leaves another tree writes a file.
-/

namespace LocaleKeys

/-- The content of a file of the given bytes. -/
def Content.ofBytes (bytes : ByteArray) : Content :=
  match String.fromUTF8? bytes with
  | some decoded => .text decoded.toList
  | none => .undecodable

/-- What an entry of a directory adds to a tree, if the directory stands at the given place. -/
partial def nodesOf (place : Place) (entry : IO.FS.DirEntry) : IO (List (Place × FileNode)) := do
  let place := place ++ [entry.fileName.toList]
  match (← entry.path.symlinkMetadata).type with
  | .dir =>
    let below ← (← entry.path.readDir).toList.mapM (nodesOf place)
    return (place, .directory) :: below.flatten
  | .file => return [(place, .file (.ofBytes (← IO.FS.readBinFile entry.path)))]
  | _ => return []

/-- The tree below the working directory. -/
def workingTree : IO FileTree := do
  let directory ← IO.currentDir
  let working := FileTree.empty.placeOf (.ofText directory.toString)
  let nodes ← (← directory.readDir).toList.mapM (nodesOf working)
  return ⟨working, nodes.flatten⟩

/-- Colours are wanted, as environment variables and the terminal tell. -/
def wantsColors (force never setting : Option String) (terminal : Bool) : Bool :=
  if force.any (· != "0") then true
  else if never.isSome then false
  else setting.all (· != "0") && terminal

/-- Carries out a command on the files below the working directory. -/
def perform (command : CommandLine.Command) : IO Outcome := do
  let colors := wantsColors (← IO.getEnv "CLICOLOR_FORCE") (← IO.getEnv "NO_COLOR")
    (← IO.getEnv "CLICOLOR") (← (← IO.getStdout).isTty)
  let tree ← workingTree
  let (left, outcome) := CommandLine.run colors tree command
  if left ≠ tree then
    IO.FS.writeFile Config.fileName (String.ofList Config.standard.print)
  return outcome

/-- Writes what a command comes to. -/
def Outcome.write (verbose : Bool) (outcome : Outcome) : IO UInt32 := do
  (← IO.getStdout).putStr (String.ofList outcome.output)
  (← IO.getStderr).putStr (String.ofList (outcome.errorText verbose))
  return outcome.status.code.toUInt32

end LocaleKeys

open LocaleKeys in
/-- Carries out the command line and writes what it comes to. -/
def main (arguments : List String) : IO UInt32 := do
  match CommandLine.read arguments with
  | .error error => (Outcome.ofUsageError error).write false
  | .ok none => Outcome.ofHelp.write false
  | .ok (some command) => (← perform command).write command.verbose
