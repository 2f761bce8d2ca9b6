import Amend.Command.Perform
import Amend.Php.TreeListing
import Std.Time.DateTime.Timestamp

/-!
# The program

The standard input names the files that the program may work on, one to a line; a name with
a slash at its end names a directory.  The parse tree of a text is listed in a file beside
the one that holds the text, under the same name with `.tree` added.

The files are read into a `Disk`, `Command.transcript?` says what a run makes of it, and the
files that are not the same afterwards are written.
-/

namespace Amend.Main

/-- What the program has read before it starts. -/
structure Supply where
  disk : Disk
  /-- The texts with known parse trees. -/
  trees : List (String × ParseTree) := []

def Supply.grammar (s : Supply) : Php.Grammar := fun text => s.trees.lookup text

/-- A supply with a file, and with its parse tree if it is listed. -/
def Supply.withFile (s : Supply) (path : String) (content listing : Content) : Supply :=
  let disk := s.disk.withFile path content
  match content, listing with
  | .text text, .text listing =>
    match ParseTree.ofText? listing with
    | some tree => { disk, trees := (text, tree) :: s.trees }
    | none => { s with disk }
  | _, _ => { s with disk }

/-- What a file holds, if it can be read. -/
def contentOf? (path : String) : IO (Option Content) := do
  match ← (IO.FS.readBinFile path).toBaseIO with
  | .error _ => return none
  | .ok bytes =>
    match String.fromUTF8? bytes with
    | some text => return some (.text text)
    | none => return some (.bytes bytes.toList)

/-- Read what stands under a name, if anything does. -/
def see (s : Supply) (name : String) : IO Supply := do
  match ← (IO.FS.realPath name).toBaseIO with
  | .error _ => return s
  | .ok path =>
    let path := path.toString
    if name.endsWith "/" then return { s with disk := (s.disk.makeDirectories path).1 }
    match ← contentOf? path with
    | none => return s
    | some content => return s.withFile path content ((← contentOf? (path ++ ".tree")).getD (.bytes []))

/-- The names on the standard input, if it is not a terminal. -/
def givenNames : IO (List String) := do
  let input ← IO.getStdin
  if ← input.isTty then return []
  return (← input.lines).toList

/-- Read all that a run may need: the files that are named, the settings files of the current
directory and the directories above it, and files that are arguments. -/
def supply (args : List String) : IO Supply := do
  let here := (← IO.currentDir).toString
  let disk := (Disk.bare.makeDirectories here).1
  let place := (disk.locate here).toOption.getD []
  let names := (← givenNames) ++ Settings.filesFor here ++ args
  names.foldlM see { disk := { disk with here := place } }

/-- Make a change on the disk that is there. -/
def carryOut : Location × Entry → IO Unit
  | (place, .directory) => IO.FS.createDirAll place.path
  | (place, .file (.text text)) => IO.FS.writeFile place.path text
  | _ => return ()

/-- The moment that the clock shows. -/
def now : IO Moment := do
  let time := (← Std.Time.Timestamp.now).val
  return Moment.ofSeconds time.second.val.toNat time.nano.val.toNat

/-- The exit status of a process that is aborted, as one is whose stack overflows. -/
def aborted : UInt32 := 134

/-- Run the program on what is there, and give the exit status. -/
def run (args : List String) : IO UInt32 := do
  let supplied ← supply args
  let color := (← (← IO.getStdout).isTty) && (← IO.getEnv "NO_COLOR").isNone
  let surroundings : Command.Surroundings := { grammar := supplied.grammar, now := ← now, color }
  let directives ← IO.getEnv "RUST_LOG"
  let some transcript := Command.transcript? surroundings supplied.disk directives args
    | return aborted
  (supplied.disk.changes transcript.disk).forM carryOut
  IO.print transcript.output
  IO.eprint transcript.errors
  return transcript.exitCode.toUInt32

end Amend.Main

/-- Run the program with its command line. -/
def main (args : List String) : IO UInt32 := Amend.Main.run args
