import ProcessorBench.Utility.Base64
import ProcessorBench.Utility.Condition
import ProcessorBench.Utility.LineEditor
import ProcessorBench.Utility.Listing
import ProcessorBench.Utility.Numbers
import ProcessorBench.Utility.Printing
import ProcessorBench.Utility.Search

/-!
# Utilities

The programs that every system has. They are files in `/bin` and in `/usr/bin`, and it is by its place that
a file is known to be one of them.
-/

namespace ProcessorBench

/-- A program that every system has. -/
inductive Utility where
  /-- One that works by itself. -/
  | steps (run : ProcessStep Status)
  /-- One that runs a script. -/
  | shell
  /-- One that runs another program, in an environment with changes. -/
  | env

namespace Utility

/-- The utilities, by their names. -/
def table : List (String × Utility) :=
  [("[", .steps Condition.bracket), ("base64", .steps Base64.run), ("basename", .steps Files.printBaseName),
   ("bash", .shell), ("cat", .steps Streams.concatenate), ("chmod", .steps Files.changeMode),
   ("cmp", .steps Streams.compare), ("cp", .steps Files.copy), ("cut", .steps Streams.cut),
   ("dash", .shell), ("dirname", .steps Files.printDirectoryName), ("echo", .steps Printing.echo),
   ("env", .env), ("expr", .steps Numbers.evaluate), ("false", .steps (pure 1)),
   ("find", .steps Listing.find), ("grep", .steps Search.run), ("head", .steps Streams.head),
   ("ls", .steps Listing.list), ("mkdir", .steps Files.makeDirs), ("mv", .steps Files.move),
   ("printf", .steps Printing.printf), ("readlink", .steps Listing.readLink),
   ("realpath", .steps Listing.fullPaths), ("rm", .steps Files.remove),
   ("rmdir", .steps Files.removeDirs), ("sed", .steps LineEditor.run), ("seq", .steps Numbers.sequence),
   ("sh", .shell), ("sleep", .steps (pure 0)), ("sort", .steps Streams.sort), ("sync", .steps (pure 0)),
   ("tail", .steps Streams.tail), ("tee", .steps Streams.tee), ("test", .steps Condition.test),
   ("touch", .steps Files.touch), ("tr", .steps Streams.exchange), ("true", .steps (pure 0)),
   ("truncate", .steps Files.cutTo), ("uniq", .steps Streams.unique), ("wc", .steps Streams.count)]

/-- The directories that hold utilities. -/
def directories : List Location := [["bin"], ["usr", "bin"]]

/-- The utility that the file at a location is. -/
def at? (location : Location) : Option Utility := do
  let name ← location.getLast?
  if directories.contains location.dropLast then table.lookup name else none

/-- A disk with the utilities in their directories. -/
def install (d : Disk) : Disk :=
  let places := directories.flatMap fun directory => table.map fun (name, _) => directory ++ [name]
  places.foldl (fun d place => Disk.after (Disk.putFile ⟨"/" ++ "/".intercalate place⟩ [] true) d) d

end Utility

end ProcessorBench
