import ProcessorBench.FileTree.Disk

/-!
# Machines and processes

Processes run one at a time on a `Machine`: a disk and the channels that are open. What a process reads and
writes goes through its descriptors, each of which leads to a channel, so that several descriptors, and
several processes, can share one. A `ProcessStep` is what a process does on its machine.
-/

namespace ProcessorBench

/-- Where a descriptor leads. -/
inductive Channel where
  /-- Bytes to be read. -/
  | input (rest : Bytes)
  /-- Bytes that have been written and are kept, the last ones first. -/
  | kept (written : List Bytes)
  /-- A file that is written from some position on, or always at its end. -/
  | file (location : Location) (position : Option Nat)
  /-- Nothing is read, and what is written is lost. -/
  | nowhere

/-- A disk, and the channels that are open, by number. -/
structure Machine where
  disk : Disk
  channels : List Channel := []

/-- The numbers of the channels that the descriptors of a process lead to. -/
abbrev Descriptors := List (Nat × Nat)

/-- The status with which a process ends. Zero is success. -/
abbrev Status := Nat

/-- A running program, as it sees itself. -/
structure Process where
  /-- The name it was called by. -/
  name : String
  arguments : List String
  environment : List (String × String)
  descriptors : Descriptors

/-- What a process does on its machine. -/
abbrev ProcessStep := ReaderT Process (StateM Machine)

/-- What the system says about a fault. -/
def FileFault.description : FileFault → String
  | .missing => "No such file or directory"
  | .notDirectory => "Not a directory"
  | .isDirectory => "Is a directory"
  | .alreadyExists => "File exists"
  | .invalidPath => "Invalid argument"
  | .tooLong => "File name too long"
  | .notExecutable => "Permission denied"

namespace Machine

/-- Open a channel. The result is its number. -/
def openChannel (channel : Channel) : StateM Machine Nat := do
  let number := (← get).channels.length
  modify fun m => { m with channels := m.channels ++ [channel] }
  return number

/-- The channel of a number. -/
def channel? (m : Machine) (number : Nat) : Option Channel := m.channels[number]?

/-- Change a channel. -/
def setChannel (number : Nat) (channel : Channel) : StateM Machine Unit :=
  modify fun m => { m with channels := m.channels.set number channel }

/-- Carry out a step on the disk. -/
def onDisk {α : Type} (step : DiskStep α) : StateM Machine (Except FileFault α) := fun m =>
  match step m.disk with
  | .ok a disk => (.ok a, { m with disk })
  | .error fault disk => (.error fault, { m with disk })

/-- Some bytes with others from a position on. -/
def splice (old new : Bytes) (position : Nat) : Bytes :=
  let front := old.take position
  front ++ List.replicate (position - front.length) 0 ++ new ++ old.drop (position + new.length)

/-- Write to a channel. A file that is not there any more is not written. -/
def write (number : Nat) (bytes : Bytes) : StateM Machine Unit := do
  let m ← get
  match m.channel? number with
  | some (.kept written) => setChannel number (.kept (bytes :: written))
  | some (.file location position) =>
    if let some (.file old executable) := m.disk.tree.at? location then
      let start := position.getD old.length
      let content := FileTree.file (splice old bytes start) executable
      modify fun m => { m with disk.tree := m.disk.tree.put (some content) location }
      setChannel number (.file location (position.map (· + bytes.length)))
  | _ => return

/-- Read all that is left in a channel. -/
def readAll (number : Nat) : StateM Machine Bytes := do
  match (← get).channel? number with
  | some (.input rest) =>
    setChannel number (.input [])
    return rest
  | _ => return []

/-- Read a line with its end, or what is left if no line ends there. -/
def readLine (number : Nat) : StateM Machine Bytes := do
  match (← get).channel? number with
  | some (.input rest) =>
    let line := rest.takeWhile (· ≠ 0x0a)
    let stop := line.length + 1
    setChannel number (.input (rest.drop stop))
    return rest.take stop
  | _ => return []

/-- What has been written to a channel that keeps it. -/
def writtenTo (m : Machine) (number : Nat) : Bytes :=
  match m.channel? number with
  | some (.kept written) => written.reverse.flatten
  | _ => []

end Machine

namespace Process

/-- The numbers of the three descriptors that every process has. -/
def standardInput : Nat := 0

/-- The descriptor for results. -/
def standardOutput : Nat := 1

/-- The descriptor for complaints. -/
def standardError : Nat := 2

/-- The disk as it is. -/
def disk : ProcessStep Disk := return (← get).disk

/-- Carry out a step on the disk. -/
def onDisk {α : Type} (step : DiskStep α) : ProcessStep (Except FileFault α) := Machine.onDisk step

/-- Write to a descriptor. What is written to one that leads nowhere is lost. -/
def write (descriptor : Nat) (bytes : Bytes) : ProcessStep Unit := do
  if let some number := (← read).descriptors.lookup descriptor then Machine.write number bytes

/-- Write a text as a result. -/
def say (text : String) : ProcessStep Unit := write standardOutput (Utf8.encode text)

/-- Write a complaint, under the name of the program. -/
def complain (text : String) : ProcessStep Unit := do
  write standardError (Utf8.encode ((← read).name ++ ": " ++ text ++ "\n"))

/-- Read all of the input. -/
def readInput : ProcessStep Bytes := do
  match (← read).descriptors.lookup standardInput with
  | some number => Machine.readAll number
  | none => return []

end Process

end ProcessorBench
