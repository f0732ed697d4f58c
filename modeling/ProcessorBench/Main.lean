import ProcessorBench.Console.Snapshot

/-!
# The program

`diamond` reads the archive of the directory it works on from its standard input, runs the tests that its
arguments name, and reports the results.
-/

open ProcessorBench

/-- Read a stream to its end. -/
partial def readToEnd (input : IO.FS.Stream) (soFar : ByteArray) : IO ByteArray := do
  let chunk ← input.read 65536
  if chunk.isEmpty then return soFar else readToEnd input (soFar ++ chunk)

/-- The variables of the environment that are set. -/
def readEnvironment : IO (List (String × String)) :=
  Snapshot.variableNames.filterMapM fun name => return (← IO.getEnv name).map (name, ·)

/-- The host to work on, which nothing but a test run needs. -/
def readHost (request : Request) : IO Host := do
  match request with
  | .test _ =>
    let snapshot ← readToEnd (← IO.getStdin) ByteArray.empty
    return Snapshot.host snapshot.toList (← readEnvironment)
  | _ => return Snapshot.host [] []

/-- Run the program. -/
def main (arguments : List String) : IO UInt32 := do
  let request := Request.ofArguments arguments
  let host ← readHost request
  let started ← IO.monoNanosNow
  let result ← IO.lazyPure fun _ => Console.run request host
  let time := Report.timeText ((← IO.monoNanosNow) - started)
  let answer := result.toAnswer time
  answer.errors.forM IO.eprintln
  answer.output.forM IO.println
  return UInt32.ofNat answer.exitCode
