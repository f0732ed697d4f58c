import ProcessorBench.Compilation.Workbench
import ProcessorBench.Javac.CommandLine
import ProcessorBench.Shell.Interpreter

/-!
# Running the Java compiler

The compiler is a program: it is asked for its version first, and then run once for each request. What it
writes is passed on to the user, and its status says whether it accepts the source.
-/

namespace ProcessorBench

namespace Javac

/-- The fault of a compilation whose program cannot be started. -/
def launchError (program : Path) : LaunchFault → CompileError
  | .missing => .compilerNotFound program
  | .denied | .notDirectory | .noProgram | .invalid => .launch program systemMessage

/-- Run a program until it ends. -/
def launch (program : Path) (arguments : List String) : HostStep CompileError Shell.Output := do
  let host ← get
  match Invocation.find host.disk (host.valueOf? "PATH") program.text arguments with
  | .error fault => throw (launchError program fault)
  | .ok invocation =>
    let (output, disk) := Shell.runProgram invocation host.environment host.disk
    set { host with disk }
    return output

/-- Find the compiler of a configuration, and ask it for its version. -/
def detect (c : JavacConfig) : HostStep CompileError Javac := do
  let program := c.program (← HostStep.disk)
  let output ← launch program ["-version"]
  let text := Utf8.decodeLossy output.output ++ Utf8.decodeLossy output.errors
  return ofVersion c (← HostStep.disk) (JavacVersion.ofOutput? text)

/-- Pass on what a program has written, results first. -/
def passOn {ε : Type} (output : Shell.Output) : HostStep ε Unit :=
  [output.output, output.errors].forM fun written =>
    (Text.lines (Utf8.decodeLossy written)).forM HostStep.note

/-- The compiler as one that can be asked. -/
def compiler (j : Javac) : Compiler := fun request => do
  let arguments ← HostStep.ofExcept (j.arguments request)
  let output ← launch j.program arguments
  passOn output
  return output.status = 0

end Javac

namespace Workbench

/-- The workbench of a configuration. -/
def ofConfig (sourceRoot : Path) (c : JavacConfig) : HostStep CompileError Workbench := do
  let javac ← Javac.detect c
  return ⟨sourceRoot, c.classPath, javac.compiler⟩

end Workbench

end ProcessorBench
