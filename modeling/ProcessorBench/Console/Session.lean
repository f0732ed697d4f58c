import ProcessorBench.Console.Arguments
import ProcessorBench.Console.Report
import ProcessorBench.Javac.Launcher
import ProcessorBench.Suite.Runner

/-!
# Sessions of the command line

`Console.run` is all that the program does: from a request and the host it runs on, it makes what is written
and the exit code.
-/

namespace ProcessorBench

/-- The settings that the environment gives. -/
def JavacConfig.ofEnvironment (h : Host) : JavacConfig :=
  { javac := (h.valueOf? "DIAMOND_JAVAC").map Path.mk
    javaHome := (h.valueOf? "JAVA_HOME").map Path.mk }

namespace Console

/-- What a session leaves. -/
structure Answer where
  exitCode : Nat
  /-- The lines written as results. -/
  output : List String
  /-- The lines written beside the results. -/
  errors : List String

/-- The exit code after arguments that are wrong. -/
def usageCode : Nat := 2

/-- The exit code if the tests cannot be run. -/
def faultCode : Nat := 3

/-- The name of the program and its version. -/
def versionLine : String := "diamond 0.1.0"

/-- How the program is used. -/
def usageLines : List String :=
  ["Compile-test harness for Java annotation processors", "", "Usage: diamond test [OPTIONS] <SCAN_ROOT>",
   "", "Options:",
   "      --classpath <PATH>    Directory or jar to put on the compile classpath (repeatable)",
   "      --javac <PATH>        javac executable (default: $DIAMOND_JAVAC, $JAVA_HOME/bin/javac, javac)",
   "      --filter <SUBSTR>     Only run cases whose name contains this",
   "      --no-parallel         Run cases one at a time",
   "  -v, --verbose             Report every case",
   "      --javac-option <OPT>  Extra option passed to every javac invocation (repeatable)",
   "  -h, --help                Print help"]

/-- How the tests are compiled: by the settings of the environment, unless the arguments name a compiler. -/
def configOf (o : TestOptions) (h : Host) : JavacConfig :=
  let fromEnvironment := JavacConfig.ofEnvironment h
  { fromEnvironment with
    javac := o.javac.or fromEnvironment.javac
    classPath := o.classPath
    extraOptions := o.javacOptions }

/-- The runner that the arguments ask for. -/
def runnerOf (o : TestOptions) : Runner := ⟨o.filter, o.verbose, o.parallel⟩

/-- Run the tests that the arguments name. -/
def runTests (o : TestOptions) : HostStep DiscoveryError Summary := do
  let bench ← HostStep.adapt .compile (Workbench.ofConfig o.scanRoot (configOf o (← get)))
  (runnerOf o).run bench o.scanRoot

/-- How a request ends. -/
inductive Result where
  /-- The tests have been run. -/
  | report (verbose : Bool) (summary : Summary) (notes : List String)
  /-- Something else is written. -/
  | answer (written : Answer)

/-- Do what is requested, on a host. -/
def run (request : Request) (h : Host) : Result :=
  match request with
  | .help => .answer ⟨0, usageLines, []⟩
  | .version => .answer ⟨0, [versionLine], []⟩
  | .refused =>
    .answer ⟨usageCode, [], ["error: invalid arguments", "", "For more information, try '--help'."]⟩
  | .test o =>
    match runTests o h with
    | .ok summary h => .report o.verbose summary h.notes.reverse
    | .error fault h =>
      .answer ⟨faultCode, [], h.notes.reverse ++ Report.faultLines fault.message fault.causes⟩

/-- What is written at the end, where the time that it took stands as the given text. -/
def Result.toAnswer (time : String) : Result → Answer
  | .report verbose summary notes => ⟨summary.exitCode, Report.lines verbose time summary, notes⟩
  | .answer written => written

end Console

end ProcessorBench
