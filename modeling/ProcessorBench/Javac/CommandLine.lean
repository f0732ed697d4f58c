import ProcessorBench.Compilation.Host
import ProcessorBench.Javac.Version

/-!
# The command line of the Java compiler

Where the compiler is found, and the options with which it is run for a request.
-/

namespace ProcessorBench

/-- Where to find the compiler, and how to run it. -/
structure JavacConfig where
  /-- The compiler itself. If it is given, the installation does not matter. -/
  javac : Option Path := none
  /-- The directory of an installation. -/
  javaHome : Option Path := none
  classPath : List Path := []
  /-- Options that are added to every command line. -/
  extraOptions : List String := []

/-- The compiler, as far as it has been found out. -/
structure Javac where
  program : Path
  /-- The version, unless what the compiler says of itself is not understood. -/
  version : Option JavacVersion
  /-- The archive with the parts of the compiler, which releases before 9 do not find by themselves. -/
  toolsArchive : Option Path
  extraOptions : List String

/-- The compiler to run: the one that is given, or the one of the installation, or else one that is looked
for by name. -/
def JavacConfig.program (c : JavacConfig) (disk : Disk) : Path :=
  match c.javac with
  | some javac => javac
  | none =>
    let installed := c.javaHome.map fun home => (home.join ⟨"bin"⟩).join ⟨"javac"⟩
    (installed.filter disk.isFile).getD ⟨"javac"⟩

namespace Javac

/-- The archive with the parts of the compiler, in an installation or in the one that it is part of. -/
def findToolsArchive (disk : Disk) (home : Path) : Option Path :=
  ((home :: home.parent?.toList).map fun dir => (dir.join ⟨"lib"⟩).join ⟨"tools.jar"⟩).find? disk.isFile

/-- The compiler of a configuration, with a version that is known. -/
def ofVersion (c : JavacConfig) (disk : Disk) (version : Option JavacVersion) : Javac :=
  { program := c.program disk
    version
    toolsArchive :=
      if version.any (!·.hasModules) then c.javaHome.bind (findToolsArchive disk) else none
    extraOptions := c.extraOptions }

/-- The packages of the compiler that processors may use. -/
def exportedPackages : List String :=
  ["com.sun.source.doctree", "com.sun.source.tree", "com.sun.source.util", "com.sun.tools.javac",
   "com.sun.tools.javac.api", "com.sun.tools.javac.code", "com.sun.tools.javac.comp",
   "com.sun.tools.javac.file", "com.sun.tools.javac.jvm", "com.sun.tools.javac.main",
   "com.sun.tools.javac.model", "com.sun.tools.javac.nio", "com.sun.tools.javac.parser",
   "com.sun.tools.javac.processing", "com.sun.tools.javac.resources",
   "com.sun.tools.javac.services", "com.sun.tools.javac.sym", "com.sun.tools.javac.tree",
   "com.sun.tools.javac.util"]

/-- The options that open a package to processors. -/
def exportOptions (package : String) : List String :=
  let option := "jdk.compiler/" ++ package ++ "=ALL-UNNAMED"
  ["--add-exports", option, "-J--add-exports=" ++ option]

/-- Whether packages have to be opened. A compiler of unknown version is taken for a recent one. -/
def hasModules (j : Javac) : Bool := j.version.all (·.hasModules)

/-- A list of paths as one text. A path that holds the separator cannot be in it. -/
def joinPaths (j : Javac) (paths : List Path) : Except CompileError String :=
  if paths.any (·.text.toList.contains ':') then
    .error (.launch j.program "invalid classpath: path segment contains separator \x60:\x60")
  else .ok (":".intercalate (paths.map (·.text)))

/-- The options for processing annotations. -/
def processorOptions (j : Javac) (classPath : List Path) :
    Option AttachedProcessor → Except CompileError (List String)
  | none => .ok ["-proc:none"]
  | some p => do
    return ["-processorpath", ← j.joinPaths (p.path :: classPath), "-processor", p.className]

/-- The arguments for a request. -/
def arguments (j : Javac) (r : CompileRequest) : Except CompileError (List String) := do
  let classPath := r.classPath ++ j.toolsArchive.toList
  let classPathText ← j.joinPaths classPath
  let processing ← j.processorOptions classPath r.processor
  let exports := if j.hasModules then exportedPackages.flatMap exportOptions else []
  return ["-d", r.outputDir.text, "-s", r.generatedDir.text, "-cp", classPathText, "-encoding", "UTF-8",
    "-implicit:class"] ++ processing ++ exports ++ j.extraOptions ++ [r.sourceFile.text]

end Javac

end ProcessorBench
