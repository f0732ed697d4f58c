import ProcessorBench.Archive.Crc32
import ProcessorBench.Archive.EndRecord
import ProcessorBench.Archive.ExtraField
import ProcessorBench.Archive.Inflate
import ProcessorBench.Archive.Member
import ProcessorBench.Archive.Record
import ProcessorBench.Archive.Zip
import ProcessorBench.Bytes.Basic
import ProcessorBench.Bytes.Reader
import ProcessorBench.ClassFile.AnnotationInfo
import ProcessorBench.ClassFile.AnnotationText
import ProcessorBench.ClassFile.AnnotationValue
import ProcessorBench.ClassFile.Attribute
import ProcessorBench.ClassFile.Basic
import ProcessorBench.ClassFile.Builder
import ProcessorBench.ClassFile.Constant
import ProcessorBench.ClassFile.Debug
import ProcessorBench.ClassFile.Error
import ProcessorBench.ClassFile.Instruction
import ProcessorBench.ClassFile.Normal
import ProcessorBench.ClassFile.Pool
import ProcessorBench.ClassFile.PoolBuilder
import ProcessorBench.ClassFile.References
import ProcessorBench.ClassFile.Reflection
import ProcessorBench.ClassName
import ProcessorBench.Compilation.Artifacts
import ProcessorBench.Compilation.ContentCompiler
import ProcessorBench.Compilation.Error
import ProcessorBench.Compilation.Host
import ProcessorBench.Compilation.Job
import ProcessorBench.Compilation.RuleCompiler
import ProcessorBench.Compilation.UnitName
import ProcessorBench.Compilation.Workbench
import ProcessorBench.Compilation.Workspace
import ProcessorBench.Console.Arguments
import ProcessorBench.Console.Report
import ProcessorBench.Console.Session
import ProcessorBench.Console.Snapshot
import ProcessorBench.Decimal.Binary64
import ProcessorBench.Decimal.Layout
import ProcessorBench.Decimal.Shortest
import ProcessorBench.FileTree.Basic
import ProcessorBench.FileTree.Disk
import ProcessorBench.FileTree.Path
import ProcessorBench.Javac.CommandLine
import ProcessorBench.Javac.Launcher
import ProcessorBench.Javac.Version
import ProcessorBench.Loading.ClassLoader
import ProcessorBench.Loading.ClassPath
import ProcessorBench.Loading.Definitions
import ProcessorBench.Loading.Error
import ProcessorBench.Loading.LoadedClass
import ProcessorBench.Loading.Platform
import ProcessorBench.Loading.SharedLoader
import ProcessorBench.Loading.Supertypes
import ProcessorBench.Main
import ProcessorBench.Process.Machine
import ProcessorBench.Process.Program
import ProcessorBench.Proofs.Acceptance
import ProcessorBench.Proofs.AnnotatedClasses
import ProcessorBench.Proofs.AnnotationCodec
import ProcessorBench.Proofs.AttributeCodec
import ProcessorBench.Proofs.AttributeNames
import ProcessorBench.Proofs.Attributes
import ProcessorBench.Proofs.Bytecode
import ProcessorBench.Proofs.Bytes
import ProcessorBench.Proofs.CallLog
import ProcessorBench.Proofs.Capacity
import ProcessorBench.Proofs.ClassBuilding
import ProcessorBench.Proofs.ClassCodec
import ProcessorBench.Proofs.Compiling
import ProcessorBench.Proofs.ConstantTree
import ProcessorBench.Proofs.ContentCompilers
import ProcessorBench.Proofs.DebugFree
import ProcessorBench.Proofs.DeclaredTests
import ProcessorBench.Proofs.DecodingFaults
import ProcessorBench.Proofs.Deletion
import ProcessorBench.Proofs.Descending
import ProcessorBench.Proofs.ExpectedSources
import ProcessorBench.Proofs.Extensions
import ProcessorBench.Proofs.Extent
import ProcessorBench.Proofs.Files
import ProcessorBench.Proofs.Filling
import ProcessorBench.Proofs.FirstMatch
import ProcessorBench.Proofs.FirstUse
import ProcessorBench.Proofs.Grounded
import ProcessorBench.Proofs.Instructions
import ProcessorBench.Proofs.Interning
import ProcessorBench.Proofs.Layout
import ProcessorBench.Proofs.LazyDiscovery
import ProcessorBench.Proofs.Lengths
import ProcessorBench.Proofs.LoadFaults
import ProcessorBench.Proofs.LoaderWalks
import ProcessorBench.Proofs.Locating
import ProcessorBench.Proofs.Lowering
import ProcessorBench.Proofs.Mismatches
import ProcessorBench.Proofs.ModifiedUtf8
import ProcessorBench.Proofs.ModuleAttributes
import ProcessorBench.Proofs.NormalForm
import ProcessorBench.Proofs.Numbering
import ProcessorBench.Proofs.Occurrences
import ProcessorBench.Proofs.Paths
import ProcessorBench.Proofs.Placement
import ProcessorBench.Proofs.PoolCodec
import ProcessorBench.Proofs.PoolHistories
import ProcessorBench.Proofs.PoolSteps
import ProcessorBench.Proofs.Pools
import ProcessorBench.Proofs.Preservation
import ProcessorBench.Proofs.PrimaryArtifact
import ProcessorBench.Proofs.Reading
import ProcessorBench.Proofs.ReadingBack
import ProcessorBench.Proofs.Rebuilding
import ProcessorBench.Proofs.Recreation
import ProcessorBench.Proofs.References
import ProcessorBench.Proofs.ReflectionView
import ProcessorBench.Proofs.Refusals
import ProcessorBench.Proofs.Relocation
import ProcessorBench.Proofs.Renumbering
import ProcessorBench.Proofs.Reports
import ProcessorBench.Proofs.Rewriting
import ProcessorBench.Proofs.SameView
import ProcessorBench.Proofs.SelfDelimiting
import ProcessorBench.Proofs.SequentialLoading
import ProcessorBench.Proofs.SharedLoading
import ProcessorBench.Proofs.Siblings
import ProcessorBench.Proofs.Simulation
import ProcessorBench.Proofs.Sites
import ProcessorBench.Proofs.StableResolution
import ProcessorBench.Proofs.StatelessLoading
import ProcessorBench.Proofs.Steps
import ProcessorBench.Proofs.StoredLengths
import ProcessorBench.Proofs.SupertypeWalks
import ProcessorBench.Proofs.TextGrammar
import ProcessorBench.Proofs.TidySteps
import ProcessorBench.Proofs.Trees
import ProcessorBench.Proofs.Twins
import ProcessorBench.Proofs.UnitNames
import ProcessorBench.Proofs.View
import ProcessorBench.Proofs.Workspaces
import ProcessorBench.Proofs.Writing
import ProcessorBench.Proofs.WritingBack
import ProcessorBench.Shell.Arithmetic
import ProcessorBench.Shell.Builtin
import ProcessorBench.Shell.Expansion
import ProcessorBench.Shell.Interpreter
import ProcessorBench.Shell.Pattern
import ProcessorBench.Shell.Reader
import ProcessorBench.Shell.Script
import ProcessorBench.Shell.Session
import ProcessorBench.Suite.CaseFailure
import ProcessorBench.Suite.Declaration
import ProcessorBench.Suite.Discovery
import ProcessorBench.Suite.DiscoveryError
import ProcessorBench.Suite.Outcome
import ProcessorBench.Suite.Pool
import ProcessorBench.Suite.Runner
import ProcessorBench.Suite.Target
import ProcessorBench.Suite.TestCase
import ProcessorBench.Text.BasicRegex
import ProcessorBench.Text.Blank
import ProcessorBench.Text.CharSet
import ProcessorBench.Text.CodePage437
import ProcessorBench.Text.Invisible
import ProcessorBench.Text.Latin1
import ProcessorBench.Text.Lines
import ProcessorBench.Text.ModifiedUtf8
import ProcessorBench.Text.Quoted
import ProcessorBench.Text.Utf16
import ProcessorBench.Text.Utf8
import ProcessorBench.Utility.Base64
import ProcessorBench.Utility.Basic
import ProcessorBench.Utility.Condition
import ProcessorBench.Utility.Files
import ProcessorBench.Utility.LineEditor
import ProcessorBench.Utility.Listing
import ProcessorBench.Utility.Numbers
import ProcessorBench.Utility.Options
import ProcessorBench.Utility.Printing
import ProcessorBench.Utility.Search
import ProcessorBench.Utility.Streams
