import ProcessorBench.Loading.Error

/-!
# Why tests cannot be found

A fault found while a source tree is searched for tests ends the search: a broken tree gives no results.
-/

namespace ProcessorBench

/-- Why a test declaration cannot be turned into a case. -/
inductive UnsupportedReason where
  /-- The marker is no annotation type. -/
  | markerIsOrdinaryType
  /-- The target is a constant for a kind of declaration that cannot be tested. -/
  | targetConstant (name : String)
  /-- The target is another value altogether, of the given text. -/
  | targetValue (text : String)
  | missingTarget
deriving DecidableEq, Repr

/-- The text of a reason. -/
def UnsupportedReason.message : UnsupportedReason → String
  | .markerIsOrdinaryType => "annotation must be an annotation class"
  | .targetConstant name => "Unsupported test target type " ++ name
  | .targetValue text => "Unsupported test target type " ++ text
  | .missingTarget => "missing test target type"

/-- A fault that ends the search. -/
inductive DiscoveryError where
  /-- The place to search is no directory. -/
  | invalidScanRoot (path : Path)
  /-- A source file does not compile. -/
  | compiler (unit : String)
  | unsupported (unit : String) (reason : UnsupportedReason)
  | compile (source : CompileError)
  /-- The class path cannot be opened. -/
  | classPath (source : LoadError)
  /-- A class that the search needs cannot be loaded. -/
  | load (unit : String) (source : LoadError)
  /-- A file of the tree cannot be read. -/
  | io (path : Path)
deriving DecidableEq, Repr

namespace DiscoveryError

/-- The text of a fault. -/
def message : DiscoveryError → String
  | .invalidScanRoot path => "scan root must be a directory: " ++ path.text
  | .compiler unit => "could not compile " ++ unit
  | .unsupported unit reason => "unsupported processor test in " ++ unit ++ ": " ++ reason.message
  | .compile source => source.message
  | .classPath source => "cannot open classpath: " ++ source.message
  | .load unit source => "cannot load classes of " ++ unit ++ ": " ++ source.message
  | .io path => "cannot read " ++ path.text ++ ": " ++ systemMessage

/-- The texts of what caused a fault, the nearest cause first. -/
def causes : DiscoveryError → List String
  | .classPath source | .load _ source =>
    match source with
    | .malformed _ cause => [source.message, cause.message]
    | _ => [source.message]
  | _ => []

end DiscoveryError

end ProcessorBench
