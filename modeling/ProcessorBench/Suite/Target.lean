/-!
# Targets of a marker

A processor is tested on a declaration that carries a marker annotation. `Target` says what kind of
declaration that is, and `Target.stub` is the smallest source with a marked one.
-/

namespace ProcessorBench

/-- A kind of declaration that can carry the marker. -/
inductive Target where
  | type
  | method
  | constructor
  | field
deriving DecidableEq, Repr

/-- The class that every tested source declares. -/
def exampleClass : String := "Example"

namespace Target

/-- The name of the kind among the constants of `ElementType`. -/
def elementType : Target → String
  | .type => "TYPE"
  | .method => "METHOD"
  | .constructor => "CONSTRUCTOR"
  | .field => "FIELD"

/-- The kind of a constant of `ElementType`; constants for other declarations have none. -/
def ofElementType? : String → Option Target
  | "TYPE" => some .type
  | "METHOD" => some .method
  | "CONSTRUCTOR" => some .constructor
  | "FIELD" => some .field
  | _ => none

theorem ofElementType?_elementType (t : Target) : ofElementType? t.elementType = some t := by
  cases t <;> rfl

/-- The declaration inside the class that carries the marker; none if the class does. -/
def member? : Target → Option String
  | .type => none
  | .method => some "public void example() \x7b\x7d"
  | .constructor => some "public Example() \x7b\x7d"
  | .field => some "public int example;"

/-- The name by which a source mentions a class of the given binary name. -/
def canonicalName (binaryName : String) : String :=
  String.ofList (binaryName.toList.map fun c => if c = '$' then '.' else c)

/-- The smallest source in which a declaration of the kind carries the marker. -/
def stub (target : Target) (marker : String) : String :=
  let marker := canonicalName marker
  let start := "import " ++ marker ++ ";\n"
  match target.member? with
  | none => start ++ "@" ++ marker ++ "\npublic class Example \x7b\x7d"
  | some member =>
    start ++ "public class Example \x7b\n    @" ++ marker ++ "\n    " ++ member ++ "\n\x7d"

end Target

end ProcessorBench
