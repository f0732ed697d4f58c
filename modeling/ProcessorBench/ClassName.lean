/-!
# Names of classes

A class has one name in three forms: the binary name (`com.example.Outer$Inner`), by which it is
asked for; the internal name (`com/example/Outer$Inner`), which class files store; and the descriptor
of its objects (`Lcom/example/Outer$Inner;`).
-/

namespace ProcessorBench.ClassName

/-- Put one character in the place of another. -/
def replaceChar (old new : Char) (text : String) : String :=
  String.ofList (text.toList.map fun c => if c = old then new else c)

/-- The binary name of an internal name. -/
def ofInternal (name : String) : String := replaceChar '/' '.' name

/-- The internal name of a binary name. -/
def toInternal (name : String) : String := replaceChar '.' '/' name

/-- The binary name in the descriptor of an object type; a descriptor of another type has none. -/
def ofDescriptor? (descriptor : String) : Option String :=
  match descriptor.toList with
  | 'L' :: rest =>
    if rest.getLast? = some ';' && rest.length > 1 then
      some (ofInternal (String.ofList rest.dropLast))
    else none
  | _ => none

/-- The descriptor of the objects of a class. -/
def toDescriptor (name : String) : String := "L" ++ toInternal name ++ ";"

/-- Whether a descriptor is one of arrays. -/
def isArrayDescriptor (descriptor : String) : Bool := descriptor.toList.head? = some '['

end ProcessorBench.ClassName
