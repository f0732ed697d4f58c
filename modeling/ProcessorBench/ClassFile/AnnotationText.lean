import ProcessorBench.ClassFile.AnnotationValue
import ProcessorBench.Decimal.Layout
import ProcessorBench.Text.Quoted

/-!
# Annotation values in reports

The text of an annotation value, which tells its kind and all of its parts.
-/

namespace ProcessorBench

/-- Numbers in reports have their point in place from 0.0001 up to below 10¹⁶. -/
def AnnotationValue.numberLayout : DecimalLayout :=
  { firstPlain := -3, lastPlain := 16, nan := "NaN", infinity := "inf" }

mutual

/-- The text of a value. -/
def AnnotationValue.describe : AnnotationValue → String
  | .int value => "Int(" ++ toString value.toInt ++ ")"
  | .float bits => "Float(" ++ AnnotationValue.numberLayout.writeBinary64 bits ++ ")"
  | .bool value => "Bool(" ++ (if value then "true" else "false") ++ ")"
  | .char value => "Char(" ++ Quoted.char value ++ ")"
  | .string text => "String(" ++ Quoted.text text ++ ")"
  | .enumConst descriptor constant =>
    "Enum \x7b descriptor: " ++ Quoted.text descriptor ++ ", constant: " ++ Quoted.text constant ++
      " \x7d"
  | .classInfo descriptor => "Class(" ++ Quoted.text descriptor ++ ")"
  | .nested value => "Annotation(" ++ AnnotationContent.describe value ++ ")"
  | .array values => "Array([" ++ ", ".intercalate (AnnotationValue.describeList values) ++ "])"

/-- The texts of some values. -/
def AnnotationValue.describeList : List AnnotationValue → List String
  | [] => []
  | value :: values => AnnotationValue.describe value :: AnnotationValue.describeList values

/-- The text of an annotation. -/
def AnnotationContent.describe : AnnotationContent → String
  | ⟨descriptor, elements⟩ =>
    "ResolvedAnnotation \x7b descriptor: " ++ Quoted.text descriptor ++ ", elements: [" ++
      ", ".intercalate (ResolvedElement.describeList elements) ++ "] \x7d"

/-- The texts of some elements. -/
def ResolvedElement.describeList : List ResolvedElement → List String
  | [] => []
  | element :: elements =>
    ResolvedElement.describe element :: ResolvedElement.describeList elements

/-- The text of an element: its name and its value. -/
def ResolvedElement.describe : ResolvedElement → String
  | ⟨name, value⟩ => "(" ++ Quoted.text name ++ ", " ++ AnnotationValue.describe value ++ ")"

end

end ProcessorBench
