import ProcessorBench.Text.Blank
import ProcessorBench.Text.Lines

/-!
# Versions of the Java compiler

A compiler says which release it is in a line such as `javac 17.0.2`. Releases before 9 are numbered
`1.8` and so on, and they know no modules.
-/

namespace ProcessorBench

/-- The number of a release: 8 for `1.8.0_292`, 17 for `17.0.2`. -/
structure JavacVersion where
  release : UInt32
deriving DecidableEq, Repr

namespace JavacVersion

/-- Whether the release knows modules. -/
def hasModules (v : JavacVersion) : Bool := 9 ≤ v.release

/-- What a line says about the version. -/
def announced? (line : List Char) : Option (List Char) :=
  let line := Text.trim line
  let announcement := "javac ".toList
  if announcement.isPrefixOf line then some (Text.trim (line.drop announcement.length)) else none

/-- The number that some digits write, if there are any and it is less than 2³². -/
def number? (digits : List Char) : Option UInt32 :=
  let n := digits.foldl (fun n c => n * 10 + (c.toNat - '0'.toNat)) 0
  if digits ≠ [] && n < UInt32.size then some (UInt32.ofNat n) else none

/-- The release that a version text names: its first number, or the second if the first is 1. -/
def ofText? (version : List Char) : Option JavacVersion :=
  match Text.parts (fun c => !c.isDigit) version with
  | [] => none
  | first :: more => do
    let n ← number? first
    if n = 1 then
      let second ← more.head?
      return ⟨← number? second⟩
    else return ⟨n⟩

/-- The version in what a compiler says about itself: that of the first line which tells one. -/
def ofOutput? (output : String) : Option JavacVersion :=
  ((Text.lines output).findSome? fun line => announced? line.toList).bind ofText?

end JavacVersion

end ProcessorBench
