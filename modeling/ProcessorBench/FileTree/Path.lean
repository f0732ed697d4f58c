import ProcessorBench.Text.Lines

/-!
# Paths

A path is a text of names with slashes between them. The text is kept as it was given, so that it can be
reported; what it means is in `Path.components`, which passes over empty names and over `.`, except for
a `.` at the front.
-/

namespace ProcessorBench

/-- A path, absolute if it starts with a slash. -/
structure Path where
  text : String
deriving DecidableEq, Repr, Inhabited

namespace Path

/-- A step of a path. -/
inductive Component where
  | root
  | current
  | parent
  | normal (name : String)
deriving DecidableEq, Repr

/-- The texts between the slashes of a path. -/
def segments (p : Path) : List String := Text.splitOn '/' p.text

/-- Whether a path starts at the root. -/
def isAbsolute (p : Path) : Bool := p.text.toList.head? = some '/'

/-- Whether a text can be the name of a file or a directory. -/
def isName (text : String) : Bool :=
  text ≠ "" && text ≠ "." && text ≠ ".." && !text.toList.contains '/'

/-- The step that a segment makes, if it makes one. -/
def Component.ofSegment? (segment : String) : Option Component :=
  if segment = "" || segment = "." then none
  else if segment = ".." then some .parent
  else some (.normal segment)

/-- The step in front of those that the segments make: from the root, or from the current directory where
that is spelled out. -/
def leading? (p : Path) : Option Component :=
  if p.isAbsolute then some .root
  else if p.segments.head? = some "." then some .current
  else none

/-- The steps of a path. -/
def components (p : Path) : List Component :=
  p.leading?.toList ++ p.segments.filterMap Component.ofSegment?

/-- The path of some names, one below the other. -/
def ofNames (names : List String) : Path := ⟨"/".intercalate names⟩

/-- Go on from one path along another. An absolute path starts afresh. -/
def join (base next : Path) : Path :=
  if next.isAbsolute then next
  else if base.text = "" || base.text.toList.getLast? = some '/' then ⟨base.text ++ next.text⟩
  else ⟨base.text ++ "/" ++ next.text⟩

/-- Go on from a path along names, one after the other. -/
def joinAll (base : Path) (names : List String) : Path :=
  names.foldl (fun p name => p.join ⟨name⟩) base

/-- The last name of a path, if it ends with one. -/
def fileName? (p : Path) : Option String :=
  match p.components.getLast? with
  | some (.normal name) => some name
  | _ => none

/-- The part of a file name after its last point. A name that starts with its only point has none. -/
def extensionOf? (name : String) : Option String :=
  let suffix := name.toList.reverse.takeWhile (· ≠ '.')
  let rest := name.toList.reverse.dropWhile (· ≠ '.')
  if rest.length ≤ 1 then none else some (String.ofList suffix.reverse)

/-- The extension of the file that a path leads to. -/
def extension? (p : Path) : Option String := p.fileName?.bind extensionOf?

/-- Whether a segment makes no step. -/
def isIdle (segment : List Char) : Bool := segment = [] || segment = ['.']

/-- Segments without those at the end that make no step. -/
def trimmed (segments : List (List Char)) : List (List Char) :=
  (segments.reverse.dropWhile isIdle).reverse

/-- The characters that say where a path starts, and the rest. -/
def splitLeading (p : Path) : List Char × List Char :=
  match p.leading? with
  | some .root => (['/'], p.text.toList.drop 1)
  | some .current => (['.'], p.text.toList.drop 1)
  | _ => ([], p.text.toList)

/-- The path without its last step. The root and the empty path have none to leave out. -/
def parent? (p : Path) : Option Path :=
  let (start, rest) := p.splitLeading
  match trimmed (Text.parts (· = '/') rest) with
  | [] => if start = ['.'] then some ⟨""⟩ else none
  | segments =>
    some ⟨String.ofList (start ++ ['/'].intercalate (trimmed segments.dropLast))⟩

end Path

end ProcessorBench
