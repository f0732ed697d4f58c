/-!
# Sets of characters in brackets

Patterns and regular expressions name a set of characters by listing it in brackets: `[abc]`, `[a-z_]`,
`[[:digit:]]`, and `[!abc]` or `[^abc]` for all others. `CharSet.read?` reads what stands after the opening
bracket.
-/

namespace ProcessorBench

/-- A set of characters, given by ranges of them. -/
structure CharSet where
  /-- Whether the set holds the characters outside the ranges. -/
  negated : Bool
  ranges : List (Char × Char)
deriving DecidableEq, Repr

namespace CharSet

/-- Whether a set holds a character. -/
def contains (s : CharSet) (c : Char) : Bool :=
  s.ranges.any (fun (first, last) => first ≤ c && c ≤ last) != s.negated

/-- The named sets of the characters of ASCII. -/
def named : List (String × List (Char × Char)) :=
  [("alpha", [('A', 'Z'), ('a', 'z')]), ("digit", [('0', '9')]),
   ("alnum", [('0', '9'), ('A', 'Z'), ('a', 'z')]), ("upper", [('A', 'Z')]), ("lower", [('a', 'z')]),
   ("space", [('\t', '\r'), (' ', ' ')]), ("blank", [('\t', '\t'), (' ', ' ')]),
   ("punct", [('!', '/'), (':', '@'), ('[', '\x60'), ('\x7b', '~')]),
   ("xdigit", [('0', '9'), ('A', 'F'), ('a', 'f')])]

/-- The ranges that stand at the start of a text, whose first character is given, and how much of the rest
they take up. -/
def rangesAt (c : Char) (rest : List Char) : List (Char × Char) × Nat :=
  let isNamed : String × List (Char × Char) → Bool := fun (name, _) =>
    ("[:" ++ name ++ ":]").toList.isPrefixOf (c :: rest)
  match named.find? isNamed, rest with
  | some (name, ranges), _ => (ranges, name.length + 3)
  | none, '-' :: last :: _ => if last = ']' then ([(c, c)], 0) else ([(c, last)], 2)
  | none, _ => ([(c, c)], 0)

/-- Read the ranges up to the closing bracket, which stands for itself at the front. -/
def readRanges (isFirst : Bool) : List Char → Option (List (Char × Char) × List Char)
  | [] => none
  | c :: rest =>
    if c = ']' && !isFirst then some ([], rest)
    else
      let (ranges, length) := rangesAt c rest
      (readRanges false (rest.drop length)).map fun (more, rest) => (ranges ++ more, rest)
termination_by text => text.length
decreasing_by simp only [List.length_cons, List.length_drop]; omega

/-- Read a set after its opening bracket. The result is the set and what follows the closing bracket. -/
def read? : List Char → Option (CharSet × List Char)
  | '!' :: rest | '^' :: rest => (readRanges true rest).map fun (ranges, rest) => (⟨true, ranges⟩, rest)
  | rest => (readRanges true rest).map fun (ranges, rest) => (⟨false, ranges⟩, rest)

end CharSet

end ProcessorBench
