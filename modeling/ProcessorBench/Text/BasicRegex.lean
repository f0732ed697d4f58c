import ProcessorBench.Text.CharSet

/-!
# Basic regular expressions

The expressions of line editors: `.`, `*`, sets in brackets, `^` and `$` at the ends, groups and repetitions
written with backslashes. `BasicRegex.find?` gives the first match in a line, and of those that start at one
place the longest.
-/

namespace ProcessorBench

/-- A basic regular expression. -/
inductive BasicRegex where
  | empty
  | char (c : Char)
  | anyChar
  | oneOf (set : CharSet)
  | lineStart
  | lineEnd
  | sequence (first second : BasicRegex)
  | either (first second : BasicRegex)
  | many (repeated : BasicRegex)
  /-- Something a number of times, at least and at most. -/
  | times (least : Nat) (most : Option Nat) (repeated : BasicRegex)
  | group (number : Nat) (inner : BasicRegex)
  | again (number : Nat)
deriving Repr

namespace BasicRegex

/-- A place in a line, with what the groups have matched so far. -/
structure Place where
  isStart : Bool
  rest : List Char
  groups : List (Nat × List Char) := []

/-- A way to go on from places to places: it tries the continuation at each in turn. -/
abbrev Matcher := Place → (Place → Option Place) → Option Place

/-- Go over a character of a kind. -/
def step (accepts : Char → Bool) : Matcher := fun p next =>
  match p.rest with
  | c :: rest => if accepts c then next { p with isStart := false, rest } else none
  | [] => none

/-- Go over a text. -/
def stepText : List Char → Matcher
  | [] => fun p next => next p
  | c :: text => fun p next => step (· = c) p fun p => stepText text p next

/-- Repeat something as often as it goes forward, at most a number of times. -/
def repeated (matcher : Matcher) : Nat → Matcher
  | 0 => fun p next => next p
  | n + 1 => fun p next =>
    (matcher p fun p' =>
      if p'.rest.length < p.rest.length then repeated matcher n p' next else none) <|> next p

/-- Do something a number of times, and then something else. -/
def exactly (matcher last : Matcher) : Nat → Matcher
  | 0 => last
  | n + 1 => fun p next => matcher p fun p => exactly matcher last n p next

/-- Where an expression leads. -/
def matcher : BasicRegex → Matcher
  | .empty => fun p next => next p
  | .char c => step (· = c)
  | .anyChar => step fun _ => true
  | .oneOf set => step set.contains
  | .lineStart => fun p next => if p.isStart then next p else none
  | .lineEnd => fun p next => if p.rest = [] then next p else none
  | .sequence first second => fun p next => first.matcher p fun p => second.matcher p next
  | .either first second => fun p next => first.matcher p next <|> second.matcher p next
  | .many inner => fun p next => repeated inner.matcher p.rest.length p next
  | .times least most inner => fun p next =>
    exactly inner.matcher
      (repeated inner.matcher (most.elim p.rest.length (· - least))) least p next
  | .group number inner => fun p next =>
    inner.matcher p fun p' =>
      next { p' with groups :=
        (number, p.rest.take (p.rest.length - p'.rest.length)) :: p'.groups }
  | .again number => fun p next => stepText ((p.groups.lookup number).getD []) p next

/-- A match in a line. -/
structure Match where
  before : List Char
  matched : List Char
  after : List Char
  groups : List (Nat × List Char)

/-- Whether the first way through an expression may not be the longest one. -/
def hasChoice : BasicRegex → Bool
  | .either .. | .again _ => true
  | .sequence first second => first.hasChoice || second.hasChoice
  | .many inner | .times _ _ inner | .group _ inner => inner.hasChoice
  | _ => false

/-- The longest way through an expression: the first one, unless another leaves less of the text. -/
def longest? (r : BasicRegex) (start : Place) : Option Place := do
  let first ← r.matcher start some
  if r.hasChoice then
    let longer := (List.range first.rest.length).findSome? fun left =>
      r.matcher start fun p => if p.rest.length = left then some p else none
    return longer.getD first
  else return first

/-- The first match in what is left of a line. -/
def findFrom (r : BasicRegex) (isStart : Bool) (before : List Char) (rest : List Char) : Option Match :=
  match r.longest? ⟨isStart, rest, []⟩ with
  | some p =>
    some ⟨before.reverse, rest.take (rest.length - p.rest.length), p.rest, p.groups⟩
  | none =>
    match rest with
    | [] => none
    | c :: rest => findFrom r false (c :: before) rest

/-- The first match in a line. -/
def find? (r : BasicRegex) (line : List Char) : Option Match := r.findFrom true [] line

/-- The expression for one thing after another. -/
def ofList : List BasicRegex → BasicRegex
  | [] => .empty
  | [r] => r
  | r :: rest => .sequence r (ofList rest)

/-- An expression in which a letter stands for its other case too. -/
def folded : BasicRegex → BasicRegex
  | .char c => if c.isAlpha then .oneOf ⟨false, [(c.toLower, c.toLower), (c.toUpper, c.toUpper)]⟩ else .char c
  | .oneOf set =>
    let letters := (List.range 26).flatMap fun k =>
      let lower := Char.ofNat ('a'.toNat + k)
      let isListed (c : Char) : Bool := set.ranges.any fun (first, last) => first ≤ c && c ≤ last
      if isListed lower || isListed lower.toUpper then [(lower, lower), (lower.toUpper, lower.toUpper)] else []
    .oneOf { set with ranges := letters ++ set.ranges }
  | .sequence first second => .sequence first.folded second.folded
  | .either first second => .either first.folded second.folded
  | .many inner => .many inner.folded
  | .times least most inner => .times least most inner.folded
  | .group number inner => .group number inner.folded
  | r => r

/-- What has been read of an expression: how many groups there are, and the rest of the text. -/
structure Source where
  groupCount : Nat
  rest : List Char

/-- A step in reading an expression, which fails if the text is none. -/
abbrev ReadStep := StateT Source Option

/-- Look at the characters that come next. -/
def ahead : ReadStep (List Char) := return (← get).rest

/-- Go on behind some characters. -/
def skip (count : Nat) : ReadStep Unit := modify fun s => { s with rest := s.rest.drop count }

/-- The number that a text starts with, if it does, and what follows. -/
def count? (text : List Char) : Option Nat × List Char :=
  let digits := text.takeWhile (·.isDigit)
  ((String.ofList digits).toNat?, text.drop digits.length)

/-- The least and the greatest number of times between braces, whose opening one has been read, and how long
that is up to the closing one. -/
def bounds? (text : List Char) : Option (Nat × Option Nat × Nat) := do
  let (least, rest) := count? text
  let (most, rest) ← match rest with
    | ',' :: rest =>
      let (most, rest) := count? rest
      some (most, rest)
    | rest => least.map fun n => (some n, rest)
  match rest with
  | '\\' :: '\x7d' :: after =>
    let least := least.getD 0
    if most.all (least ≤ ·) then some (least, most, text.length - after.length) else none
  | _ => none

/-- The expression of a letter after a backslash that stands for characters of a kind. -/
def ofLetter? : Char → Option BasicRegex
  | 'w' => some (.oneOf ⟨false, [('a', 'z'), ('A', 'Z'), ('0', '9'), ('_', '_')]⟩)
  | 'W' => some (.oneOf ⟨true, [('a', 'z'), ('A', 'Z'), ('0', '9'), ('_', '_')]⟩)
  | 's' => some (.oneOf ⟨false, [('\t', '\r'), (' ', ' ')]⟩)
  | 'S' => some (.oneOf ⟨true, [('\t', '\r'), (' ', ' ')]⟩)
  | _ => none

mutual

/-- Read something that can be repeated. -/
def readAtom : Nat → ReadStep BasicRegex
  | 0 => failure
  | fuel + 1 => do
    match ← ahead with
    | '\\' :: '(' :: _ =>
      skip 2
      modify fun s => { s with groupCount := s.groupCount + 1 }
      let number := (← get).groupCount
      let inner ← readChoice fuel
      match ← ahead with
      | '\\' :: ')' :: _ =>
        skip 2
        return .group number inner
      | _ => failure
    | '\\' :: 'n' :: _ =>
      skip 2
      return .char '\n'
    | '\\' :: 't' :: _ =>
      skip 2
      return .char '\t'
    | '\\' :: c :: _ =>
      skip 2
      return if '1' ≤ c && c ≤ '9' then .again (c.toNat - '0'.toNat) else (ofLetter? c).getD (.char c)
    | '[' :: rest =>
      match CharSet.read? rest with
      | some (set, rest) =>
        modify fun s => { s with rest }
        return .oneOf set
      | none => failure
    | '.' :: _ =>
      skip 1
      return .anyChar
    | c :: _ =>
      skip 1
      return .char c
    | [] => failure

/-- Read the repetitions of something. -/
def readRepetitions : Nat → BasicRegex → ReadStep BasicRegex
  | 0, _ => failure
  | fuel + 1, r => do
    match ← ahead with
    | '*' :: _ =>
      skip 1
      readRepetitions fuel (.many r)
    | '\\' :: '+' :: _ =>
      skip 2
      readRepetitions fuel (.sequence r (.many r))
    | '\\' :: '?' :: _ =>
      skip 2
      readRepetitions fuel (.times 0 (some 1) r)
    | '\\' :: '\x7b' :: text =>
      match bounds? text with
      | some (least, most, length) =>
        skip (length + 2)
        readRepetitions fuel (.times least most r)
      | none => failure
    | _ => return r

/-- Read one thing after another. An asterisk at the front stands for itself. -/
def readSequence : Nat → Bool → ReadStep (List BasicRegex)
  | 0, _ => failure
  | fuel + 1, isFirst => do
    match ← ahead with
    | [] | '\\' :: ')' :: _ | '\\' :: '|' :: _ => return []
    | '$' :: [] | '$' :: '\\' :: ')' :: _ | '$' :: '\\' :: '|' :: _ =>
      skip 1
      return [.lineEnd]
    | c :: _ =>
      if isFirst && c = '^' then
        skip 1
        return .lineStart :: (← readSequence fuel true)
      else if isFirst && c = '*' then
        skip 1
        let r ← readRepetitions fuel (.char '*')
        return r :: (← readSequence fuel false)
      else
        let r ← readRepetitions fuel (← readAtom fuel)
        return r :: (← readSequence fuel false)

/-- Read a choice between sequences. -/
def readChoice : Nat → ReadStep BasicRegex
  | 0 => failure
  | fuel + 1 => do
    let first := ofList (← readSequence fuel true)
    match ← ahead with
    | '\\' :: '|' :: _ =>
      skip 2
      return .either first (← readChoice fuel)
    | _ => return first

end

/-- Read an expression. -/
def read? (text : List Char) : Option BasicRegex :=
  match (readChoice (4 * text.length + 4)).run ⟨0, text⟩ with
  | some (r, ⟨_, []⟩) => some r
  | _ => none

/-- The basic spelling of an extended expression, in which the characters for groups and repetitions have
their meaning without a backslash. -/
def ofExtended : List Char → List Char
  | [] => []
  | '\\' :: c :: rest =>
    if "()+?|\x7b\x7d".contains c then c :: ofExtended rest else '\\' :: c :: ofExtended rest
  | c :: rest =>
    if "()+?|\x7b\x7d".contains c then '\\' :: c :: ofExtended rest
    else if c = '[' then
      match CharSet.read? rest with
      | some (_, after) =>
        let length := rest.length - after.length
        c :: rest.take length ++ ofExtended (rest.drop length)
      | none => c :: ofExtended rest
    else c :: ofExtended rest
termination_by text => text.length
decreasing_by all_goals simp only [List.length_cons, List.length_drop]; omega

end BasicRegex

end ProcessorBench
