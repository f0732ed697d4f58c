import ProcessorBench.Text.CharSet

/-!
# Patterns

A pattern is matched by a whole text: `*` by any part of it, `?` by any character, and a set in brackets by
the characters in it. Characters that were quoted stand for themselves.
-/

namespace ProcessorBench

/-- A character of an expanded word, and whether it was quoted. -/
structure MarkedChar where
  char : Char
  quoted : Bool
deriving DecidableEq, Repr

/-- A piece of a pattern. -/
inductive PatternPart where
  | char (c : Char)
  | anyChar
  | anyText
  | oneOf (set : CharSet)
deriving DecidableEq, Repr

/-- A pattern. -/
abbrev Pattern := List PatternPart

namespace Pattern

/-- Read a pattern. A bracket without a partner stands for itself. -/
def ofMarked : List MarkedChar → Pattern
  | [] => []
  | c :: rest =>
    if c.quoted then .char c.char :: ofMarked rest
    else if c.char = '*' then .anyText :: ofMarked rest
    else if c.char = '?' then .anyChar :: ofMarked rest
    else if c.char = '[' then
      match CharSet.read? (rest.map (·.char)) with
      | some (set, after) => .oneOf set :: ofMarked (rest.drop (rest.length - after.length))
      | none => .char '[' :: ofMarked rest
    else .char c.char :: ofMarked rest
termination_by word => word.length
decreasing_by all_goals simp only [List.length_cons, List.length_drop]; omega

/-- Whether a text matches a pattern. -/
def isMatch : Pattern → List Char → Bool
  | [], [] => true
  | [], _ :: _ => false
  | .anyText :: more, [] => isMatch more []
  | .anyText :: more, c :: rest => isMatch more (c :: rest) || isMatch (.anyText :: more) rest
  | _ :: _, [] => false
  | .char p :: more, c :: rest => p = c && isMatch more rest
  | .anyChar :: more, _ :: rest => isMatch more rest
  | .oneOf set :: more, c :: rest => set.contains c && isMatch more rest
termination_by pattern text => pattern.length + text.length

/-- Whether something else than one text matches a pattern. -/
def isActive (p : Pattern) : Bool :=
  p.any fun
    | .char _ => false
    | _ => true

/-- A text without what matches a pattern at its start: the longest such part, or the shortest. Without one
the text is left as it is. -/
def trimStart (p : Pattern) (longest : Bool) (text : List Char) : List Char :=
  let cuts := (List.range (text.length + 1)).filter fun n => p.isMatch (text.take n)
  match if longest then cuts.getLast? else cuts.head? with
  | some n => text.drop n
  | none => text

/-- A text without what matches a pattern at its end. -/
def trimEnd (p : Pattern) (longest : Bool) (text : List Char) : List Char :=
  let cuts := (List.range (text.length + 1)).filter fun n => p.isMatch (text.drop n)
  match if longest then cuts.head? else cuts.getLast? with
  | some n => text.take n
  | none => text

end Pattern

end ProcessorBench
