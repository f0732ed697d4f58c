/-!
# Shell scripts

The commands of the shell as trees. A word is a list of parts, since quotes can cover some of it, and since
values and results of other commands are put into it when it is expanded.
-/

namespace ProcessorBench.Shell

/-- Which values of a parameter are as good as none. -/
inductive Missing where
  | unset
  | unsetOrEmpty
deriving DecidableEq, Repr

/-- What is done for a parameter with or without a value. -/
inductive Fallback where
  /-- Use a word in its place. -/
  | use
  /-- Give it the value of a word. -/
  | assign
  /-- Use a word if it does have a value. -/
  | alternative
  /-- End with a complaint. -/
  | complain
deriving DecidableEq, Repr

/-- What a redirection does with a descriptor. -/
inductive RedirectionKind where
  /-- Read a file. -/
  | input
  /-- Write a file from its start. -/
  | output
  /-- Write at the end of a file. -/
  | append
  /-- Share the channel of another descriptor. -/
  | duplicate
  /-- Read a text of the script. -/
  | text
deriving DecidableEq, Repr

mutual

/-- A part of a word. -/
inductive WordPart where
  | literal (text : String) (quoted : Bool)
  | parameter (name : String) (use : ParameterUse) (quoted : Bool)
  /-- What a command prints. -/
  | substitution (command : Command) (quoted : Bool)
  /-- The value of an expression. -/
  | arithmetic (expression : List WordPart) (quoted : Bool)

/-- How the value of a parameter is used. -/
inductive ParameterUse where
  | value
  | length
  | fallback (missing : Missing) (kind : Fallback) (word : List WordPart)
  /-- The value without what matches a pattern at its start or at its end. -/
  | trimmed (atEnd longest : Bool) (pattern : List WordPart)

/-- A change of a descriptor. -/
inductive Redirection where
  | mk (descriptor : Nat) (kind : RedirectionKind) (target : List WordPart)

/-- A command. -/
inductive Command where
  | simple (line : Nat) (assignments : List (String × List WordPart)) (words : List (List WordPart))
      (redirections : List Redirection)
  /-- Commands of which each reads what the one before it prints. -/
  | pipeline (commands : List Command)
  | negated (command : Command)
  | sequence (commands : List Command)
  /-- The second one is run if the first one succeeds. -/
  | both (first second : Command)
  /-- The second one is run if the first one fails. -/
  | either (first second : Command)
  | branch (condition consequent otherwise : Command)
  /-- Run the body while the condition holds, or until it does. -/
  | loop (untilHolds : Bool) (condition body : Command)
  /-- Run the body for each word, or for each argument. -/
  | forEach (name : String) (words : Option (List (List WordPart))) (body : Command)
  /-- Run the first command one of whose patterns the word matches. -/
  | choice (word : List WordPart) (cases : List (List (List WordPart) × Command))
  | subshell (body : Command)
  | redirected (body : Command) (redirections : List Redirection)
  | definition (name : String) (body : Command)

end

/-- A word. -/
abbrev Word := List WordPart

end ProcessorBench.Shell
