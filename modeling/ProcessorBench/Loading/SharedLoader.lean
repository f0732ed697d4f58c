import ProcessorBench.Loading.ClassLoader

/-!
# Class loaders with several callers

Several callers may share a loader, so that their calls of `load` overlap. A call for a name of the
table takes two steps, and between them those of other calls may come: it fetches the slot of the name,
or makes an empty one; later, holding the lock of that slot, it looks for a definition in it and makes
one if there is none. A call for any other name takes one step, in which the parent answers.

`LoaderRun.after` runs any number of calls, with their steps in any order, and with anyone for a
parent. When each call takes its steps before the next one comes, and the parent is the loader's own,
it does what `ClassLoader.load` does.
-/

namespace ProcessorBench

/-- What a loader shares with its parent, which is the number of definitions made so far, and what
the parent keeps for itself. -/
structure Outside (σ : Type) where
  count : Nat
  parent : σ

/-- Whoever can be asked for classes. It may remember what it was asked, and it may define classes of
its own, but it knows nothing of the loader that asks. -/
abbrev Resolver (σ : Type) := String → StateM (Outside σ) (Except LoadError Definition)

/-- What a step gives, and the definitions after it. -/
def LoadStep.outcome {α : Type} (x : LoadStep α) (d : Definitions) :
    Except LoadError α × Definitions :=
  match x.run d with
  | .ok a d => (.ok a, d)
  | .error e d => (.error e, d)

/-- The parent of a loader, with the definitions that it has made. -/
def ParentLoader.resolver (disk : Disk) (parent : ParentLoader) :
    Resolver (List ((Definer × String) × Definition)) := fun name outside =>
  let (answer, d) := (parent.resolve disk name).outcome ⟨outside.parent, outside.count⟩
  (answer, ⟨d.count, d.known⟩)

/-! ## Slots -/

/-- The slots of a loader: which of them belongs to a name, and what each of them holds. -/
structure Slots where
  index : List (String × Nat) := []
  cells : List (Option Definition) := []

namespace Slots

/-- The slot of a name. If there is none, it is made, and holds nothing. -/
def fetch (s : Slots) (name : String) : Nat × Slots :=
  match s.index.lookup name with
  | some slot => (slot, s)
  | none => (s.cells.length, ⟨(name, s.cells.length) :: s.index, s.cells ++ [none]⟩)

/-- What a slot holds. -/
def held? (s : Slots) (slot : Nat) : Option Definition := s.cells[slot]?.join

/-- Put a definition in a slot. -/
def fill (s : Slots) (slot : Nat) (definition : Definition) : Slots :=
  { s with cells := s.cells.set slot (some definition) }

/-- The definition of a name. -/
def definitionOf? (s : Slots) (name : String) : Option Definition :=
  (s.index.lookup name).bind s.held?

end Slots

/-! ## Calls -/

/-- How far a call of `load` has come. -/
inductive LoadPhase where
  | entered
  /-- It has the slot for its name, and the bytes. -/
  | fetched (slot : Nat) (bytes : Bytes)
  | returned (result : Except LoadError Definition)

/-- A call of `load`. -/
structure LoadCall where
  name : String
  phase : LoadPhase

/-- The state of a loader, and what has become of it. -/
structure LoaderState (σ : Type) where
  slots : Slots := {}
  outside : Outside σ
  /-- The names that the parent was asked for, with its answers. No step looks at them. -/
  asked : List (String × Except LoadError Definition) := []
  /-- The definitions that the loader has made. No step looks at them. -/
  defined : List (String × Definition) := []

namespace LoaderState

variable {σ : Type}

/-- Ask the parent. -/
def ask (s : LoaderState σ) (parent : Resolver σ) (name : String) :
    Except LoadError Definition × LoaderState σ :=
  let (answer, outside) := (parent name).run s.outside
  (answer, { s with outside, asked := (name, answer) :: s.asked })

/-- Put a new definition of a class in a slot. -/
def define (s : LoaderState σ) (slot : Nat) (name : String) (content : LoadedClass) :
    LoaderState σ :=
  let definition : Definition := ⟨s.outside.count, content⟩
  { s with
    slots := s.slots.fill slot definition
    outside := { s.outside with count := s.outside.count + 1 }
    defined := (name, definition) :: s.defined }

/-- The definition in a slot, or a new one if the slot is empty. It stays empty if the class cannot be
defined. -/
def definedIn (s : LoaderState σ) (slot : Nat) (name : String) (bytes : Bytes) :
    Except LoadError Definition × LoaderState σ :=
  match s.slots.held? slot with
  | some definition => (.ok definition, s)
  | none =>
    match ClassLoader.defineOwn name bytes with
    | .error e => (.error e, s)
    | .ok content => (.ok ⟨s.outside.count, content⟩, s.define slot name content)

/-- The next step of a call. It is `parent` who is asked, whatever the parent of `l`. -/
def advance (s : LoaderState σ) (l : ClassLoader) (parent : Resolver σ) (c : LoadCall) :
    LoadPhase × LoaderState σ :=
  match c.phase with
  | .entered =>
    match l.bytesOf? c.name with
    | none =>
      let (answer, s) := s.ask parent c.name
      (.returned answer, s)
    | some bytes =>
      let (slot, slots) := s.slots.fetch c.name
      (.fetched slot bytes, { s with slots })
  | .fetched slot bytes =>
    let (result, s) := s.definedIn slot c.name bytes
    (.returned result, s)
  | .returned result => (.returned result, s)

end LoaderState

/-! ## Runs -/

/-- A loader and the calls of it, in the order in which they were made. -/
structure LoaderRun (σ : Type) where
  state : LoaderState σ
  calls : List LoadCall := []

/-- What can happen next. -/
inductive LoaderMove where
  /-- Somebody calls `load`. -/
  | call (name : String)
  /-- A call takes its next step. -/
  | advance (caller : Nat)
deriving DecidableEq, Repr

namespace LoaderRun

variable {σ : Type}

/-- A new loader. -/
def start (outside : Outside σ) : LoaderRun σ where
  state := { outside }

/-- One move. -/
def step (l : ClassLoader) (parent : Resolver σ) (run : LoaderRun σ) : LoaderMove → LoaderRun σ
  | .call name => { run with calls := run.calls ++ [⟨name, .entered⟩] }
  | .advance caller =>
    match run.calls[caller]? with
    | none => run
    | some c =>
      let (phase, state) := run.state.advance l parent c
      { state, calls := run.calls.set caller { c with phase } }

/-- A number of moves. -/
def after (run : LoaderRun σ) (l : ClassLoader) (parent : Resolver σ) (moves : List LoaderMove) :
    LoaderRun σ :=
  moves.foldl (step l parent) run

/-- The moves of calls for some names, each of which takes its steps before the next one comes, where
`calls` is the number of calls so far. -/
def inTurn (calls : Nat) : List String → List LoaderMove
  | [] => []
  | name :: names => [.call name, .advance calls, .advance calls] ++ inTurn (calls + 1) names

/-- A call for the name has returned with the result. -/
def Returned (run : LoaderRun σ) (name : String) (result : Except LoadError Definition) : Prop :=
  ⟨name, .returned result⟩ ∈ run.calls

end LoaderRun

end ProcessorBench
