import ProcessorBench.Proofs.SharedLoading

/-!
# Loading one class after another

`ClassLoader.load` is a call that takes its steps before the next one comes, so that what can be
relied on when calls overlap can be relied on here (`ClassLoader.load_eq_run`,
`ClassLoader.loadAll_isolated`). The definitions of the loader are those in its slots; those of others
are the parent's.
-/

namespace ProcessorBench

/-! ## Steps of the parent -/

/-- The same definitions, those of loaders left aside. -/
structure Definitions.SameElsewhere (d e : Definitions) : Prop where
  count : e.count = d.count
  find : ∀ definer name, definer ≠ .isolated → e.find? definer name = d.find? definer name

/-- A definition that is added is found under its name, and no other is changed. -/
theorem Definitions.find?_add (d : Definitions) (definer other : Definer) (name name' : String)
    (content : LoadedClass) : (d.add definer name content).find? other name' =
      if other = definer ∧ name' = name then some ⟨d.count, content⟩ else d.find? other name' := by
  rw [find?, add, List.lookup_cons]
  split
  next same =>
    cases beq_iff_eq.mp same
    rw [if_pos ⟨rfl, rfl⟩]
  next apart =>
    rw [if_neg, find?]
    rintro ⟨rfl, rfl⟩
    simp at apart

/-- A definition that is added is found by who has defined it. -/
theorem Definitions.find?_add_self (d : Definitions) (definer : Definer) (name : String) (content : LoadedClass) :
    (d.add definer name content).find? definer name = some ⟨d.count, content⟩ := by
  rw [find?_add, if_pos ⟨rfl, rfl⟩]

/-- What one definer defines is no business of another one. -/
theorem Definitions.find?_add_of_ne (d : Definitions) {definer other : Definer} (apart : other ≠ definer)
    (name name' : String) (content : LoadedClass) :
    (d.add definer name content).find? other name' = d.find? other name' := by
  rw [find?_add, if_neg fun same => apart same.1]

/-- What is the same elsewhere stays so when both add the same. -/
theorem Definitions.SameElsewhere.add {d e : Definitions} (h : d.SameElsewhere e) (definer : Definer)
    (name : String) (content : LoadedClass) :
    (d.add definer name content).SameElsewhere (e.add definer name content) where
  count := congrArg (· + 1) h.count
  find other name' elsewhere := by
    rw [find?_add, find?_add, h.count, h.find other name' elsewhere]

namespace LoadStep

variable {α β : Type}

/-- A step goes on with what the one before it has left. -/
theorem outcome_bind (x : LoadStep α) (k : α → LoadStep β) (d : Definitions) :
    (x >>= k).outcome d = match x.outcome d with
      | (.ok a, d) => (k a).outcome d
      | (.error e, d) => (.error e, d) := by
  simp only [outcome, EStateM.run_bind]
  cases x.run d <;> rfl

theorem outcome_pure (a : α) (d : Definitions) : (pure a : LoadStep α).outcome d = (.ok a, d) := rfl

theorem outcome_known? (definer : Definer) (name : String) (d : Definitions) :
    (known? definer name).outcome d = (.ok (d.find? definer name), d) := rfl

theorem outcome_define (definer : Definer) (name : String) (content : LoadedClass)
    (d : Definitions) : (define definer name content).outcome d =
      (.ok ⟨d.count, content⟩, d.add definer name content) := rfl

/-- What needs no definitions leaves them. -/
theorem outcome_ofExcept (x : Except LoadError α) (d : Definitions) :
    (ofExcept x).outcome d = (x, d) := by
  cases x <;> rfl

/-- A step that does not look at the definitions of loaders, and leaves them as they are. -/
structure Foreign (x : LoadStep α) : Prop where
  same : ∀ d e, d.SameElsewhere e → (x.outcome e).1 = (x.outcome d).1 ∧
    (x.outcome d).2.SameElsewhere (x.outcome e).2
  keeps : ∀ d name, (x.outcome d).2.find? .isolated name = d.find? .isolated name

namespace Foreign

theorem pure (a : α) : Foreign (pure a : LoadStep α) where
  same _ _ h := ⟨rfl, h⟩
  keeps _ _ := rfl

theorem throw (e : LoadError) : Foreign (throw e : LoadStep α) where
  same _ _ h := ⟨rfl, h⟩
  keeps _ _ := rfl

theorem ofExcept (x : Except LoadError α) : Foreign (LoadStep.ofExcept x) where
  same d e h := by
    rw [outcome_ofExcept, outcome_ofExcept]
    exact ⟨rfl, h⟩
  keeps d name := by rw [outcome_ofExcept]

/-- Steps that do not see isolated classes can be put together. -/
theorem bind {x : LoadStep α} {k : α → LoadStep β} (h : Foreign x) (h' : ∀ a, Foreign (k a)) :
    Foreign (x >>= k) := by
  constructor
  · intro d e same
    obtain ⟨answer, after⟩ := h.same d e same
    rw [outcome_bind, outcome_bind]
    cases first : x.outcome d with
    | mk result d' =>
      cases first' : x.outcome e with
      | mk result' e' =>
        rw [first, first'] at answer after
        cases answer
        cases result with
        | ok a => exact (h' a).same d' e' after
        | error cause => exact ⟨rfl, after⟩
  · intro d name
    rw [outcome_bind, ← h.keeps d name]
    cases first : x.outcome d with
    | mk result d' =>
      cases result with
      | ok a => exact (h' a).keeps d' name
      | error cause => rfl

theorem known? {definer : Definer} (other : definer ≠ .isolated) (name : String) :
    Foreign (LoadStep.known? definer name) where
  same d e h := by
    rw [outcome_known?, outcome_known?, h.find definer name other]
    exact ⟨rfl, h⟩
  keeps _ _ := rfl

theorem define {definer : Definer} (other : definer ≠ .isolated) (name : String)
    (content : LoadedClass) : Foreign (LoadStep.define definer name content) where
  same d e h := by
    rw [outcome_define, outcome_define, h.count]
    exact ⟨rfl, h.add definer name content⟩
  keeps d name' := by
    rw [outcome_define]
    exact d.find?_add_of_ne other.symm name name' content

end Foreign

end LoadStep

/-- The platform does not see isolated classes. -/
theorem Platform.resolve_foreign (name : String) : (Platform.resolve name).Foreign := by
  refine (LoadStep.Foreign.known? (by decide) name).bind fun known => ?_
  split
  next => exact .pure _
  next =>
    split
    next => exact .define (by decide) name _
    next => exact .throw _

/-- A class path does not see isolated classes. -/
theorem ClassPath.resolve_foreign (path : ClassPath) (disk : Disk) (name : String) :
    (path.resolve disk name).Foreign := by
  refine (LoadStep.Foreign.known? (by decide) name).bind fun known => ?_
  split
  next => exact .pure _
  next =>
    split
    next => exact Platform.resolve_foreign name
    next =>
      refine (LoadStep.Foreign.ofExcept _).bind fun found => ?_
      split
      next => exact .define (by decide) name _
      next => exact Platform.resolve_foreign name

/-- No parent sees isolated classes. -/
theorem ParentLoader.resolve_foreign (parent : ParentLoader) (disk : Disk) (name : String) :
    (parent.resolve disk name).Foreign := by
  cases parent with
  | platform => exact Platform.resolve_foreign name
  | classPath path => exact path.resolve_foreign disk name

/-! ## Loading -/

/-- The definitions of the loader are in its slots, and the others with its parent. -/
structure LoaderState.Agrees (s : LoaderState (List ((Definer × String) × Definition)))
    (d : Definitions) : Prop where
  own : ∀ name, d.find? .isolated name = s.slots.definitionOf? name
  outside : Definitions.SameElsewhere ⟨s.outside.parent, s.outside.count⟩ d

/-- What a loader that has defined nothing starts with. -/
theorem LoaderState.agrees_start (d : Definitions) :
    LoaderState.Agrees { outside := ⟨d.count, d.withoutIsolated.known⟩ } d.withoutIsolated where
  own name := by
    refine List.lookup_eq_none_iff.mpr fun p mem => ?_
    have other := (List.mem_filter.mp mem).2
    simp only [ne_eq, decide_eq_true_eq] at other
    exact bne_iff_ne.mpr fun same => other (congrArg Prod.fst same).symm
  outside := ⟨rfl, fun _ _ _ => rfl⟩

namespace ClassLoader

variable {l : ClassLoader} {disk : Disk} {name : String} {bytes : Bytes} {d : Definitions}

/-- A name that is not in the table is the parent's. -/
theorem load_of_unowned (unowned : l.bytesOf? name = none) :
    l.load disk name = l.parent.resolve disk name := by
  simp only [load, unowned]

/-- A class that has been defined is given again. -/
theorem load_of_known (owned : l.bytesOf? name = some bytes) {definition : Definition}
    (known : d.find? .isolated name = some definition) :
    (l.load disk name).outcome d = (.ok definition, d) := by
  simp only [load, owned, LoadStep.outcome_bind, LoadStep.outcome_known?, known,
    LoadStep.outcome_pure]

/-- Bytes that define nothing are at fault each time. -/
theorem load_of_error (owned : l.bytesOf? name = some bytes)
    (unknown : d.find? .isolated name = none) {e : LoadError}
    (run : defineOwn name bytes = .error e) : (l.load disk name).outcome d = (.error e, d) := by
  simp only [load, owned, LoadStep.outcome_bind, LoadStep.outcome_known?, unknown, run,
    LoadStep.outcome_ofExcept]

/-- Bytes that define a class define it once. -/
theorem load_of_ok (owned : l.bytesOf? name = some bytes) (unknown : d.find? .isolated name = none)
    {content : LoadedClass} (run : defineOwn name bytes = .ok content) :
    (l.load disk name).outcome d =
      (.ok ⟨d.count, content⟩, d.add .isolated name content) := by
  simp only [load, owned, LoadStep.outcome_bind, LoadStep.outcome_known?, unknown, run,
    LoadStep.outcome_ofExcept, LoadStep.outcome_define]

end ClassLoader

namespace LoaderState

variable {l : ClassLoader} {disk : Disk} {s : LoaderState (List ((Definer × String) × Definition))}
  {d : Definitions}

/-- Asking the parent goes the same way for both loaders. -/
theorem Agrees.ask (agrees : s.Agrees d) (l : ClassLoader) (disk : Disk) (name : String) :
    (s.ask (l.parent.resolver disk) name).1 = ((l.parent.resolve disk name).outcome d).1 ∧
      (s.ask (l.parent.resolver disk) name).2.Agrees ((l.parent.resolve disk name).outcome d).2 := by
  have foreign := l.parent.resolve_foreign disk name
  obtain ⟨answer, after⟩ := foreign.same _ _ agrees.outside
  exact ⟨answer.symm, fun name' => (foreign.keeps d name').trans (agrees.own name'), after⟩

/-- Fetching a slot defines nothing. -/
theorem Agrees.fetch (agrees : s.Agrees d) (sound : s.Sound l) (name : String) :
    Agrees { s with slots := (s.slots.fetch name).2 } d where
  own name' := (agrees.own name').trans (Slots.definitionOf?_fetch sound.slots name name').symm
  outside := agrees.outside

/-- Filling a slot is defining a class. -/
theorem Agrees.define (agrees : s.Agrees d) (sound : s.Sound l) {slot : Nat} {name : String}
    (has : s.slots.index.lookup name = some slot) (content : LoadedClass) :
    (s.define slot name content).Agrees (d.add .isolated name content) where
  own name' := by
    rw [Definitions.find?_add, definitionOf?_define sound has, agrees.own, agrees.outside.count]
    simp only [true_and]
  outside := ⟨congrArg (· + 1) agrees.outside.count, fun definer name' other => by
    rw [Definitions.find?_add_of_ne d other]
    exact agrees.outside.find definer name' other⟩

/-- **A call whose steps come one right after the other** returns what `load` gives, and leaves the
definitions that `load` leaves. -/
theorem Agrees.load (agrees : s.Agrees d) (sound : s.Sound l) {name : String}
    {fetched last : LoadPhase} {s' s'' : LoaderState (List ((Definer × String) × Definition))}
    (first : s.Advances l (l.parent.resolver disk) ⟨name, .entered⟩ fetched s')
    (second : s'.Advances l (l.parent.resolver disk) ⟨name, fetched⟩ last s'') :
    last = .returned ((l.load disk name).outcome d).1 ∧
      s''.Agrees ((l.load disk name).outcome d).2 := by
  cases first with
  | asks unowned =>
    cases second
    rw [ClassLoader.load_of_unowned unowned]
    obtain ⟨answer, after⟩ := agrees.ask l disk name
    exact ⟨congrArg _ answer, after⟩
  | @fetches _ bytes owned =>
    have has := Slots.lookup_fetch s.slots name
    have held : d.find? .isolated name = (s.slots.fetch name).2.held? (s.slots.fetch name).1 := by
      rw [agrees.own, ← Slots.definitionOf?_fetch sound.slots, Slots.definitionOf?_eq has]
    have agrees := agrees.fetch sound name
    cases second with
    | finds found =>
      rw [ClassLoader.load_of_known owned (held.trans found)]
      exact ⟨rfl, agrees⟩
    | fails empty run =>
      rw [ClassLoader.load_of_error owned (held.trans empty) run]
      exact ⟨rfl, agrees⟩
    | defines empty run =>
      rw [ClassLoader.load_of_ok owned (held.trans empty) run, agrees.outside.count]
      exact ⟨rfl, agrees.define (sound.fetch name) has _⟩

end LoaderState

/-! ## One class after another -/

/-- The last caller takes a step on its own. -/
theorem LoaderRun.step_advance_last {σ : Type} (l : ClassLoader) (parent : Resolver σ)
    (state : LoaderState σ) (calls : List LoadCall) (c : LoadCall) :
    LoaderRun.step l parent ⟨state, calls ++ [c]⟩ (.advance calls.length) =
      ⟨(state.advance l parent c).2, calls ++ [⟨c.name, (state.advance l parent c).1⟩]⟩ := by
  simp only [step, List.getElem?_concat_length, List.set_append_right _ _ (Nat.le_refl _),
    Nat.sub_self, List.set_cons_zero]

namespace ClassLoader

variable {l : ClassLoader} {run : LoaderRun (List ((Definer × String) × Definition))}
  {d : Definitions}

/-- **Loading a class is a call with nothing in between.** -/
theorem load_eq_run (sound : run.Sound l) (agrees : run.state.Agrees d) (disk : Disk)
    (name : String) :
    ∃ state, run.after l (l.parent.resolver disk)
        [.call name, .advance run.calls.length, .advance run.calls.length] =
          ⟨state, run.calls ++ [⟨name, .returned ((l.load disk name).outcome d).1⟩]⟩ ∧
      state.Agrees ((l.load disk name).outcome d).2 := by
  let parent := l.parent.resolver disk
  let fetched := run.state.advance l parent ⟨name, .entered⟩
  have first := run.state.advances l parent ⟨name, .entered⟩
  have second := fetched.2.advances l parent ⟨name, fetched.1⟩
  obtain ⟨returned, after⟩ := agrees.load sound.state first second
  refine ⟨_, ?_, after⟩
  rw [LoaderRun.after, List.foldl_cons, List.foldl_cons, List.foldl_cons, List.foldl_nil,
    LoaderRun.step, LoaderRun.step_advance_last, LoaderRun.step_advance_last, ← returned]

/-- Load some classes one after another, whatever becomes of each. -/
def loadAll (l : ClassLoader) (disk : Disk) :
    List String → Definitions → List (Except LoadError Definition) × Definitions
  | [], d => ([], d)
  | name :: names, d =>
    let (result, d) := (l.load disk name).outcome d
    let (results, d) := loadAll l disk names d
    (result :: results, d)

/-- Calls in turn return what `load` gives, one by one. -/
theorem loadAll_eq_run (sound : run.Sound l) (agrees : run.state.Agrees d) (disk : Disk)
    (names : List String) :
    (run.after l (l.parent.resolver disk) (LoaderRun.inTurn run.calls.length names)).calls =
      run.calls ++ (names.zip (l.loadAll disk names d).1).map fun p => ⟨p.1, .returned p.2⟩ := by
  induction names generalizing run d with
  | nil => exact (List.append_nil _).symm
  | cons name names ih =>
    obtain ⟨state, one, after⟩ := load_eq_run sound agrees disk name
    have next := sound.after (l.parent.resolver disk)
      [.call name, .advance run.calls.length, .advance run.calls.length]
    rw [LoaderRun.inTurn, LoaderRun.after, List.foldl_append]
    rw [one] at next
    have rest := ih next after
    rw [LoaderRun.after] at one
    rw [List.length_append, List.length_singleton] at rest
    rw [one, ← LoaderRun.after, rest, List.append_assoc]
    rfl

/-- What callers can rely on when they load from a new loader one after another. -/
theorem loadAll_isolated (l : ClassLoader) (disk : Disk) (names : List String) (d : Definitions) :
    ∃ run : LoaderRun (List ((Definer × String) × Definition)),
      run.Isolated l (l.parent.resolver disk) ∧
        run.calls = (names.zip (l.loadAll disk names d.withoutIsolated).1).map fun p =>
          ⟨p.1, .returned p.2⟩ := by
  have sound := LoaderRun.sound_start (l := l) ⟨d.count, d.withoutIsolated.known⟩
  exact ⟨_, (sound.after (l.parent.resolver disk) (LoaderRun.inTurn 0 names)).isolated,
    loadAll_eq_run sound (LoaderState.agrees_start d) disk names⟩

end ClassLoader

end ProcessorBench
