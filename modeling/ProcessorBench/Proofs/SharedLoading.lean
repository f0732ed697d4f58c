import ProcessorBench.Loading.SharedLoader
import ProcessorBench.Proofs.Steps

/-!
# One definition for each name

Whatever the order in which the steps of its callers come, a loader defines each name of its table
at most once, and never asks the parent for it: `LoaderRun.isolated_after` says so of every run. It
rests on what holds of a loader between any two moves. Names have slots of their own, a slot is either
empty or holds what the table says, and a call that has fetched a slot has that of its name.
-/

namespace ProcessorBench

variable {σ : Type} {l : ClassLoader} {parent : Resolver σ}

/-! ## Defining a class of the table -/

/-- Bytes that define no class are malformed, and nothing else. -/
theorem LoadedClass.malformed_of_ofBytes {bytes : Bytes} {origin : ClassOrigin} {e : LoadError}
    (h : ofBytes bytes origin = .error e) : ∃ name source, e = .malformed name source := by
  simp only [ofBytes, bind_eq_error, mapError_eq_error] at h
  rcases h with ⟨source, _, rfl⟩ | ⟨_, _, ⟨source, _, rfl⟩ | ⟨_, _, source, _, rfl⟩⟩ <;>
    exact ⟨_, source, rfl⟩

/-- A class is from where its bytes are from. -/
theorem LoadedClass.origin_of_ofBytes {bytes : Bytes} {origin : ClassOrigin} {c : LoadedClass}
    (h : ofBytes bytes origin = .ok c) : c.origin = origin := by
  simp only [ofBytes, describe, bind_eq_ok, mapError_eq_ok] at h
  obtain ⟨_, _, _, _, _, _, _, _, _, _, same⟩ := h
  cases same
  rfl

/-- Bytes of the table define a class if they are well formed and have its name. -/
theorem ClassLoader.defineOwn_eq_ok {name : String} {bytes : Bytes} {c : LoadedClass} :
    defineOwn name bytes = .ok c ↔ LoadedClass.ofBytes bytes .isolated = .ok c ∧ c.name = name := by
  unfold defineOwn
  split
  next c' run =>
    rw [run]
    split
    next same =>
      simp only [Except.ok.injEq]
      exact ⟨fun h => ⟨h, h ▸ same⟩, And.left⟩
    next other =>
      simp only [Except.ok.injEq]
      exact ⟨nofun, fun ⟨h, same⟩ => absurd (h ▸ same) other⟩
  all_goals
    next run =>
      rw [run]
      exact ⟨nofun, fun h => nomatch h.1⟩

/-- Malformed bytes are reported under the name that they stand for. -/
theorem ClassLoader.defineOwn_of_malformed {name other : String} {bytes : Bytes}
    {source : ClassError}
    (h : LoadedClass.ofBytes bytes .isolated = .error (.malformed other source)) :
    defineOwn name bytes = .error (.malformed name source) := by
  rw [defineOwn, h]

/-- Bytes of another class are reported under the name that they stand for. -/
theorem ClassLoader.defineOwn_of_misnamed {name : String} {bytes : Bytes} {c : LoadedClass}
    (h : LoadedClass.ofBytes bytes .isolated = .ok c) (other : c.name ≠ name) :
    defineOwn name bytes = .error (.wrongName name c.name) := by
  rw [defineOwn, h]
  exact if_neg other

/-! ## Slots -/

/-- Every name has its own slot. -/
structure Slots.WellFormed (s : Slots) : Prop where
  inside : ∀ {name slot}, s.index.lookup name = some slot → slot < s.cells.length
  apart : ∀ {name name' slot}, s.index.lookup name = some slot → s.index.lookup name' = some slot →
    name' = name

namespace Slots

theorem wellFormed_empty : ({} : Slots).WellFormed := ⟨nofun, nofun⟩

/-- The definition of a name is what its slot holds. -/
theorem definitionOf?_eq {s : Slots} {name : String} {slot : Nat}
    (has : s.index.lookup name = some slot) : s.definitionOf? name = s.held? slot := by
  rw [definitionOf?, has, Option.bind_some]

/-- A slot that has been fetched is found under its name. -/
theorem lookup_fetch (s : Slots) (name : String) :
    (s.fetch name).2.index.lookup name = some (s.fetch name).1 := by
  unfold fetch
  split
  next slot has => exact has
  next => exact List.lookup_cons_self

/-- A slot that a name has is kept. -/
theorem lookup_fetch_of_some {s : Slots} {name name' : String} {slot : Nat}
    (has : s.index.lookup name' = some slot) :
    (s.fetch name).2.index.lookup name' = some slot := by
  unfold fetch
  split
  next => exact has
  next missing =>
    have other : name' ≠ name := by
      rintro rfl
      rw [missing] at has
      cases has
    rw [List.lookup_cons, beq_false_of_ne other]
    exact has

/-- A slot that is made holds nothing. -/
theorem definitionOf?_fetch {s : Slots} (wf : s.WellFormed) (name name' : String) :
    (s.fetch name).2.definitionOf? name' = s.definitionOf? name' := by
  unfold fetch
  split
  next => rfl
  next missing =>
    by_cases same : name' = name
    · subst same
      rw [definitionOf?_eq List.lookup_cons_self, definitionOf?, missing, held?]
      simp
    · simp only [definitionOf?, List.lookup_cons, beq_false_of_ne same]
      cases has : s.index.lookup name' with
      | none => rfl
      | some slot =>
        simp only [Option.bind_some, held?]
        rw [List.getElem?_append_left (wf.inside has)]

/-- Fetching a slot leaves them well formed. -/
theorem WellFormed.fetch {s : Slots} (wf : s.WellFormed) (name : String) :
    (s.fetch name).2.WellFormed := by
  unfold Slots.fetch
  split
  next => exact wf
  next missing =>
    -- The new slot is behind all others, and so nobody else's.
    have fresh {name' : String} : s.index.lookup name' ≠ some s.cells.length := fun has =>
      Nat.lt_irrefl _ (wf.inside has)
    constructor
    · intro name' slot has
      rw [List.length_append, List.length_singleton]
      rw [List.lookup_cons] at has
      split at has
      · cases has
        exact Nat.lt_succ_self _
      · exact Nat.lt_succ_of_lt (wf.inside has)
    · intro first second slot has has'
      rw [List.lookup_cons] at has has'
      split at has <;> split at has'
      next same _ same' => rw [beq_iff_eq.mp same, beq_iff_eq.mp same']
      next => cases has; exact absurd has' fresh
      next => cases has'; exact absurd has fresh
      next => exact wf.apart has has'

/-- Filling a slot leaves them well formed. -/
theorem WellFormed.fill {s : Slots} (wf : s.WellFormed) (slot : Nat) (definition : Definition) :
    (s.fill slot definition).WellFormed where
  inside has := by
    rw [Slots.fill, List.length_set]
    exact wf.inside has
  apart has has' := wf.apart has has'

/-- What is put in the slot of a name is the definition of that name, and of no other. -/
theorem definitionOf?_fill {s : Slots} (wf : s.WellFormed) {name : String} {slot : Nat}
    (has : s.index.lookup name = some slot) (definition : Definition) (name' : String) :
    (s.fill slot definition).definitionOf? name' =
      if name' = name then some definition else s.definitionOf? name' := by
  split
  next same =>
    subst same
    rw [definitionOf?_eq (s := s.fill slot definition) has, held?, Slots.fill,
      List.getElem?_set_self (wf.inside has)]
    rfl
  next other =>
    cases has' : s.index.lookup name' with
    | none => rw [definitionOf?, definitionOf?, Slots.fill, has', Option.bind_none, Option.bind_none]
    | some slot' =>
      have apart : slot ≠ slot' := by
        rintro rfl
        exact other (wf.apart has has')
      rw [definitionOf?_eq (s := s.fill slot definition) has', definitionOf?_eq has', held?, held?,
        Slots.fill, List.getElem?_set_ne apart]

end Slots

/-! ## What a step can do -/

/-- The steps of a call, each with its conditions. -/
inductive LoaderState.Advances (l : ClassLoader) (parent : Resolver σ) (s : LoaderState σ) :
    LoadCall → LoadPhase → LoaderState σ → Prop where
  | asks {name : String} (unowned : l.bytesOf? name = none) :
    Advances l parent s ⟨name, .entered⟩ (.returned (s.ask parent name).1) (s.ask parent name).2
  | fetches {name : String} {bytes : Bytes} (owned : l.bytesOf? name = some bytes) :
    Advances l parent s ⟨name, .entered⟩ (.fetched (s.slots.fetch name).1 bytes)
      { s with slots := (s.slots.fetch name).2 }
  | finds {name : String} {slot : Nat} {bytes : Bytes} {definition : Definition}
    (held : s.slots.held? slot = some definition) :
    Advances l parent s ⟨name, .fetched slot bytes⟩ (.returned (.ok definition)) s
  | fails {name : String} {slot : Nat} {bytes : Bytes} {e : LoadError}
    (empty : s.slots.held? slot = none) (run : ClassLoader.defineOwn name bytes = .error e) :
    Advances l parent s ⟨name, .fetched slot bytes⟩ (.returned (.error e)) s
  | defines {name : String} {slot : Nat} {bytes : Bytes} {content : LoadedClass}
    (empty : s.slots.held? slot = none) (run : ClassLoader.defineOwn name bytes = .ok content) :
    Advances l parent s ⟨name, .fetched slot bytes⟩ (.returned (.ok ⟨s.outside.count, content⟩))
      (s.define slot name content)
  | rests {name : String} {result : Except LoadError Definition} :
    Advances l parent s ⟨name, .returned result⟩ (.returned result) s

/-- **Each step of a call is one of those that calls take.** -/
theorem LoaderState.advances (l : ClassLoader) (parent : Resolver σ) (s : LoaderState σ)
    (c : LoadCall) :
    s.Advances l parent c (s.advance l parent c).1 (s.advance l parent c).2 := by
  obtain ⟨name, phase⟩ := c
  cases phase with
  | entered =>
    simp only [advance]
    split
    next unowned => exact .asks unowned
    next owned => exact .fetches owned
  | fetched slot bytes =>
    simp only [advance, definedIn]
    split
    next held => exact .finds held
    next empty =>
      split
      next run => exact .fails empty run
      next run => exact .defines empty run
  | returned result => exact .rests

/-! ## What always holds -/

/-- What a loader has defined is what its table says, under the name that the table says it for, and
once for each name. Its parent was never asked for such a name. -/
structure LoaderState.Sound (l : ClassLoader) (s : LoaderState σ) : Prop where
  slots : s.slots.WellFormed
  content : ∀ {name definition}, s.slots.definitionOf? name = some definition →
    ∃ bytes, l.bytesOf? name = some bytes ∧
      ClassLoader.defineOwn name bytes = .ok definition.content
  defined : ∀ {name definition}, (name, definition) ∈ s.defined ↔
    s.slots.definitionOf? name = some definition
  once : (s.defined.map (·.1)).Nodup
  asked : ∀ {name answer}, (name, answer) ∈ s.asked → l.bytesOf? name = none

/-- Names keep their slots and their definitions. -/
structure LoaderState.Grows (s s' : LoaderState σ) : Prop where
  slots : ∀ {name slot}, s.slots.index.lookup name = some slot →
    s'.slots.index.lookup name = some slot
  definitions : ∀ {name definition}, s.slots.definitionOf? name = some definition →
    s'.slots.definitionOf? name = some definition

/-- A call under way has the slot of its name. One that has returned, for a name of the table, has
the definition of that name or the error of its bytes. -/
def LoadCall.Sound (l : ClassLoader) (s : LoaderState σ) (c : LoadCall) : Prop :=
  match c.phase with
  | .entered => True
  | .fetched slot bytes => l.bytesOf? c.name = some bytes ∧
      s.slots.index.lookup c.name = some slot
  | .returned (.ok definition) => ∀ bytes, l.bytesOf? c.name = some bytes →
      s.slots.definitionOf? c.name = some definition
  | .returned (.error e) => ∀ bytes, l.bytesOf? c.name = some bytes →
      ClassLoader.defineOwn c.name bytes = .error e

/-- A state has everything that it has. -/
theorem LoaderState.Grows.refl (s : LoaderState σ) : s.Grows s := ⟨id, id⟩

/-- What a call knows stays true when the state grows. -/
theorem LoadCall.Sound.grows {s s' : LoaderState σ} {c : LoadCall} (h : c.Sound l s)
    (grows : s.Grows s') : c.Sound l s' := by
  obtain ⟨name, phase⟩ := c
  cases phase with
  | entered => trivial
  | fetched slot bytes => exact ⟨h.1, grows.slots h.2⟩
  | returned result =>
    cases result with
    | ok definition => exact fun bytes owned => grows.definitions (h bytes owned)
    | error e => exact h

namespace LoaderState

/-- At the start everything is in order. -/
theorem sound_start (outside : Outside σ) : ({ outside } : LoaderState σ).Sound l where
  slots := Slots.wellFormed_empty
  content := nofun
  defined := ⟨nofun, nofun⟩
  once := .nil
  asked := nofun

/-- Asking the parent leaves it in order. -/
theorem Sound.ask {s : LoaderState σ} (sound : s.Sound l) {name : String}
    (unowned : l.bytesOf? name = none) : (s.ask parent name).2.Sound l where
  slots := sound.slots
  content := sound.content
  defined := sound.defined
  once := sound.once
  asked mem := by
    rcases List.mem_cons.mp mem with same | mem
    · cases same
      exact unowned
    · exact sound.asked mem

/-- Fetching a slot leaves everything in order. -/
theorem Sound.fetch {s : LoaderState σ} (sound : s.Sound l) (name : String) :
    ({ s with slots := (s.slots.fetch name).2 } : LoaderState σ).Sound l where
  slots := sound.slots.fetch name
  content h := sound.content ((Slots.definitionOf?_fetch sound.slots _ _).symm.trans h)
  defined := sound.defined.trans (by rw [Slots.definitionOf?_fetch sound.slots])
  once := sound.once
  asked := sound.asked

section
variable {s : LoaderState σ} {slot : Nat} {name : String} {content : LoadedClass}

/-- Filling a slot changes the definition of its name only. -/
theorem definitionOf?_define (sound : s.Sound l) (has : s.slots.index.lookup name = some slot)
    (name' : String) : (s.define slot name content).slots.definitionOf? name' =
      if name' = name then some ⟨s.outside.count, content⟩ else s.slots.definitionOf? name' :=
  Slots.definitionOf?_fill sound.slots has _ name'

/-- A definition goes to a slot that holds none, so it is the first of its name. -/
theorem Sound.define (sound : s.Sound l) {bytes : Bytes} (owned : l.bytesOf? name = some bytes)
    (has : s.slots.index.lookup name = some slot) (empty : s.slots.held? slot = none)
    (run : ClassLoader.defineOwn name bytes = .ok content) :
    (s.define slot name content).Sound l := by
  have missing : s.slots.definitionOf? name = none := (Slots.definitionOf?_eq has).trans empty
  have first {definition : Definition} : (name, definition) ∉ s.defined := fun mem => by
    rw [sound.defined, missing] at mem
    cases mem
  refine ⟨sound.slots.fill _ _, ?_, ?_, ?_, sound.asked⟩
  · intro name' definition h
    rw [definitionOf?_define sound has] at h
    split at h
    next same =>
      cases h
      exact same ▸ ⟨bytes, owned, run⟩
    next => exact sound.content h
  · intro name' definition
    rw [definitionOf?_define sound has]
    refine List.mem_cons.trans ?_
    split
    next same =>
      subst same
      simp only [Prod.mk.injEq, true_and, first, or_false, Option.some.injEq, eq_comm]
    next other =>
      simp only [Prod.mk.injEq, other, false_and, false_or, sound.defined]
  · refine List.nodup_cons.mpr ⟨fun mem => ?_, sound.once⟩
    obtain ⟨⟨_, definition⟩, found, rfl⟩ := List.mem_map.mp mem
    exact first found

/-- Filling an empty slot takes nothing away. -/
theorem grows_define (sound : s.Sound l) (has : s.slots.index.lookup name = some slot)
    (empty : s.slots.held? slot = none) : s.Grows (s.define slot name content) where
  slots := id
  definitions {name' definition} h := by
    rw [definitionOf?_define sound has, if_neg, h]
    rintro rfl
    rw [Slots.definitionOf?_eq has, empty] at h
    cases h

end

/-- **One step of a call** keeps what holds of the loader and of the call. -/
theorem Sound.advance {s s' : LoaderState σ} {c : LoadCall} {phase : LoadPhase} (sound : s.Sound l)
    (call : c.Sound l s) (step : s.Advances l parent c phase s') :
    s'.Sound l ∧ s.Grows s' ∧ LoadCall.Sound l s' ⟨c.name, phase⟩ := by
  cases step with
  | @asks name unowned =>
    refine ⟨sound.ask unowned, ⟨id, id⟩, ?_⟩
    have never {P : Prop} (bytes : Bytes) (owned : l.bytesOf? name = some bytes) : P := by
      rw [unowned] at owned
      cases owned
    cases answer : (s.ask parent name).1 with
    | ok definition => exact fun bytes owned => never bytes owned
    | error e => exact fun bytes owned => never bytes owned
  | fetches owned =>
    exact ⟨sound.fetch _, ⟨Slots.lookup_fetch_of_some,
      fun h => (Slots.definitionOf?_fetch sound.slots _ _).trans h⟩, owned, Slots.lookup_fetch _ _⟩
  | finds held =>
    exact ⟨sound, .refl s, fun _ _ => (Slots.definitionOf?_eq call.2).trans held⟩
  | fails empty run =>
    refine ⟨sound, .refl s, fun bytes owned => ?_⟩
    cases call.1.symm.trans owned
    exact run
  | defines empty run =>
    refine ⟨sound.define call.1 call.2 empty run, grows_define sound call.2 empty, fun _ _ => ?_⟩
    exact (definitionOf?_define sound call.2 _).trans (if_pos rfl)
  | rests => exact ⟨sound, .refl s, call⟩

end LoaderState

/-! ## Whom the parent answered -/

/-- The name and the result of a call that has returned, if the name is not one of the table. -/
def LoadCall.answer? (l : ClassLoader) (c : LoadCall) :
    Option (String × Except LoadError Definition) :=
  match c.phase with
  | .returned result => if l.owns c.name then none else some (c.name, result)
  | _ => none

/-- The parent is not asked for names in the table. -/
theorem LoadCall.answer?_of_owned {name : String} {bytes : Bytes}
    (owned : l.bytesOf? name = some bytes) (phase : LoadPhase) :
    (⟨name, phase⟩ : LoadCall).answer? l = none := by
  unfold answer?
  split
  · rw [ClassLoader.owns, owned]
    rfl
  · rfl

/-- For other names its answer is the result. -/
theorem LoadCall.answer?_of_unowned {name : String} (unowned : l.bytesOf? name = none)
    (result : Except LoadError Definition) :
    (⟨name, .returned result⟩ : LoadCall).answer? l = some (name, result) := by
  rw [answer?, ClassLoader.owns, unowned]
  rfl

/-- The parent is asked by the calls that its answers go to. -/
theorem LoaderState.Advances.asked_perm {s s' : LoaderState σ} {c : LoadCall} {phase : LoadPhase}
    (step : s.Advances l parent c phase s') (call : c.Sound l s) :
    (s'.asked ++ (c.answer? l).toList).Perm
      ((LoadCall.answer? l ⟨c.name, phase⟩).toList ++ s.asked) := by
  cases step with
  | asks unowned =>
    rw [LoadCall.answer?_of_unowned unowned]
    exact .of_eq (List.append_nil _)
  | fetches owned => exact .of_eq (List.append_nil _)
  | finds | fails | defines =>
    rw [LoadCall.answer?_of_owned call.1, LoadCall.answer?_of_owned call.1]
    exact .of_eq (List.append_nil _)
  | rests => exact List.perm_append_comm

theorem filterMap_cons_toList {α β : Type} (f : α → Option β) (a : α) (as : List α) :
    (a :: as).filterMap f = (f a).toList ++ as.filterMap f := by
  cases h : f a <;> simp [h]

theorem filterMap_set_perm {α β : Type} (f : α → Option β) {as : List α} {i : Nat} {a : α}
    (at_i : as[i]? = some a) (b : α) :
    ((as.set i b).filterMap f ++ (f a).toList).Perm ((f b).toList ++ as.filterMap f) := by
  induction as generalizing i with
  | nil => cases at_i
  | cons x as ih =>
    cases i with
    | zero =>
      cases at_i
      rw [List.set_cons_zero, filterMap_cons_toList, filterMap_cons_toList, List.append_assoc]
      exact List.perm_append_comm.append_left _
    | succ i =>
      rw [List.set_cons_succ, filterMap_cons_toList, filterMap_cons_toList, List.append_assoc]
      exact ((ih at_i).append_left _).trans (List.perm_append_comm_assoc _ _ _)

/-! ## Runs -/

namespace LoaderRun

/-- What holds between any two moves. -/
structure Sound (l : ClassLoader) (run : LoaderRun σ) : Prop where
  state : run.state.Sound l
  calls : ∀ c ∈ run.calls, c.Sound l run.state
  answers : run.state.asked.Perm (run.calls.filterMap (·.answer? l))

/-- At the start of a run everything is in order. -/
theorem sound_start (outside : Outside σ) : (start outside).Sound l where
  state := LoaderState.sound_start outside
  calls := nofun
  answers := .nil

/-- **One move** keeps what holds between moves. -/
theorem Sound.step {run : LoaderRun σ} (sound : run.Sound l) (move : LoaderMove) :
    (run.step l parent move).Sound l := by
  cases move with
  | call name =>
    refine ⟨sound.state, fun c mem => ?_, ?_⟩
    · rcases List.mem_append.mp mem with mem | mem
      · exact sound.calls c mem
      · cases List.mem_singleton.mp mem
        trivial
    · simpa [LoaderRun.step, LoadCall.answer?] using sound.answers
  | advance caller =>
    simp only [LoaderRun.step]
    split
    next => exact sound
    next c here =>
      have call := sound.calls c (List.mem_of_getElem? here)
      have step := run.state.advances l parent c
      obtain ⟨state, grows, moved⟩ := sound.state.advance call step
      refine ⟨state, fun c' mem => ?_, ?_⟩
      · rcases List.mem_or_eq_of_mem_set mem with mem | rfl
        · exact (sound.calls c' mem).grows grows
        · exact moved
      · refine (List.perm_append_right_iff (c.answer? l).toList).mp ?_
        have answers := sound.answers.append_left
          ((LoadCall.answer? l ⟨c.name, (run.state.advance l parent c).1⟩).toList)
        exact ((step.asked_perm call).trans answers).trans (filterMap_set_perm _ here _).symm

/-- Everything stays in order after any moves. -/
theorem Sound.after {run : LoaderRun σ} (sound : run.Sound l) (parent : Resolver σ)
    (moves : List LoaderMove) : (run.after l parent moves).Sound l := by
  induction moves generalizing run with
  | nil => exact sound
  | cons move moves ih => exact ih (sound.step move)

/-! ## Calls return -/

end LoaderRun

/-- How many steps a call has left at most. -/
def LoadPhase.stepsLeft : LoadPhase → Nat
  | .entered => 2
  | .fetched .. => 1
  | .returned _ => 0

/-- No steps are left once a call has returned. -/
theorem LoadPhase.stepsLeft_eq_zero {phase : LoadPhase} :
    phase.stepsLeft = 0 ↔ ∃ result, phase = .returned result := by
  cases phase <;> simp [stepsLeft]

/-- No call takes more than two steps. -/
theorem LoadPhase.stepsLeft_le_two (phase : LoadPhase) : phase.stepsLeft ≤ 2 := by
  cases phase <;> simp [stepsLeft]

/-- Each step leaves one step less. -/
theorem LoaderState.Advances.stepsLeft_le {s s' : LoaderState σ} {c : LoadCall} {phase : LoadPhase}
    (step : s.Advances l parent c phase s') : phase.stepsLeft ≤ c.phase.stepsLeft - 1 := by
  cases step <;> simp [LoadPhase.stepsLeft]

namespace LoaderRun

/-- A call comes closer to its end when it takes a step, and no move of others takes it back. -/
theorem stepsLeft_step (l : ClassLoader) (parent : Resolver σ) {run : LoaderRun σ} {caller : Nat}
    {c : LoadCall} (here : run.calls[caller]? = some c) (move : LoaderMove) :
    ∃ phase, (run.step l parent move).calls[caller]? = some ⟨c.name, phase⟩ ∧
      phase.stepsLeft ≤ c.phase.stepsLeft - [move].count (.advance caller) := by
  have inside := (List.getElem?_eq_some_iff.mp here).1
  cases move with
  | call name =>
    exact ⟨c.phase, (List.getElem?_append_left inside).trans here, Nat.le_refl _⟩
  | advance other =>
    by_cases same : other = caller
    · subst same
      refine ⟨(run.state.advance l parent c).1, ?_, ?_⟩
      · rw [step, here]
        exact List.getElem?_set_self inside
      · rw [List.count_singleton_self]
        exact (run.state.advances l parent c).stepsLeft_le
    · have none : [LoaderMove.advance other].count (.advance caller) = 0 := by simp [same]
      refine ⟨c.phase, ?_, Nat.le_of_eq (by rw [none, Nat.sub_zero])⟩
      rw [step]
      split
      next => exact here
      next => exact (List.getElem?_set_ne same).trans here

/-- After as many moves of its caller a call has that many steps less. -/
theorem stepsLeft_after (l : ClassLoader) (parent : Resolver σ) {run : LoaderRun σ} {caller : Nat}
    {c : LoadCall} (here : run.calls[caller]? = some c) (moves : List LoaderMove) :
    ∃ phase, (run.after l parent moves).calls[caller]? = some ⟨c.name, phase⟩ ∧
      phase.stepsLeft ≤ c.phase.stepsLeft - moves.count (.advance caller) := by
  induction moves generalizing run c with
  | nil => exact ⟨c.phase, here, Nat.le_refl _⟩
  | cons move moves ih =>
    obtain ⟨phase, there, less⟩ := stepsLeft_step l parent here move
    obtain ⟨last, stays, left⟩ := ih there
    refine ⟨last, stays, Nat.le_trans left ?_⟩
    rw [List.count_cons, ← List.count_singleton]
    simp only at less ⊢
    omega

/-! ## One definition for each name -/

/-- Every call for the name that has returned has failed in the same way, and there is no definition
of it. -/
structure Fails (run : LoaderRun σ) (name : String) (e : LoadError) : Prop where
  result : ∀ result, run.Returned name result → result = .error e
  empty : run.state.slots.definitionOf? name = none
  undefined : ∀ definition, (name, definition) ∉ run.state.defined

/-- What the callers of a loader can rely on. -/
structure Isolated (l : ClassLoader) (parent : Resolver σ) (run : LoaderRun σ) : Prop where
  /-- All calls for one name of the table that succeed return the same definition, which is the one
  that the loader made for this name. -/
  same : ∀ name, l.owns name →
    ∀ d d', run.Returned name (.ok d) → run.Returned name (.ok d') → d' = d
  made : ∀ name, l.owns name → ∀ d, run.Returned name (.ok d) → (name, d) ∈ run.state.defined
  once : (run.state.defined.map (·.1)).Nodup
  /-- The definition is that of the bytes in the table, and bears the name that was asked for. -/
  content : ∀ name bytes, l.bytesOf? name = some bytes → ∀ d, run.Returned name (.ok d) →
    LoadedClass.ofBytes bytes .isolated = .ok d.content ∧ d.content.name = name ∧
      d.content.origin = .isolated
  /-- If they are the bytes of that class, no call fails. -/
  succeeds : ∀ name bytes c, l.bytesOf? name = some bytes →
    LoadedClass.ofBytes bytes .isolated = .ok c → c.name = name →
      ∀ result, run.Returned name result → ∃ serial, result = .ok ⟨serial, c⟩
  /-- Bytes that are malformed, or those of another class, make every call fail, all with the same
  error. -/
  malformed : ∀ name bytes e, l.bytesOf? name = some bytes →
    LoadedClass.ofBytes bytes .isolated = .error e →
      ∃ other source, e = .malformed other source ∧ run.Fails name (.malformed name source)
  misnamed : ∀ name bytes c, l.bytesOf? name = some bytes →
    LoadedClass.ofBytes bytes .isolated = .ok c → c.name ≠ name →
      run.Fails name (.wrongName name c.name)
  /-- The parent was never asked for a name of the table. -/
  shadowed : ∀ name answer, (name, answer) ∈ run.state.asked → ¬ l.owns name
  /-- It was asked once for each call for another name, and that call returned its answer. -/
  answered : run.state.asked.Perm (run.calls.filterMap (·.answer? l))
  /-- The only step of such a call is what the parent does. The slots stay as they are. -/
  delegated : ∀ caller name, run.calls[caller]? = some ⟨name, .entered⟩ → ¬ l.owns name →
    run.step l parent (.advance caller) =
      let (answer, outside) := (parent name).run run.state.outside
      { state := { run.state with outside, asked := (name, answer) :: run.state.asked }
        calls := run.calls.set caller ⟨name, .returned answer⟩ }
  /-- A call returns when it has taken two steps, whatever happens between them. -/
  returns : ∀ caller c, run.calls[caller]? = some c → ∀ moves,
    2 ≤ moves.count (.advance caller) →
      ∃ result, (run.after l parent moves).calls[caller]? = some ⟨c.name, .returned result⟩

/-- What has been returned for a name in the table is what its slot holds. -/
theorem Sound.definitionOf? {run : LoaderRun σ} (sound : run.Sound l) {name : String} {bytes : Bytes}
    (owned : l.bytesOf? name = some bytes) {d : Definition} (returned : run.Returned name (.ok d)) :
    run.state.slots.definitionOf? name = some d :=
  sound.calls _ returned bytes owned

/-- Bytes that define nothing under a name. -/
theorem Sound.fails {run : LoaderRun σ} (sound : run.Sound l) {name : String} {bytes : Bytes}
    {e : LoadError} (owned : l.bytesOf? name = some bytes)
    (error : ClassLoader.defineOwn name bytes = .error e) : run.Fails name e := by
  have empty : run.state.slots.definitionOf? name = none := by
    cases held : run.state.slots.definitionOf? name with
    | none => rfl
    | some d =>
      obtain ⟨bytes', owned', ok⟩ := sound.state.content held
      cases owned.symm.trans owned'
      rw [error] at ok
      cases ok
  refine ⟨fun result returned => ?_, empty, fun d mem => ?_⟩
  · cases result with
    | ok d =>
      rw [sound.definitionOf? owned returned] at empty
      cases empty
    | error e' =>
      cases error.symm.trans (sound.calls _ returned bytes owned)
      rfl
  · rw [sound.state.defined, empty] at mem
    cases mem

/-- What holds between moves is what the callers rely on. -/
theorem Sound.isolated {run : LoaderRun σ} (sound : run.Sound l) : run.Isolated l parent where
  same name owned d d' returned returned' := by
    obtain ⟨bytes, owned⟩ := Option.isSome_iff_exists.mp owned
    cases (sound.definitionOf? owned returned).symm.trans (sound.definitionOf? owned returned')
    rfl
  made name owned d returned := by
    obtain ⟨bytes, owned⟩ := Option.isSome_iff_exists.mp owned
    exact sound.state.defined.mpr (sound.definitionOf? owned returned)
  once := sound.state.once
  content name bytes owned d returned := by
    obtain ⟨bytes', owned', defines⟩ := sound.state.content (sound.definitionOf? owned returned)
    cases owned.symm.trans owned'
    obtain ⟨ok, named⟩ := ClassLoader.defineOwn_eq_ok.mp defines
    exact ⟨ok, named, LoadedClass.origin_of_ofBytes ok⟩
  succeeds name bytes c owned ok named result returned := by
    have defines := ClassLoader.defineOwn_eq_ok.mpr ⟨ok, named⟩
    cases result with
    | error e => cases defines.symm.trans (sound.calls _ returned bytes owned)
    | ok d =>
      obtain ⟨bytes', owned', defines'⟩ := sound.state.content (sound.definitionOf? owned returned)
      cases owned.symm.trans owned'
      cases defines.symm.trans defines'
      exact ⟨d.serial, rfl⟩
  malformed name bytes e owned error := by
    obtain ⟨other, source, rfl⟩ := LoadedClass.malformed_of_ofBytes error
    exact ⟨other, source, rfl, sound.fails owned (ClassLoader.defineOwn_of_malformed error)⟩
  misnamed name bytes c owned ok other :=
    sound.fails owned (ClassLoader.defineOwn_of_misnamed ok other)
  shadowed name answer mem owned := by
    obtain ⟨bytes, owned⟩ := Option.isSome_iff_exists.mp owned
    cases owned.symm.trans (sound.state.asked mem)
  answered := sound.answers
  delegated caller name here unowned := by
    have missing : l.bytesOf? name = none := by simpa [ClassLoader.owns] using unowned
    simp only [LoaderRun.step, here, LoaderState.advance, missing]
    rfl
  returns caller c here moves twice := by
    obtain ⟨phase, there, left⟩ := stepsLeft_after l parent here moves
    have most := c.phase.stepsLeft_le_two
    obtain ⟨result, rfl⟩ := LoadPhase.stepsLeft_eq_zero.mp (by omega : phase.stepsLeft = 0)
    exact ⟨result, there⟩

/-- **A loader defines each name of its table at most once, and never lets the parent in**, whatever
is in the table, whoever is the parent, and in whatever order the steps of whatever calls come. -/
theorem isolated_after (l : ClassLoader) (parent : Resolver σ) (outside : Outside σ)
    (moves : List LoaderMove) : ((start outside).after l parent moves).Isolated l parent :=
  ((sound_start outside).after parent moves).isolated

/-- Two calls for `A` fetch its slot before either looks into it; the second one defines the class.
The bytes are no good for `B`. -/
example :
    let bytes : Bytes := [0xCA, 0xFE, 0xBA, 0xBE, 0, 0, 0, 52, 0, 3, 7, 0, 2, 1, 0, 1, 65, 0, 0x21,
      0, 1, 0, 0, 0, 0, 0, 0, 0, 0, 0, 0]
    let run := (LoaderRun.start ⟨7, ()⟩).after ⟨[("A", bytes), ("B", bytes)], .platform⟩
      (fun name => pure (.error (.notFound name)))
      [.call "A", .call "A", .call "B", .advance 0, .advance 1, .advance 2, .advance 1, .advance 0,
        .advance 2]
    run.calls.map (fun c => match c.phase with
      | .returned result => some (result.map (·.serial))
      | _ => none) = [some (.ok 7), some (.ok 7), some (.error (.wrongName "B" "A"))] := by
  decide +kernel

end LoaderRun

end ProcessorBench
