import ProcessorBench.Proofs.SequentialLoading
import ProcessorBench.Suite.Discovery

/-!
# Loading without a memory

As long as the disk does not change, the definitions that are kept say what would be found anyway
(`ClassLoader.Sound`). So the content of a class does not depend on what has been loaded before
(`ClassLoader.load_stateless`), nor does what a unit declares (`Discovery.inspect_stateless`): what is kept saves
work, and nothing else.
-/

namespace ProcessorBench

/-! ## Steps whose state makes no difference -/

section
variable {ε σ α β γ δ : Type} {I : σ → Prop} {view : α → β} {view' : γ → δ} {r : Except ε β}

/-- What can be seen of the result of a step is the same in each state, and an invariant is kept. -/
def Gives (I : σ → Prop) (view : α → β) (x : EStateM ε σ α) (r : Except ε β) : Prop :=
  ∀ s, I s → match x s with
    | .ok a s => r = .ok (view a) ∧ I s
    | .error e s => r = .error e ∧ I s

/-- The state makes no difference to a step. -/
def Stateless (I : σ → Prop) (view : α → β) (x : EStateM ε σ α) : Prop := ∃ r, Gives I view x r

theorem Gives.pure (a : α) : Gives I view (pure a : EStateM ε σ α) (.ok (view a)) := fun _ holds => ⟨rfl, holds⟩

theorem Gives.throw (e : ε) : Gives I view (throw e : EStateM ε σ α) (.error e) := fun _ holds => ⟨rfl, holds⟩

theorem Stateless.pure (a : α) : Stateless I view (Pure.pure a : EStateM ε σ α) := ⟨_, .pure a⟩

theorem Stateless.throw (e : ε) : Stateless I view (MonadExcept.throw e : EStateM ε σ α) := ⟨_, .throw e⟩

/-- Going on with what can be seen of a result. -/
theorem Gives.bind {x : EStateM ε σ α} {k : α → EStateM ε σ γ} {f : β → Except ε δ} (first : Gives I view x r)
    (rest : ∀ a, Gives I view' (k a) (f (view a))) : Gives I view' (x >>= k) (r >>= f) := by
  intro s holds
  have here := first s holds
  show match EStateM.bind x k s with | .ok .. => _ | .error .. => _
  unfold EStateM.bind
  cases stepped : x s with
  | ok a s' =>
    rw [stepped] at here
    obtain ⟨rfl, holds'⟩ := here
    exact rest a s' holds'
  | error e s' =>
    rw [stepped] at here
    obtain ⟨rfl, holds'⟩ := here
    exact ⟨rfl, holds'⟩

/-- Steps whose state makes no difference can be put together. -/
theorem Stateless.bind {x : EStateM ε σ α} {k : α → EStateM ε σ γ} (first : Stateless I view x)
    (rest : ∀ b, ∃ r, ∀ a, view a = b → Gives I view' (k a) r) : Stateless I view' (x >>= k) := by
  obtain ⟨r, gives⟩ := first
  choose f next using rest
  exact ⟨r >>= f, gives.bind fun a => next _ a rfl⟩

/-- Going on with a result all of which can be seen. -/
theorem Stateless.seq {x : EStateM ε σ α} {k : α → EStateM ε σ γ} (first : Stateless I id x)
    (rest : ∀ a, Stateless I view' (k a)) : Stateless I view' (x >>= k) := by
  refine first.bind fun a => ?_
  obtain ⟨r, gives⟩ := rest a
  refine ⟨r, ?_⟩
  rintro _ rfl
  exact gives

end

/-! ## Loading -/

/-- What a step gives is what comes of it in any state in which the invariant holds. -/
theorem Gives.outcome {α β : Type} {I : Definitions → Prop} {view : α → β} {x : LoadStep α}
    {r : Except LoadError β} {d : Definitions} (gives : Gives I view x r) (holds : I d) :
    (x.outcome d).1.map view = r ∧ I (x.outcome d).2 := by
  have here := gives d holds
  unfold LoadStep.outcome EStateM.run
  cases stepped : x d with
  | ok a d' =>
    rw [stepped] at here
    exact ⟨here.1.symm, here.2⟩
  | error e d' =>
    rw [stepped] at here
    exact ⟨here.1.symm, here.2⟩

/-- Without isolated classes all others are still known. -/
theorem Definitions.find?_withoutIsolated (d : Definitions) (definer : Definer) (name : String) :
    d.withoutIsolated.find? definer name =
      if definer = .isolated then none else d.find? definer name := by
  obtain ⟨known, count⟩ := d
  show (known.filter _).lookup _ = if _ then none else known.lookup _
  induction known with
  | nil => split <;> rfl
  | cons entry known ih =>
    obtain ⟨⟨definer', name'⟩, definition⟩ := entry
    by_cases own : definer' = .isolated
    · rw [List.filter_cons_of_neg (by simp [own]), ih, List.lookup_cons]
      split
      · rfl
      next other =>
        have apart : ((definer, name) == (definer', name')) = false :=
          beq_false_of_ne fun same => other ((Prod.mk.inj same).1.trans own)
        rw [apart]
    · rw [List.filter_cons_of_pos (by simp [own]), List.lookup_cons, List.lookup_cons, ih]
      cases same : (definer, name) == (definer', name') with
      | false => rfl
      | true =>
        obtain rfl := (Prod.mk.inj (beq_iff_eq.mp same)).1
        exact (if_neg own).symm

namespace ClassLoader

variable {l : ClassLoader} {disk : Disk} {definer : Definer} {name : String} {content : LoadedClass}

/-- What a definer makes of a name, if that can be defined. -/
def contentBy (l : ClassLoader) (disk : Disk) : Definer → String → Option LoadedClass
  | .isolated, name => (l.bytesOf? name).bind fun bytes => (defineOwn name bytes).toOption
  | .classPath, name =>
    match l.parent with
    | .platform => none
    | .classPath path =>
      if ClassPath.isReserved name then none else (path.find? disk name).toOption.join
  | .platform, name => Platform.find? name

/-- All that is kept is what would be defined anyway. -/
def Sound (l : ClassLoader) (disk : Disk) (d : Definitions) : Prop :=
  ∀ definer name definition, d.find? definer name = some definition →
    l.contentBy disk definer name = some definition.content

/-- Nothing defined is sound. -/
theorem sound_empty (l : ClassLoader) (disk : Disk) : l.Sound disk {} := nofun

/-- What the classes of one loader have needed of its parent is sound for another loader with that parent. -/
theorem Sound.withoutIsolated {l' : ClassLoader} {d : Definitions} (sound : l.Sound disk d)
    (same : l'.parent = l.parent) : l'.Sound disk d.withoutIsolated := by
  intro definer name definition has
  rw [Definitions.find?_withoutIsolated] at has
  split at has
  · cases has
  next other =>
    rw [← sound definer name definition has]
    cases definer with
    | isolated => exact absurd rfl other
    | classPath =>
      unfold contentBy
      rw [same]
    | platform => rfl

/-- A new definition of what a definer makes of a name. -/
theorem define_gives (defined : l.contentBy disk definer name = some content) :
    Gives (l.Sound disk) Definition.content (LoadStep.define definer name content) (.ok content) := by
  intro d sound
  refine ⟨rfl, ?_⟩
  intro other name' definition has
  rw [Definitions.find?_add] at has
  split at has
  next same =>
    obtain ⟨rfl, rfl⟩ := same
    cases has
    exact defined
  next => exact sound other name' definition has

/-- Going on with the definition that is known, or making one. -/
theorem known_gives {make : LoadStep Definition} {r : Except LoadError LoadedClass}
    (gives : Gives (l.Sound disk) Definition.content make r)
    (defined : ∀ content, l.contentBy disk definer name = some content → r = .ok content) :
    Gives (l.Sound disk) Definition.content (do
      match ← LoadStep.known? definer name with
      | some definition => return definition
      | none => make) r := by
  intro d sound
  have next : (do
        match ← LoadStep.known? definer name with
        | some definition => return definition
        | none => make : LoadStep Definition) d =
      (match d.find? definer name with
        | some definition => pure definition
        | none => make : LoadStep Definition) d := rfl
  rw [next]
  cases has : d.find? definer name with
  | none => exact gives d sound
  | some definition => exact ⟨defined _ (sound definer name definition has), sound⟩

/-- The platform gives what it has, whatever has been defined. -/
theorem platform_gives (l : ClassLoader) (disk : Disk) (name : String) :
    Gives (l.Sound disk) Definition.content (Platform.resolve name)
      ((Platform.find? name).elim (.error (.notFound name)) .ok) := by
  apply known_gives
  · cases found : Platform.find? name with
    | none => exact .throw _
    | some content => exact define_gives found
  · intro content found
    have found : Platform.find? name = some content := found
    rw [found]
    rfl

/-- What has been defined makes no difference to a class path. -/
theorem classPath_stateless {path : ClassPath} (parent : l.parent = .classPath path) (disk : Disk)
    (name : String) : Stateless (l.Sound disk) Definition.content (path.resolve disk name) := by
  have made : l.contentBy disk .classPath name =
      if ClassPath.isReserved name then none else (path.find? disk name).toOption.join := by
    unfold contentBy
    rw [parent]
  have platform := platform_gives l disk name
  unfold ClassPath.resolve
  cases reserved : ClassPath.isReserved name with
  | true =>
    rw [reserved, if_pos rfl] at made
    refine ⟨_, known_gives platform fun content defined => ?_⟩
    rw [made] at defined
    cases defined
  | false =>
    rw [reserved, if_neg Bool.false_ne_true] at made
    cases found : path.find? disk name with
    | error e =>
      refine ⟨.error e, known_gives (.throw e) fun content defined => ?_⟩
      rw [made, found] at defined
      cases defined
    | ok content? =>
      rw [found] at made
      cases content? with
      | none =>
        refine ⟨_, known_gives platform fun content defined => ?_⟩
        rw [made] at defined
        cases defined
      | some content =>
        refine ⟨.ok content, known_gives (define_gives made) fun content' defined => ?_⟩
        rw [made] at defined
        cases defined
        rfl

/-- What has been defined makes no difference to a parent. -/
theorem resolve_stateless (l : ClassLoader) (disk : Disk) (name : String) :
    Stateless (l.Sound disk) Definition.content (l.parent.resolve disk name) := by
  cases parent : l.parent with
  | platform => exact ⟨_, platform_gives l disk name⟩
  | classPath path => exact classPath_stateless parent disk name

/-- **The content of a class** does not depend on what has been loaded before. -/
theorem load_stateless (l : ClassLoader) (disk : Disk) (name : String) :
    Stateless (l.Sound disk) Definition.content (l.load disk name) := by
  unfold load
  cases owned : l.bytesOf? name with
  | none => exact l.resolve_stateless disk name
  | some bytes =>
    have made : l.contentBy disk .isolated name = (defineOwn name bytes).toOption := by
      show (l.bytesOf? name).bind _ = _
      rw [owned, Option.bind_some]
    simp only
    cases defined : defineOwn name bytes with
    | error e =>
      refine ⟨.error e, known_gives (.throw e) fun content known => ?_⟩
      rw [made, defined] at known
      cases known
    | ok content =>
      rw [defined] at made
      refine ⟨.ok content, known_gives (define_gives made) fun content' known => ?_⟩
      rw [made] at known
      cases known
      rfl

/-- What a loader says of a class when nothing has been loaded before. -/
def ask (l : ClassLoader) (disk : Disk) (name : String) : Except LoadError LoadedClass :=
  ((l.load disk name).outcome {}).1.map (·.content)

/-- The content of a class, as far as a walk through supertypes looks at it. -/
theorem content_gives (l : ClassLoader) (disk : Disk) (name : String) :
    Gives (l.Sound disk) id (do return (← l.load disk name).content) (l.ask disk name) := by
  obtain ⟨r, gives⟩ := l.load_stateless disk name
  have content : Gives (l.Sound disk) id (do return (← l.load disk name).content) (r >>= pure) :=
    gives.bind fun definition => .pure definition.content
  rw [ask, (gives.outcome (l.sound_empty disk)).1]
  rwa [bind_pure] at content

/-- A walk through supertypes finds what it would find if nothing had been loaded before. -/
theorem walk_gives (l : ClassLoader) (disk : Disk) (fuel : Nat) (progress : Supertypes.Progress) :
    Gives (l.Sound disk) id
      (Supertypes.walk (m := LoadStep) (fun name => do return (← l.load disk name).content) fuel progress)
      (Supertypes.walk (l.ask disk) fuel progress) := by
  induction fuel generalizing progress with
  | zero => exact .pure _
  | succ fuel ih =>
    unfold Supertypes.walk
    split
    · exact .pure _
    · split
      · exact ih _
      · exact (l.content_gives disk _).bind fun c => ih _

/-- What has been defined makes no difference to what a class implements. -/
theorem implements_stateless (l : ClassLoader) (disk : Disk) (c : LoadedClass) (interface : String) :
    Stateless (l.Sound disk) id (l.implements disk c interface) :=
  .seq ⟨_, l.walk_gives disk _ _⟩ fun _ => .pure _

end ClassLoader

namespace Discovery

variable {α β : Type} {I : Definitions → Prop} {view : α → β}

/-- Loading for a unit depends on the state no more than loading does. -/
theorem loading_stateless (unit : String) {step : LoadStep α} (stateless : Stateless I view step) :
    Stateless I view (loading unit step) := by
  obtain ⟨r, gives⟩ := stateless
  refine ⟨r.mapError (.load unit), fun d sound => ?_⟩
  have here := gives d sound
  unfold loading
  cases stepped : step d with
  | ok a d' =>
    rw [stepped] at here
    rw [here.1]
    exact ⟨rfl, here.2⟩
  | error e d' =>
    rw [stepped] at here
    rw [here.1]
    exact ⟨rfl, here.2⟩

/-- Whether a test is declared does not depend on what has been defined. -/
theorem declared_stateless (disk : Disk) (l : ClassLoader) (unit : String) (content : LoadedClass) :
    Stateless (l.Sound disk) id (declared disk l unit content) := by
  refine (loading_stateless unit (l.implements_stateless disk content _)).seq fun isProcessor => ?_
  cases isProcessor with
  | false => exact .pure none
  | true =>
    simp only [Bool.not_true, Bool.false_eq_true, if_false]
    split
    · exact .pure none
    · split
      · exact .throw _
      next declaration _ =>
        refine (loading_stateless unit (l.load_stateless disk declaration.marker)).bind fun marker => ?_
        cases marked : marker.isAnnotationType with
        | true =>
          refine ⟨.ok (some declaration), ?_⟩
          rintro definition rfl
          rw [marked]
          exact .pure _
        | false =>
          refine ⟨.error (.unsupported unit .markerIsOrdinaryType), ?_⟩
          rintro definition rfl
          rw [marked]
          exact .throw _

/-- **What a unit declares** does not depend on what has been loaded before. -/
theorem inspect_stateless (disk : Disk) (l : ClassLoader) (unit : String) :
    Stateless (l.Sound disk) id (inspect disk l unit) := by
  refine (loading_stateless unit (l.load_stateless disk unit)).bind fun content => ?_
  obtain ⟨r, gives⟩ := declared_stateless disk l unit content
  refine ⟨r, ?_⟩
  rintro definition rfl
  exact gives

end Discovery

end ProcessorBench
