import ProcessorBench.Proofs.ClassCodec
import ProcessorBench.Proofs.Files
import ProcessorBench.Proofs.LoadFaults
import ProcessorBench.Proofs.SupertypeWalks

/-!
# Walks of a loader

A loader stops a walk through supertypes after so many names (`ClassLoader.walkBound`). No walk comes that far:
besides the classes of the platform, which lead to a handful of names, a loader can load only as many classes as
there are names in its table and files where it looks (`ClassLoader.candidates`), and each of them has no more
supertypes than a class file can announce. So the interfaces that a loader finds are those which can be reached
(`ClassLoader.interfaces_tells`), whatever has been loaded before.
-/

namespace ProcessorBench

/-! ## How many supertypes a class has -/

/-- The names of the supertypes of a class. -/
def Supertypes.namesIn (c : LoadedClass) : List String := (direct c).map (·.1)

/-- The names in a class are those of its direct supertypes. -/
theorem Supertypes.mem_namesIn {c : LoadedClass} {name : String} : name ∈ namesIn c ↔ Names c name := by
  simp [namesIn, names_iff_mem_direct]

theorem Supertypes.length_namesIn (c : LoadedClass) : (namesIn c).length = (direct c).length := List.length_map _

/-- A class has its interfaces as direct supertypes, and its superclass if it has one. -/
theorem Supertypes.length_direct (c : LoadedClass) :
    (direct c).length = c.superName.toList.length + c.interfaces.length := by
  simp [direct, Nat.add_comm]

/-- A class that has been read has no more supertypes than a class file can announce, and a superclass. -/
theorem LoadedClass.length_direct_le {bytes : Bytes} {origin : ClassOrigin} {c : LoadedClass}
    (made : read bytes origin = .ok c) : (Supertypes.direct c).length ≤ UInt16.size := by
  obtain ⟨file, parsed, made⟩ := bind_eq_ok.mp made
  obtain ⟨name, _, made⟩ := bind_eq_ok.mp made
  obtain ⟨superName, _, made⟩ := bind_eq_ok.mp made
  obtain ⟨interfaces, named, made⟩ := bind_eq_ok.mp made
  obtain ⟨annotations, _, made⟩ := bind_eq_ok.mp made
  cases made
  obtain ⟨count, legal, _⟩ := ClassFile.parse_eq_ok.mp parsed
  have few := legal.counted.interfaces
  have same : file.interfaces.length = interfaces.length := (mapM_eq_ok.mp named).length_eq
  have one : superName.toList.length ≤ 1 := by cases superName <;> simp
  rw [Supertypes.length_direct]
  show superName.toList.length + interfaces.length ≤ _
  omega

/-- A class has the name that its bytes tell. -/
theorem LoadedClass.toldName?_of_read {bytes : Bytes} {origin : ClassOrigin} {c : LoadedClass}
    (made : read bytes origin = .ok c) : toldName? bytes = some c.name := by
  obtain ⟨file, parsed, made⟩ := bind_eq_ok.mp made
  obtain ⟨name, told, made⟩ := bind_eq_ok.mp made
  obtain ⟨superName, _, made⟩ := bind_eq_ok.mp made
  obtain ⟨interfaces, _, made⟩ := bind_eq_ok.mp made
  obtain ⟨annotations, _, made⟩ := bind_eq_ok.mp made
  cases made
  rw [toldName?, parsed]
  show (file.name).toOption = _
  rw [told]
  rfl

/-- A class is loaded from bytes if it can be read from them. -/
theorem LoadedClass.ofBytes_eq_ok {bytes : Bytes} {origin : ClassOrigin} {c : LoadedClass} :
    ofBytes bytes origin = .ok c ↔ read bytes origin = .ok c := by
  rw [ofBytes_eq, mapError_eq_ok]

/-! ## The names that a loader can load -/

/-- The names of the classes that the platform's own classes lead to. -/
def Platform.supertypes : List String :=
  rootClass :: annotationInterface :: (interfaces ++ classes).flatMap (·.2)

/-- A class that extends the root class and has a few interfaces of the platform. -/
theorem Platform.direct_classOf (name : String) (access : AccessFlags) {supers : List String}
    (short : supers.length ≤ 3) (inside : ∀ n ∈ supers, n ∈ supertypes) :
    (Supertypes.direct (classOf name access rootClass supers)).length ≤ 4 ∧
      ∀ n ∈ Supertypes.namesIn (classOf name access rootClass supers), n ∈ supertypes := by
  refine ⟨?_, fun n mem => ?_⟩
  · rw [Supertypes.length_direct]
    show 1 + supers.length ≤ 4
    omega
  · rcases Supertypes.mem_namesIn.mp mem with super | mem
    · cases super
      exact List.mem_cons_self
    · exact inside n mem

/-- The classes of the platform have few supertypes, all of them on the platform. -/
theorem Platform.direct_of_find? {name : String} {c : LoadedClass} (has : find? name = some c) :
    (Supertypes.direct c).length ≤ 4 ∧ ∀ n ∈ Supertypes.namesIn c, n ∈ supertypes := by
  have few : ∀ entry ∈ interfaces ++ classes, entry.2.length ≤ 3 := by decide
  have mem_of_lookup {table : List (String × List String)} {supers : List String}
      (found : table.lookup name = some supers) : (name, supers) ∈ table := by
    obtain ⟨_, _, split, _⟩ := List.lookup_eq_some_iff.mp found
    rw [split]
    exact List.mem_append_right _ List.mem_cons_self
  have listed (access : AccessFlags) {supers : List String} (mem : (name, supers) ∈ interfaces ++ classes) :=
    direct_classOf name access (few _ mem) fun n inside =>
      List.mem_cons_of_mem _ (List.mem_cons_of_mem _ (List.mem_flatMap.mpr ⟨_, mem, inside⟩))
  -- The root class, the interfaces, the other classes, the annotation types, and what is known by its name alone.
  unfold find? at has
  split at has
  · cases has
    exact ⟨Nat.zero_le _, nofun⟩
  split at has
  next supers found =>
    cases has
    exact listed _ (List.mem_append_left _ (mem_of_lookup found))
  split at has
  next supers found =>
    cases has
    exact listed _ (List.mem_append_right _ (mem_of_lookup found))
  split at has
  · cases has
    exact direct_classOf _ _ (by decide) (by decide)
  split at has
  · cases has
    exact direct_classOf _ _ (by decide) nofun
  · cases has

namespace ClassPathEntry

variable {disk : Disk} {entry : ClassPathEntry} {name : String} {c : LoadedClass}

/-- The names that the files of an entry tell. -/
def candidates (disk : Disk) : ClassPathEntry → List String
  | .directory _ => disk.tree.files.filterMap fun file => LoadedClass.toldName? file.2
  | .archive _ files => files.names.filterMap fun name => (files.content? name).bind LoadedClass.toldName?

/-- What can be loaded is bounded by what there is room for. -/
theorem length_candidates_le (disk : Disk) (entry : ClassPathEntry) :
    (entry.candidates disk).length ≤ entry.capacity disk := by
  cases entry <;> exact List.length_filterMap_le _ _

/-- A class that an entry defines has a name that one of its files tells. -/
theorem Defines.mem_candidates (defines : entry.Defines disk name c) : name ∈ entry.candidates disk := by
  obtain ⟨bytes, content, made, rfl⟩ := defines
  have told := LoadedClass.toldName?_of_read (LoadedClass.ofBytes_eq_ok.mp made)
  cases entry with
  | directory path =>
    rw [read] at content
    split at content
    next =>
      split at content
      next given =>
        cases content
        obtain ⟨tree, looked, given⟩ := bind_eq_ok.mp given
        obtain ⟨l, _, has⟩ := Disk.lookup_eq_ok.mp looked
        cases tree with
        | dir => cases given
        | file =>
          cases given
          exact List.mem_filterMap.mpr ⟨(l, bytes), FileTree.mem_files_of_at? has, told⟩
      next => cases content
    next => cases content
  | archive path files =>
    rw [read] at content
    split at content
    next listed =>
      split at content
      next given =>
        cases content
        refine List.mem_filterMap.mpr ⟨_, listed, ?_⟩
        rw [given]
        exact told
      next => cases content
    next => cases content

end ClassPathEntry

/-- The names that the files of a parent tell. -/
def ParentLoader.candidates (disk : Disk) : ParentLoader → List String
  | .platform => []
  | .classPath path => path.flatMap (·.candidates disk)

/-- What a parent can load is bounded by what it has room for. -/
theorem ParentLoader.length_candidates_le (disk : Disk) (parent : ParentLoader) :
    (parent.candidates disk).length ≤ parent.capacity disk := by
  cases parent with
  | platform => exact Nat.le_refl _
  | classPath path =>
    have total : path.foldl (fun n place => n + place.capacity disk) 0 = (path.map (·.capacity disk)).sum := by
      rw [List.sum_eq_foldl, List.foldl_map]
    rw [candidates, capacity, total, List.length_flatMap]
    exact List.sum_le_sum fun entry _ => entry.length_candidates_le disk

/-- A class that a class path gives is one of the platform, or one of its entries defines it. -/
theorem ClassPath.of_ask_eq_ok {path : ClassPath} {disk : Disk} {name : String} {c : LoadedClass}
    (given : path.ask disk name = .ok c) :
    Platform.find? name = some c ∨ ∃ entry ∈ path, entry.Defines disk name c := by
  have found := path.firstMatch disk name
  cases free : isReserved name with
  | true => exact .inl (Platform.ask_eq_ok.mp (found.reserved free ▸ given))
  | false =>
    cases first : path.firstFor? disk name with
    | none => exact .inl (Platform.ask_eq_ok.mp (found.absent free first ▸ given))
    | some entry =>
      exact .inr ⟨entry, List.mem_of_find?_eq_some first, ((found.first free entry first).2 c).mp given⟩

namespace ClassLoader

open Supertypes

variable {l : ClassLoader} {disk : Disk} {d : Definitions} {name : String} {c k : LoadedClass}

/-- The names that a loader may define, or its parent, those of the platform apart. -/
def candidates (l : ClassLoader) (disk : Disk) : List String :=
  l.table.map (·.1) ++ l.parent.candidates disk

/-- A loader cannot load more names than its table and its parent have. -/
theorem length_candidates_le (l : ClassLoader) (disk : Disk) :
    (l.candidates disk).length ≤ l.table.length + l.parent.capacity disk := by
  rw [candidates, List.length_append, List.length_map]
  exact Nat.add_le_add_left (l.parent.length_candidates_le disk) _

/-- A class that a loader gives is one of the platform, or it has one of these names and has been read. -/
theorem of_ask_eq_ok (given : l.ask disk name = .ok c) :
    Platform.find? name = some c ∨ (name ∈ l.candidates disk ∧ (direct c).length ≤ UInt16.size) := by
  cases owned : l.bytesOf? name with
  | some bytes =>
    have unknown : ({} : Definitions).find? .isolated name = none := rfl
    cases defined : defineOwn name bytes with
    | error e =>
      rw [ask, load_of_error owned unknown defined] at given
      cases given
    | ok content =>
      rw [ask, load_of_ok owned unknown defined] at given
      cases given
      rw [LoadedClass.defineOwn_eq] at defined
      split at defined
      next made =>
        split at defined
        next =>
          cases defined
          obtain ⟨_, _, split, _⟩ := List.lookup_eq_some_iff.mp owned
          have mem : (name, bytes) ∈ l.table := List.mem_reverse.mp (by rw [split]; simp)
          exact .inr ⟨List.mem_append_left _ (List.mem_map.mpr ⟨_, mem, rfl⟩), LoadedClass.length_direct_le made⟩
        next => cases defined
      next => cases defined
  | none =>
    rw [ask, load_of_unowned owned] at given
    rw [candidates]
    cases parent : l.parent with
    | platform =>
      rw [parent] at given
      exact .inl (Platform.ask_eq_ok.mp given)
    | classPath path =>
      rw [parent] at given
      rcases ClassPath.of_ask_eq_ok given with platform | ⟨entry, mem, defines⟩
      · exact .inl platform
      · obtain ⟨bytes, _, made, _⟩ := id defines
        exact .inr ⟨List.mem_append_right _ (List.mem_flatMap.mpr ⟨entry, mem, defines.mem_candidates⟩),
          LoadedClass.length_direct_le (LoadedClass.ofBytes_eq_ok.mp made)⟩

/-- A class that has been loaded does not have more direct supertypes than a count can say. -/
theorem length_direct_le_of_ask (given : l.ask disk name = .ok c) : (direct c).length ≤ UInt16.size := by
  rcases of_ask_eq_ok given with platform | ⟨_, few⟩
  · exact (Platform.direct_of_find? platform).1.trans (by decide)
  · exact few

/-! ## How far a walk can come -/

/-- The names that a class leads to, and some more: those in the class, in each of the candidates, and in classes of
the platform. -/
def leads (l : ClassLoader) (disk : Disk) (c : LoadedClass) : List String :=
  namesIn c ++ ((l.candidates disk).flatMap (fun n => (l.ask disk n).toOption.elim [] namesIn) ++
    Platform.supertypes)

/-- Every name that a class reaches is one of those that a walk can come to. -/
theorem mem_leads (reaches : Reaches (l.ask disk) c name) : name ∈ l.leads disk c := by
  obtain ⟨_, m, above, names⟩ := reaches
  have mem := mem_namesIn.mpr names
  cases above with
  | self => exact List.mem_append_left _ mem
  | @super _ _ between _ _ _ resolved =>
    refine List.mem_append_right _ ?_
    rcases of_ask_eq_ok resolved with platform | ⟨known, _⟩
    · exact List.mem_append_right _ ((Platform.direct_of_find? platform).2 name mem)
    · refine List.mem_append_left _ (List.mem_flatMap.mpr ⟨between, known, ?_⟩)
      rw [resolved]
      exact mem

/-- There are not too many of these names. -/
theorem length_leads_le (l : ClassLoader) (disk : Disk) (few : (direct c).length ≤ UInt16.size) :
    (l.leads disk c).length ≤ UInt16.size * ((l.candidates disk).length + 1) + 9 := by
  have each : ∀ n ∈ l.candidates disk, ((l.ask disk n).toOption.elim [] namesIn).length ≤ UInt16.size := by
    intro n _
    cases given : l.ask disk n with
    | error e => exact Nat.zero_le _
    | ok k =>
      show (namesIn k).length ≤ _
      rw [length_namesIn]
      exact length_direct_le_of_ask given
  have sum := List.sum_le_card_nsmul ((l.candidates disk).map fun n =>
    ((l.ask disk n).toOption.elim [] namesIn).length) UInt16.size (by simpa using each)
  have own : Platform.supertypes.length = 9 := rfl
  rw [List.length_map, nsmul_eq_mul, Nat.cast_id] at sum
  rw [leads, List.length_append, List.length_append, List.length_flatMap, length_namesIn, own, Nat.mul_add]
  have swap := Nat.mul_comm (l.candidates disk).length UInt16.size
  omega

/-- A class of the platform has few supertypes. -/
theorem width_ask_le (l : ClassLoader) (disk : Disk) (name : String) :
    width (l.ask disk) name ≤ 4 + if name ∈ l.candidates disk then UInt16.size else 0 := by
  rw [width]
  cases given : l.ask disk name with
  | error e => exact Nat.zero_le _
  | ok k =>
    rcases of_ask_eq_ok given with platform | ⟨known, few⟩
    · exact (Platform.direct_of_find? platform).1.trans (Nat.le_add_right _ _)
    · rw [if_pos known]
      exact few.trans (Nat.le_add_left _ _)

/-- All that a walk can look at is bounded by what can be loaded. -/
theorem sum_width_le (l : ClassLoader) (disk : Disk) (names : Finset String) :
    ∑ name ∈ names, width (l.ask disk) name ≤ 4 * names.card + UInt16.size * (l.candidates disk).length := by
  have fewer : (names.filter (· ∈ l.candidates disk)).card ≤ (l.candidates disk).length := by
    refine (Finset.card_le_card fun name mem => ?_).trans (l.candidates disk).toFinset_card_le
    exact List.mem_toFinset.mpr (Finset.mem_filter.mp mem).2
  calc ∑ name ∈ names, width (l.ask disk) name
    _ ≤ ∑ name ∈ names, (4 + if name ∈ l.candidates disk then UInt16.size else 0) :=
      Finset.sum_le_sum fun name _ => l.width_ask_le disk name
    _ = 4 * names.card + UInt16.size * (names.filter (· ∈ l.candidates disk)).card := by
      rw [Finset.sum_add_distrib, Finset.sum_const, ← Finset.sum_filter, Finset.sum_const]
      rw [nsmul_eq_mul, nsmul_eq_mul, Nat.cast_id, Nat.cast_id, Nat.mul_comm 4, Nat.mul_comm UInt16.size]
    _ ≤ _ := Nat.add_le_add_left (Nat.mul_le_mul_left _ fewer) _

/-- **The bound is never reached.** -/
theorem remaining_le_walkBound (few : (direct c).length ≤ UInt16.size) :
    (start c).remaining (l.ask disk) (l.leads disk c).toFinset ≤ l.walkBound disk := by
  have names := (l.leads disk c).toFinset_card_le.trans (length_leads_le l disk few)
  have sum := l.sum_width_le disk {name ∈ (l.leads disk c).toFinset | name ∉ (start c).visited}
  have less := Finset.card_filter_le (l.leads disk c).toFinset (· ∉ (start c).visited)
  have known := Nat.mul_le_mul_left UInt16.size (l.length_candidates_le disk)
  have big : 36 ≤ UInt16.size := by decide
  rw [Progress.remaining, walkBound, Nat.mul_assoc, Nat.mul_add]
  rw [Nat.mul_add] at names
  show (direct c).length + _ ≤ _
  omega

/-- **The interfaces that a loader finds** are those that can be reached, and it fails only for a name that can be
reached, whatever has been loaded before. -/
theorem interfaces_tells (sound : l.Sound disk d) (few : (direct c).length ≤ UInt16.size) :
    Walks (l.ask disk) (start c) ((l.interfaces disk c).outcome d).1 ∧
      Tells (l.ask disk) c ((l.interfaces disk c).outcome d).1 := by
  have way := onTheWay_start (l.ask disk) c
  have walks : Walks (l.ask disk) (start c) (walk (l.ask disk) (l.walkBound disk) (start c)) :=
    walks_walk (fun _ reaches => List.mem_toFinset.mpr (mem_leads reaches)) way (remaining_le_walkBound few)
  have run : l.interfaces disk c = walk (m := LoadStep) (fun name => do return (← l.load disk name).content)
      (l.walkBound disk) (start c) := by
    rw [interfaces, Supertypes.interfaces, start]
  have gives := ((l.walk_gives disk (l.walkBound disk) (start c)).outcome sound).1
  rw [Except.map_id, id] at gives
  rw [run, gives]
  exact ⟨walks, walks.tells way⟩

end ClassLoader

end ProcessorBench
