import Mathlib.Algebra.BigOperators.Group.Finset.Basic
import Mathlib.Data.Set.Finite.Basic
import ProcessorBench.Loading.Supertypes

/-!
# What a walk through supertypes finds

The names that a class leads to are those which it names as supertypes, and those which the classes of these
names name in turn, for as long as there are any (`Supertypes.Reaches`). A walk looks at each of them once. It
ends if they are finitely many, whatever cycles there are among them, and then it has found the interfaces
among them (`Supertypes.interfaces_reached`).

A walk forgets how a name was declared when it comes upon the name again. That makes no difference for names
which are only ever declared in one way, nor for those whose class is an interface anyway
(`Supertypes.Unambiguous`).
-/

namespace ProcessorBench.Supertypes

variable {ε : Type} {resolve : String → Except ε LoadedClass} {c k m : LoadedClass} {p : Progress}
  {name : String} {declared : Bool} {visited found : List String} {pending : List (String × Bool)}

/-! ## What can be reached -/

/-- A class names another one as its superclass or as one of its interfaces. -/
def Names (c : LoadedClass) (name : String) : Prop := c.superName = some name ∨ name ∈ c.interfaces

/-- A class that a walk from `c` looks at: `c` itself, or the class of a name that such a class names. The name
of `c` leads no further. -/
inductive Above (resolve : String → Except ε LoadedClass) (c : LoadedClass) : LoadedClass → Prop where
  | self : Above resolve c c
  | super {m k : LoadedClass} {name : String} (above : Above resolve c m) (names : Names m name)
    (other : name ≠ c.name) (resolved : resolve name = .ok k) : Above resolve c k

/-- The names that can be reached from a class, other than its own. -/
def Reaches (resolve : String → Except ε LoadedClass) (c : LoadedClass) (name : String) : Prop :=
  name ≠ c.name ∧ ∃ m, Above resolve c m ∧ Names m name

/-- A class on the way declares the name as an interface. -/
def Declared (resolve : String → Except ε LoadedClass) (c : LoadedClass) (name : String) : Prop :=
  ∃ m, Above resolve c m ∧ name ∈ m.interfaces

/-- A class on the way has a superclass of the name. -/
def Extended (resolve : String → Except ε LoadedClass) (c : LoadedClass) (name : String) : Prop :=
  ∃ m, Above resolve c m ∧ m.superName = some name

/-- The class of a name is an interface. -/
def IsInterface (resolve : String → Except ε LoadedClass) (name : String) : Prop :=
  ∃ k, resolve name = .ok k ∧ k.isInterface = true

/-- A name that occurs both as a superclass and as an interface is one of an interface. -/
def Unambiguous (resolve : String → Except ε LoadedClass) (c : LoadedClass) : Prop :=
  ∀ name, Reaches resolve c name → Extended resolve c name → Declared resolve c name →
    IsInterface resolve name

/-- The direct supertypes are the superclass and the interfaces. -/
theorem mem_direct : (name, declared) ∈ direct c ↔
    (declared = false ∧ c.superName = some name) ∨ (declared = true ∧ name ∈ c.interfaces) := by
  simp only [direct, List.mem_reverse, List.mem_append, List.mem_map, Option.mem_toList,
    Prod.mk.injEq]
  constructor
  · rintro (⟨_, super, rfl, rfl⟩ | ⟨_, mem, rfl, rfl⟩)
    · exact .inl ⟨rfl, super⟩
    · exact .inr ⟨rfl, mem⟩
  · rintro (⟨rfl, super⟩ | ⟨rfl, mem⟩)
    · exact .inl ⟨name, super, rfl, rfl⟩
    · exact .inr ⟨name, mem, rfl, rfl⟩

/-- A class names its direct supertypes. -/
theorem names_iff_mem_direct : Names c name ↔ ∃ declared, (name, declared) ∈ direct c := by
  simp [Names, mem_direct]

/-- The names that can be reached through a table of classes are named in it. -/
theorem finite_of_table (table : List (String × LoadedClass))
    (inside : ∀ name k, resolve name = .ok k → (name, k) ∈ table) (c : LoadedClass) :
    {name | Reaches resolve c name}.Finite := by
  let named := (c :: table.map (·.2)).flatMap fun k => (direct k).map (·.1)
  refine (List.finite_toSet named).subset ?_
  rintro name ⟨_, m, above, names⟩
  obtain ⟨declared, mem⟩ := names_iff_mem_direct.mp names
  refine List.mem_flatMap.mpr ⟨m, ?_, List.mem_map_of_mem (f := Prod.fst) mem⟩
  cases above with
  | self => exact List.mem_cons_self
  | super _ _ _ resolved => exact List.mem_cons_of_mem _ (List.mem_map_of_mem (f := Prod.snd) (inside _ _ resolved))

/-! ## Walks without a bound -/

/-- How far a walk is when the class of a name has been looked at. -/
def Progress.look (p : Progress) (name : String) (declared : Bool) (k : LoadedClass) : Progress where
  visited := name :: p.visited
  found := if declared || k.isInterface then name :: p.found else p.found
  pending := direct k ++ p.pending

/-- Looking at a name finds it if it is an interface or declared as one. -/
theorem Progress.mem_found_look {other : String} : other ∈ (p.look name declared k).found ↔
    (other = name ∧ (declared || k.isInterface) = true) ∨ other ∈ p.found := by
  unfold look
  by_cases interface : (declared || k.isInterface) = true <;> simp [interface]

/-- Nothing is found twice. -/
theorem Progress.nodup_look (new : name ∉ p.found) (nodup : p.found.Nodup) :
    (p.look name declared k).found.Nodup := by
  unfold look
  simp only
  split
  · exact List.nodup_cons.mpr ⟨new, nodup⟩
  · exact nodup

/-- The walk from some progress on ends with a result. -/
inductive Walks (resolve : String → Except ε LoadedClass) : Progress → Except ε (List String) → Prop where
  | finish {visited found : List String} : Walks resolve ⟨visited, found, []⟩ (.ok found)
  | skip {visited found : List String} {name : String} {declared : Bool} {pending : List (String × Bool)}
    {result : Except ε (List String)} (seen : name ∈ visited)
    (rest : Walks resolve ⟨visited, found, pending⟩ result) :
    Walks resolve ⟨visited, found, (name, declared) :: pending⟩ result
  | fail {visited found : List String} {name : String} {declared : Bool} {pending : List (String × Bool)} {e : ε}
    (new : name ∉ visited) (failed : resolve name = .error e) :
    Walks resolve ⟨visited, found, (name, declared) :: pending⟩ (.error e)
  | look {visited found : List String} {name : String} {declared : Bool} {pending : List (String × Bool)}
    {k : LoadedClass} {result : Except ε (List String)} (new : name ∉ visited) (resolved : resolve name = .ok k)
    (rest : Walks resolve (Progress.look ⟨visited, found, pending⟩ name declared k) result) :
    Walks resolve ⟨visited, found, (name, declared) :: pending⟩ result

/-- There is one way for a walk to go. -/
theorem Walks.unique {result result' : Except ε (List String)} (walks : Walks resolve p result)
    (walks' : Walks resolve p result') : result = result' := by
  induction walks with
  | finish =>
    cases walks'
    rfl
  | skip seen _ ih =>
    cases walks' with
    | skip _ rest => exact ih rest
    | fail new | look new => exact absurd seen new
  | fail new failed =>
    cases walks' with
    | skip seen => exact absurd seen new
    | fail _ failed' =>
      cases failed.symm.trans failed'
      rfl
    | look _ resolved => cases failed.symm.trans resolved
  | look new resolved _ ih =>
    cases walks' with
    | skip seen => exact absurd seen new
    | fail _ failed => cases resolved.symm.trans failed
    | look _ resolved' rest =>
      cases resolved.symm.trans resolved'
      exact ih rest

/-! ## What holds on the way -/

/-- Where a walk begins. -/
def start (c : LoadedClass) : Progress := { visited := [c.name], found := [], pending := direct c }

/-- A name has been looked at, or will be. -/
def Progress.Covers (p : Progress) (name : String) : Prop :=
  name ∈ p.visited ∨ ∃ declared, (name, declared) ∈ p.pending

/-- What holds at each point of a walk from a class. -/
structure OnTheWay (resolve : String → Except ε LoadedClass) (c : LoadedClass) (p : Progress) : Prop where
  own : c.name ∈ p.visited
  visited : ∀ name ∈ p.visited, name ≠ c.name → Reaches resolve c name ∧ ∃ k, resolve name = .ok k
  extended : ∀ name, (name, false) ∈ p.pending → Extended resolve c name
  declared : ∀ name, (name, true) ∈ p.pending → Declared resolve c name
  covers : ∀ name, Names c name → p.Covers name
  covers_visited : ∀ name ∈ p.visited, name ≠ c.name → ∀ k, resolve name = .ok k →
    ∀ next, Names k next → p.Covers next
  found : ∀ name ∈ p.found, name ∈ p.visited ∧ name ≠ c.name ∧
    (Declared resolve c name ∨ IsInterface resolve name)
  nodup : p.found.Nodup
  complete : Unambiguous resolve c → ∀ name ∈ p.visited, name ≠ c.name →
    Declared resolve c name ∨ IsInterface resolve name → name ∈ p.found

/-- What holds on the way of a walk holds where it starts. -/
theorem onTheWay_start (resolve : String → Except ε LoadedClass) (c : LoadedClass) :
    OnTheWay resolve c (start c) where
  own := List.mem_singleton_self _
  visited name mem other := absurd (List.mem_singleton.mp mem) other
  extended name mem := by
    obtain ⟨_, super⟩ := (mem_direct.mp mem).resolve_right (by simp)
    exact ⟨c, .self, super⟩
  declared name mem := by
    obtain ⟨_, declares⟩ := (mem_direct.mp mem).resolve_left (by simp)
    exact ⟨c, .self, declares⟩
  covers name names := .inr (names_iff_mem_direct.mp names)
  covers_visited name mem other := absurd (List.mem_singleton.mp mem) other
  found := nofun
  nodup := .nil
  complete _ name mem other := absurd (List.mem_singleton.mp mem) other

/-- What is pending can be reached. -/
theorem OnTheWay.reaches (way : OnTheWay resolve c p) (mem : (name, declared) ∈ p.pending)
    (new : name ∉ p.visited) : Reaches resolve c name := by
  refine ⟨fun own => new (own ▸ way.own), ?_⟩
  cases declared with
  | false =>
    obtain ⟨m, above, super⟩ := way.extended name mem
    exact ⟨m, above, .inl super⟩
  | true =>
    obtain ⟨m, above, declares⟩ := way.declared name mem
    exact ⟨m, above, .inr declares⟩

/-- **Passing over a name** that has been looked at. -/
theorem OnTheWay.skip (way : OnTheWay resolve c ⟨visited, found, (name, declared) :: pending⟩)
    (seen : name ∈ visited) : OnTheWay resolve c ⟨visited, found, pending⟩ := by
  have still (other : String) (covers : Progress.Covers ⟨visited, found, (name, declared) :: pending⟩ other) :
      Progress.Covers ⟨visited, found, pending⟩ other := by
    rcases covers with mem | ⟨flag, mem⟩
    · exact .inl mem
    · rcases List.mem_cons.mp mem with same | mem
      · cases same
        exact .inl seen
      · exact .inr ⟨flag, mem⟩
  exact
    { own := way.own
      visited := way.visited
      extended := fun other mem => way.extended other (List.mem_cons_of_mem _ mem)
      declared := fun other mem => way.declared other (List.mem_cons_of_mem _ mem)
      covers := fun other names => still other (way.covers other names)
      covers_visited := fun other mem apart k resolved next names =>
        still next (way.covers_visited other mem apart k resolved next names)
      found := way.found
      nodup := way.nodup
      complete := way.complete }

/-- **Looking at a name**, and going on with the supertypes of its class. -/
theorem OnTheWay.look (way : OnTheWay resolve c ⟨visited, found, (name, declared) :: pending⟩)
    (new : name ∉ visited) (resolved : resolve name = .ok k) :
    OnTheWay resolve c (Progress.look ⟨visited, found, pending⟩ name declared k) := by
  have reaches : Reaches resolve c name := way.reaches List.mem_cons_self new
  have above : Above resolve c k := by
    obtain ⟨other, m, above, names⟩ := reaches
    exact .super above names other resolved
  -- What was pending still is, and the name has been looked at.
  have still (other : String) (covers : Progress.Covers ⟨visited, found, (name, declared) :: pending⟩ other) :
      Progress.Covers (Progress.look ⟨visited, found, pending⟩ name declared k) other := by
    rcases covers with mem | ⟨flag, mem⟩
    · exact .inl (List.mem_cons_of_mem _ mem)
    · rcases List.mem_cons.mp mem with same | mem
      · cases same
        exact .inl List.mem_cons_self
      · exact .inr ⟨flag, List.mem_append_right _ mem⟩
  refine
    { own := List.mem_cons_of_mem _ way.own
      visited := ?visited
      extended := ?extended
      declared := ?declared
      covers := fun other names => still other (way.covers other names)
      covers_visited := ?covers_visited
      found := ?found
      nodup := Progress.nodup_look (fun mem => new (way.found name mem).1) way.nodup
      complete := ?complete }
  case visited =>
    intro other mem apart
    rcases List.mem_cons.mp mem with rfl | mem
    · exact ⟨reaches, k, resolved⟩
    · exact way.visited other mem apart
  case extended =>
    intro other mem
    rcases List.mem_append.mp mem with mem | mem
    · obtain ⟨_, super⟩ := (mem_direct.mp mem).resolve_right (by simp)
      exact ⟨k, above, super⟩
    · exact way.extended other (List.mem_cons_of_mem _ mem)
  case declared =>
    intro other mem
    rcases List.mem_append.mp mem with mem | mem
    · obtain ⟨_, declares⟩ := (mem_direct.mp mem).resolve_left (by simp)
      exact ⟨k, above, declares⟩
    · exact way.declared other (List.mem_cons_of_mem _ mem)
  case covers_visited =>
    intro other mem apart k' resolved' next names
    rcases List.mem_cons.mp mem with rfl | mem
    · cases resolved.symm.trans resolved'
      obtain ⟨flag, mem⟩ := names_iff_mem_direct.mp names
      exact .inr ⟨flag, List.mem_append_left _ mem⟩
    · exact still next (way.covers_visited other mem apart k' resolved' next names)
  case found =>
    intro other mem
    rcases Progress.mem_found_look.mp mem with ⟨rfl, interface⟩ | mem
    · refine ⟨List.mem_cons_self, reaches.1, ?_⟩
      rcases Bool.or_eq_true_iff.mp interface with rfl | interface
      · exact .inl (way.declared other List.mem_cons_self)
      · exact .inr ⟨k, resolved, interface⟩
    · obtain ⟨seen, rest⟩ := way.found other mem
      exact ⟨List.mem_cons_of_mem _ seen, rest⟩
  case complete =>
    intro clear other mem apart interface
    rcases List.mem_cons.mp mem with rfl | mem
    · refine Progress.mem_found_look.mpr (.inl ⟨rfl, ?_⟩)
      cases declared with
      | true => rfl
      | false =>
        -- A superclass that is declared as an interface, too, is one of an interface.
        have isInterface : IsInterface resolve other := by
          rcases interface with declares | isInterface
          · exact clear other reaches (way.extended other List.mem_cons_self) declares
          · exact isInterface
        obtain ⟨k', resolved', isInterface⟩ := isInterface
        cases resolved.symm.trans resolved'
        exact isInterface
    · exact Progress.mem_found_look.mpr (.inr (way.complete clear other mem apart interface))

/-- When nothing is pending any more, all that can be reached has been looked at. -/
theorem OnTheWay.mem_visited (way : OnTheWay resolve c ⟨visited, found, []⟩) (above : Above resolve c m)
    (names : Names m name) : name ∈ visited := by
  have here (other : String) (covers : Progress.Covers ⟨visited, found, []⟩ other) : other ∈ visited :=
    covers.resolve_right nofun
  induction above generalizing name with
  | self => exact here name (way.covers name names)
  | super _ names' other resolved ih =>
    exact here name (way.covers_visited _ (ih names') other _ resolved name names)

/-! ## What is found -/

/-- What a result of a walk says about the names that can be reached from a class. -/
structure Tells (resolve : String → Except ε LoadedClass) (c : LoadedClass) (result : Except ε (List String)) :
    Prop where
  /-- The walk succeeds if all of them are known. -/
  succeeds : (∃ found, result = .ok found) ↔ ∀ name, Reaches resolve c name → ∃ k, resolve name = .ok k
  /-- Otherwise it fails for the reason why one of them is not. -/
  fails : ∀ e, result = .error e → ∃ name, Reaches resolve c name ∧ resolve name = .error e
  /-- What it finds are the interfaces among them, each once. -/
  finds : ∀ found, result = .ok found → found.Nodup ∧ (Unambiguous resolve c → ∀ name,
    name ∈ found ↔ Reaches resolve c name ∧ (Declared resolve c name ∨ IsInterface resolve name))

/-- **A walk that ends** tells what can be reached. -/
theorem Walks.tells {result : Except ε (List String)} (walks : Walks resolve p result)
    (way : OnTheWay resolve c p) : Tells resolve c result := by
  induction walks with
  | @finish visited found =>
    have all : ∀ name, Reaches resolve c name → name ∈ visited := fun name ⟨_, m, above, names⟩ =>
      way.mem_visited above names
    have known : ∀ name, Reaches resolve c name → ∃ k, resolve name = .ok k := fun name reaches =>
      (way.visited name (all name reaches) reaches.1).2
    refine ⟨⟨fun _ => known, fun _ => ⟨found, rfl⟩⟩, nofun, ?_⟩
    rintro _ ⟨⟩
    refine ⟨way.nodup, fun clear name => ⟨fun mem => ?_, fun ⟨reaches, interface⟩ => ?_⟩⟩
    · obtain ⟨seen, other, interface⟩ := way.found name mem
      exact ⟨(way.visited name seen other).1, interface⟩
    · exact way.complete clear name (all name reaches) reaches.1 interface
  | skip seen _ ih => exact ih (way.skip seen)
  | fail new failed =>
    have reaches := way.reaches List.mem_cons_self new
    refine ⟨⟨nofun, fun known => ?_⟩, ?_, nofun⟩
    · obtain ⟨k, resolved⟩ := known _ reaches
      cases failed.symm.trans resolved
    · rintro _ ⟨⟩
      exact ⟨_, reaches, failed⟩
  | look new resolved _ ih => exact ih (way.look new resolved)

/-! ## How long a walk takes -/

/-- How many supertypes the class of a name has, if there is one. -/
def width (resolve : String → Except ε LoadedClass) (name : String) : Nat :=
  match resolve name with
  | .ok k => (direct k).length
  | .error _ => 0

/-- How many names there are still to look at, if all are among the given ones: those pending, and the supertypes
of those that have not been visited. -/
def Progress.remaining (p : Progress) (resolve : String → Except ε LoadedClass) (names : Finset String) : Nat :=
  p.pending.length + ∑ name ∈ names with name ∉ p.visited, width resolve name

/-- Looking at a name leaves one less to look at. -/
theorem remaining_look {names : Finset String} (mem : name ∈ names) (new : name ∉ visited)
    (resolved : resolve name = .ok k) :
    Progress.remaining ⟨visited, found, (name, declared) :: pending⟩ resolve names =
      (Progress.look ⟨visited, found, pending⟩ name declared k).remaining resolve names + 1 := by
  have others : {other ∈ names | other ∉ name :: visited} =
      {other ∈ names | other ∉ visited}.erase name := by
    ext other
    simp only [Finset.mem_filter, Finset.mem_erase, List.mem_cons, not_or]
    tauto
  have here : name ∈ {other ∈ names | other ∉ visited} := Finset.mem_filter.mpr ⟨mem, new⟩
  have own : width resolve name = (direct k).length := by rw [width, resolved]
  have sum := Finset.add_sum_erase _ (width resolve) here
  simp only [Progress.remaining, Progress.look, others, List.length_cons, List.length_append]
  omega

/-- **A walk ends**, and no bound stops it that is large enough. -/
theorem walks_walk {names : Finset String} (all : ∀ name, Reaches resolve c name → name ∈ names) {fuel : Nat}
    (way : OnTheWay resolve c p) (enough : p.remaining resolve names ≤ fuel) :
    Walks resolve p (walk resolve fuel p) := by
  -- Each step makes the number of names that are left smaller, so the bound is large enough for those after it.
  induction fuel generalizing p with
  | zero =>
    obtain ⟨visited, found, pending⟩ := p
    have none : pending = [] := by
      rw [Progress.remaining] at enough
      exact List.length_eq_zero_iff.mp (by simp only at enough; omega)
    subst none
    exact .finish
  | succ fuel ih =>
    obtain ⟨visited, found, _ | ⟨⟨name, declared⟩, pending⟩⟩ := p
    · exact .finish
    by_cases seen : name ∈ visited
    · have step : walk resolve (fuel + 1) ⟨visited, found, (name, declared) :: pending⟩ =
          walk resolve fuel ⟨visited, found, pending⟩ := by
        rw [walk]
        simp only [List.contains_iff_mem.mpr seen, if_true]
      rw [step]
      refine .skip seen (ih (way.skip seen) ?_)
      simp only [Progress.remaining, List.length_cons] at enough ⊢
      omega
    · have step : walk resolve (fuel + 1) ⟨visited, found, (name, declared) :: pending⟩ =
          resolve name >>= fun k =>
            walk resolve fuel (Progress.look ⟨visited, found, pending⟩ name declared k) := by
        rw [walk]
        simp only [List.contains_eq_mem, seen, decide_false, Bool.false_eq_true, if_false]
        rfl
      rw [step]
      cases resolved : resolve name with
      | error e => exact .fail seen resolved
      | ok k =>
        refine .look seen resolved (ih (way.look seen resolved) ?_)
        have mem := all name (way.reaches List.mem_cons_self seen)
        rw [remaining_look mem seen resolved] at enough
        omega

/-- **The interfaces of a class.** If finitely many names can be reached from a class, with cycles among them or
without, then the walk through its supertypes ends, and no bound from some number on makes a difference. It
succeeds if all these names are known, and fails for the reason why one of them is not. What it finds are those
that are declared as interfaces or are interfaces, in whatever order they have been declared, unless a name
that is no interface occurs both as a superclass and as an interface. -/
theorem interfaces_reached (resolve : String → Except ε LoadedClass) (c : LoadedClass)
    (finite : {name | Reaches resolve c name}.Finite) :
    ∃ result, (∃ bound, ∀ fuel, bound ≤ fuel → interfaces resolve fuel c = result) ∧
      Walks resolve (start c) result ∧ Tells resolve c result := by
  have all : ∀ name, Reaches resolve c name → name ∈ finite.toFinset := fun name reaches =>
    finite.mem_toFinset.mpr reaches
  have way := onTheWay_start resolve c
  have walks (fuel : Nat) (enough : (start c).remaining resolve finite.toFinset ≤ fuel) :
      Walks resolve (start c) (interfaces resolve fuel c) := walks_walk all way enough
  have first := walks _ (Nat.le_refl _)
  exact ⟨_, ⟨_, fun fuel enough => (walks fuel enough).unique first⟩, first, first.tells way⟩

/-- A class with the given supertypes. -/
def classWith (name : String) (access : AccessFlags) (superName : Option String) (interfaces : List String) :
    LoadedClass :=
  { name, access, superName, interfaces, annotations := [], origin := .isolated }

/-- A class whose superclass names it in turn, with two interfaces that extend each other. -/
def entangled : LoadedClass := classWith "A" .isPublic (some "B") ["I"]

/-- The classes that it leads to. -/
def entangledTypes : List (String × LoadedClass) :=
  [("B", classWith "B" .isPublic (some "A") ["J"]), ("I", classWith "I" ⟨0x0601⟩ (some "Root") ["J"]),
   ("J", classWith "J" ⟨0x0601⟩ (some "Root") ["I"]), ("Root", classWith "Root" .isPublic none [])]

/-- The class of a name among them, or the name. -/
def entangledOf (name : String) : Except String LoadedClass :=
  match entangledTypes.lookup name with
  | some k => .ok k
  | none => .error name

/-- Supertypes that lead to each other are walked once. -/
theorem interfaces_reached_entangled : {name | Reaches entangledOf entangled name}.Finite ∧
    (∃ bound, ∀ fuel, bound ≤ fuel → interfaces entangledOf fuel entangled = .ok ["J", "I"]) ∧
    Tells entangledOf entangled (.ok ["J", "I"]) := by
  have inside : ∀ name k, entangledOf name = .ok k → (name, k) ∈ entangledTypes := by
    intro name k resolved
    unfold entangledOf at resolved
    split at resolved
    next found =>
      cases resolved
      obtain ⟨_, _, split, _⟩ := List.lookup_eq_some_iff.mp found
      rw [split]
      simp
    next => cases resolved
  have finite := finite_of_table entangledTypes inside entangled
  obtain ⟨result, ends, walks, tells⟩ := interfaces_reached entangledOf entangled finite
  have course : Walks entangledOf (start entangled) (.ok ["J", "I"]) :=
    .look (by decide) rfl (.look (by decide) rfl (.skip (by decide) (.look (by decide) rfl (.skip (by decide)
      (.look (by decide) rfl (.skip (by decide) (.skip (by decide) .finish)))))))
  obtain rfl := walks.unique course
  exact ⟨finite, ends, tells⟩

end ProcessorBench.Supertypes
