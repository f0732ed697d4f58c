import ProcessorBench.Loading.LoadedClass

/-!
# Supertypes

`Supertypes.interfaces` gathers the interfaces of a class: those that it declares, those of its
superclasses, and the interfaces that these extend. The walk looks at each name once, so that names which
are reached in more than one way, or from themselves, do no harm.
-/

namespace ProcessorBench.Supertypes

/-- The supertypes of a class, and whether it declares them to be interfaces. The last one is looked at
first. -/
def direct (c : LoadedClass) : List (String × Bool) :=
  (c.superName.toList.map (·, false) ++ c.interfaces.map (·, true)).reverse

/-- How far a walk has come. -/
structure Progress where
  /-- The names that need not be looked at any more. -/
  visited : List String
  /-- The interfaces found so far. -/
  found : List String
  /-- The names to look at, and whether they have been declared to be interfaces. -/
  pending : List (String × Bool)

/-- Look at up to `fuel` names, and at what they lead to. -/
def walk {m : Type → Type} [Monad m] (resolve : String → m LoadedClass) :
    (fuel : Nat) → Progress → m (List String)
  | 0, progress => pure progress.found
  | fuel + 1, progress =>
    match progress.pending with
    | [] => pure progress.found
    | (name, declared) :: pending =>
      if progress.visited.contains name then walk resolve fuel { progress with pending }
      else do
        let c ← resolve name
        walk resolve fuel
          { visited := name :: progress.visited
            found := if declared || c.isInterface then name :: progress.found else progress.found
            pending := direct c ++ pending }

/-- The interfaces of a class. -/
def interfaces {m : Type → Type} [Monad m] (resolve : String → m LoadedClass) (fuel : Nat)
    (c : LoadedClass) : m (List String) :=
  walk resolve fuel { visited := [c.name], found := [], pending := direct c }

end ProcessorBench.Supertypes
