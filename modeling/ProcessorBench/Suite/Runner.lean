import ProcessorBench.Suite.Discovery
import ProcessorBench.Suite.Outcome

/-!
# Running tests

All cases are found before the first is run, so that a broken source tree gives no results at all. The
results stand in the order in which the cases were found.
-/

namespace ProcessorBench

/-- How tests are run. -/
structure Runner where
  /-- A text that the names of the cases to be run have to contain. -/
  filter : Option String := none
  /-- Whether cases that passed or were not run are reported too. -/
  verbose : Bool := false
  /-- Whether several cases may be run at a time. The results are the same either way. -/
  parallel : Bool := true
deriving DecidableEq, Repr

namespace Runner

/-- Whether some characters occur, one after the other, among others. -/
def occursIn (part : List Char) : List Char → Bool
  | [] => part.isEmpty
  | c :: rest => part.isPrefixOf (c :: rest) || occursIn part rest

theorem occursIn_iff {part text : List Char} : occursIn part text = true ↔ part <:+: text := by
  induction text with
  | nil => simp [occursIn]
  | cons c rest ih => rw [occursIn, Bool.or_eq_true, List.isPrefixOf_iff_prefix, ih, List.infix_cons_iff]

/-- Whether a case is to be run. -/
def selects (r : Runner) (c : TestCase) : Bool :=
  match r.filter with
  | none => true
  | some part => occursIn part.toList c.name.toList

theorem selects_eq_false {r : Runner} {c : TestCase} :
    r.selects c = false ↔ ∃ part, r.filter = some part ∧ ¬ part.toList <:+: c.name.toList := by
  unfold selects
  cases r.filter with
  | none => simp
  | some part => simp [← occursIn_iff]

/-- Why a case is not run. -/
def skipReason (r : Runner) : String :=
  "does not match filter '" ++ r.filter.getD "" ++ "'"

/-- The result of a case that has been run. -/
def resultOf (c : TestCase) : Except CaseFailure Unit → CaseResult
  | .ok () => ⟨c.name, .passed⟩
  | .error failure => ⟨c.name, .failed failure.message⟩

/-- Run a case, if it is to be run. -/
def runCase {ε : Type} (r : Runner) (bench : Workbench) (c : TestCase) : HostStep ε CaseResult := do
  if r.selects c then return resultOf c (← HostStep.attempt (c.run bench))
  else return ⟨c.name, .skipped r.skipReason⟩

theorem runCase_outcome {ε : Type} (r : Runner) (bench : Workbench) (c : TestCase) (h : Host) :
    (r.runCase (ε := ε) bench c).outcome h =
      if r.selects c then (.ok (resultOf c ((c.run bench).outcome h).1), ((c.run bench).outcome h).2)
      else (.ok ⟨c.name, .skipped r.skipReason⟩, h) := by
  unfold runCase
  split
  · exact HostStep.outcome_attempt_bind _ _ _
  · rfl

/-- Run cases that have been found. -/
def runCases {ε : Type} (r : Runner) (bench : Workbench) (cases : List TestCase) :
    HostStep ε Summary := do
  return .ofResults (← cases.mapM (r.runCase bench))

/-- Find the cases of a source tree, and run them. -/
def run (r : Runner) (bench : Workbench) (scanRoot : Path) : HostStep DiscoveryError Summary := do
  let cases ← Discovery.cases bench scanRoot
  r.runCases bench cases

end Runner

end ProcessorBench
