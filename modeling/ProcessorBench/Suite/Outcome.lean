/-!
# Results of a run

The result of each case, in the order in which the cases were found, and what they add up to.
-/

namespace ProcessorBench

/-- How a case ended. -/
inductive Outcome where
  | passed
  | failed (message : String)
  | skipped (reason : String)
deriving DecidableEq, Repr

namespace Outcome

/-- Whether a case passed. -/
def isPassed : Outcome → Bool
  | .passed => true
  | _ => false

/-- Whether a case failed. -/
def isFailed : Outcome → Bool
  | .failed _ => true
  | _ => false

/-- Whether a case was not run. -/
def isSkipped : Outcome → Bool
  | .skipped _ => true
  | _ => false

end Outcome

/-- The result of a case. -/
structure CaseResult where
  name : String
  outcome : Outcome
deriving DecidableEq, Repr

/-- The results of a run, and how many of each kind there are. -/
structure Summary where
  results : List CaseResult := []
  passed : Nat := 0
  failed : Nat := 0
  skipped : Nat := 0
deriving DecidableEq, Repr

namespace Summary

/-- Add the result of another case. -/
def add (s : Summary) (result : CaseResult) : Summary :=
  let s := { s with results := s.results ++ [result] }
  match result.outcome with
  | .passed => { s with passed := s.passed + 1 }
  | .failed _ => { s with failed := s.failed + 1 }
  | .skipped _ => { s with skipped := s.skipped + 1 }

/-- Add up some results. -/
def ofResults (results : List CaseResult) : Summary := results.foldl add {}

/-- How many cases there are. -/
def total (s : Summary) : Nat := s.passed + s.failed + s.skipped

/-- Whether a case failed. -/
def hasFailures (s : Summary) : Bool := s.failed > 0

/-- The exit code of a run: 2 for a run without cases, else 1 for one with a failed case, else 0. -/
def exitCode (s : Summary) : Nat :=
  if s.total = 0 then 2 else if s.hasFailures then 1 else 0

/-- Each result counts once, for what it is. -/
theorem foldl_add (results : List CaseResult) (s : Summary) : results.foldl add s =
    ⟨s.results ++ results, s.passed + results.countP (·.outcome.isPassed),
      s.failed + results.countP (·.outcome.isFailed), s.skipped + results.countP (·.outcome.isSkipped)⟩ := by
  induction results generalizing s with
  | nil => simp
  | cons result results ih =>
    rw [List.foldl_cons, ih]
    cases outcome : result.outcome <;>
      simp [add, outcome, Outcome.isPassed, Outcome.isFailed, Outcome.isSkipped] <;> omega

@[simp] theorem results_ofResults (results : List CaseResult) : (ofResults results).results = results := by
  simp [ofResults, foldl_add]

@[simp] theorem passed_ofResults (results : List CaseResult) :
    (ofResults results).passed = results.countP (·.outcome.isPassed) := by simp [ofResults, foldl_add]

@[simp] theorem failed_ofResults (results : List CaseResult) :
    (ofResults results).failed = results.countP (·.outcome.isFailed) := by simp [ofResults, foldl_add]

@[simp] theorem skipped_ofResults (results : List CaseResult) :
    (ofResults results).skipped = results.countP (·.outcome.isSkipped) := by simp [ofResults, foldl_add]

/-- Each case passed, failed, or was not run. -/
theorem total_ofResults (results : List CaseResult) : (ofResults results).total = results.length := by
  rw [total, passed_ofResults, failed_ofResults, skipped_ofResults]
  induction results with
  | nil => rfl
  | cons result results ih =>
    simp only [List.countP_cons, List.length_cons]
    rw [← ih]
    cases result.outcome <;> simp [Outcome.isPassed, Outcome.isFailed, Outcome.isSkipped] <;> omega

end Summary

end ProcessorBench
