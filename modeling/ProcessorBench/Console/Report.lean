import ProcessorBench.Suite.Outcome

/-!
# Reports

A report lists the results that the user wants to see, and ends with what they add up to. Times stand in it as
texts, since nothing else depends on them.
-/

namespace ProcessorBench.Report

/-- The line for a result. Cases that passed or were not run have one only in a verbose report. -/
def resultLine? (verbose : Bool) (time : String) (r : CaseResult) : Option String :=
  match r.outcome with
  | .passed => if verbose then some ("  PASS: " ++ r.name ++ " (" ++ time ++ ")") else none
  | .failed message => some ("  FAIL: " ++ r.name ++ " - " ++ message)
  | .skipped reason => if verbose then some ("  SKIP: " ++ r.name ++ " - " ++ reason) else none

/-- How many cases passed, failed, and were not run. -/
def countsLine (s : Summary) : String :=
  "  " ++ toString s.passed ++ " passed, " ++ toString s.failed ++ " failed, " ++ toString s.skipped ++
    " skipped (" ++ toString s.total ++ " total)"

/-- The word for a whole run. -/
def verdict (s : Summary) : String :=
  if s.hasFailures then "FAILED" else if s.total = 0 then "NO TESTS FOUND" else "OK"

/-- The lines of a report. -/
def lines (verbose : Bool) (time : String) (s : Summary) : List String :=
  s.results.filterMap (resultLine? verbose time) ++
    ["", "Test Summary:", countsLine s, "  Completed in " ++ time, "", verdict s]

/-- A number of hundredths with a point in front of its last two digits. -/
def hundredths (n : Nat) : String :=
  let rest := toString (n % 100)
  toString (n / 100) ++ "." ++ (if rest.length = 1 then "0" ++ rest else rest)

/-- The text of a time in nanoseconds, in the greatest unit of which it has at least one. -/
def timeText (nanoseconds : Nat) : String :=
  let inUnit (size : Nat) (unit : String) : String := hundredths ((nanoseconds * 100 + size / 2) / size) ++ unit
  if 1000000000 ≤ nanoseconds then inUnit 1000000000 "s"
  else if 1000000 ≤ nanoseconds then inUnit 1000000 "ms"
  else if 1000 ≤ nanoseconds then inUnit 1000 "µs"
  else inUnit 1 "ns"

/-- The lines about a fault that kept the tests from being run, with its causes. -/
def faultLines (message : String) (causes : List String) : List String :=
  ("error: " ++ message) :: causes.map ("  caused by: " ++ ·)

end ProcessorBench.Report
