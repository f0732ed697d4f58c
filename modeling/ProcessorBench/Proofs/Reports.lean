import ProcessorBench.Proofs.LazyDiscovery
import ProcessorBench.Proofs.NormalForm
import ProcessorBench.Proofs.Pools

/-!
# Reports of runs

A run gives a report or the fault of its search, and no case is run after a fault. The results stand in the order in
which the cases were found, and each says how its case goes alone, whatever the order in which the cases take their
steps (`Runner.run_report`).
-/

namespace ProcessorBench

/-! ## What a search finds -/

namespace Workbench

/-- A compilation that succeeds has had a workspace. -/
theorem reserves_of_compile {b : Workbench} {unit : String} {source : Option String}
    {processor : Option Processor} {h : Host} {made : Option ArtifactSet}
    (compiled : ((b.compile unit source processor).outcome h).1 = .ok made) :
    ∃ w, (Workspace.reserve.outcome h).1 = .ok w := by
  rw [compile_eq] at compiled
  split at compiled
  · cases compiled
  · rw [Workspace.create_eq, HostStep.outcome_bind, HostStep.outcome_bind] at compiled
    generalize Workspace.reserve.outcome h = reserved at compiled ⊢
    obtain ⟨_ | w, h'⟩ := reserved
    · cases compiled
    · exact ⟨w, rfl⟩

end Workbench

namespace Discovery

variable {b : Workbench} {answer : RequestContent → CompilerAnswer} {h : Host} {scanRoot : Path}
  {path : ClassPath} {verdict : Location → Except DiscoveryError (Option TestCase)}
  {log : Location → List CompilerCall} {files : List Location}

/-- Where a case is found, a workspace can be had. -/
theorem reserves_of_examineAt {d : Discovery} {file : Location} {case : TestCase} {definitions : Definitions}
    (found : ((d.examineAt b file).outcome h).1 = .ok (some case, definitions)) :
    ∃ w, (Workspace.reserve.outcome h).1 = .ok w := by
  rw [examineAt_outcome] at found
  split at found
  · cases named : UnitName.ofNames? file "java" with
    | none =>
      rw [examine, named] at found
      cases found
    | some unit =>
      rw [examine_outcome named] at found
      split at found
      next => cases found
      next source _ =>
        rw [examineUnit, HostStep.outcome_bind, HostStep.outcome_adapt] at found
        cases compiled : ((b.compile unit (some source) none).outcome h).1 with
        | error e =>
          rw [compiled] at found
          cases found
        | ok made => exact Workbench.reserves_of_compile compiled
  · cases found

/-- Every item comes from a file. -/
theorem exists_file_of_mem {item : Except DiscoveryError TestCase} (mem : item ∈ itemsOf verdict files) :
    ∃ file ∈ files, verdict file = item.map some := by
  obtain ⟨n, has⟩ := List.mem_iff_getElem?.mp mem
  obtain ⟨before, file, after, split, _, _, gives⟩ := exists_file_of_getElem? has
  exact ⟨file, by simp [split], gives⟩

/-- Where a search finds a case, there is room for a workspace. -/
theorem Survey.room {d : Discovery} (survey : Survey b h scanRoot path verdict log)
    (honest : Honest scanRoot path h.disk d) {case : TestCase} (mem : .ok case ∈ itemsOf verdict files) :
    ∃ s, h.Room s := by
  obtain ⟨file, _, gives⟩ := exists_file_of_mem mem
  obtain ⟨r, outcome, tells⟩ := survey.shows file d honest h.calls
  rw [gives] at tells
  rcases r with e | ⟨found, definitions⟩
  · cases tells
  · cases tells.1
    obtain ⟨w, has⟩ := reserves_of_examineAt (congrArg Prod.fst outcome)
    exact Host.exists_room has

/-- The cases up to the first fault, or that fault. -/
theorem collect_itemsOf_cons_some {file : Location} {case : TestCase} (found : verdict file = .ok (some case)) :
    (itemsOf verdict (file :: files)).mapM id = ((itemsOf verdict files).mapM id).map (case :: ·) := by
  rw [itemsOf_cons_some found, List.mapM_cons]
  cases (itemsOf verdict files).mapM id <;> rfl

/-- **A search for all cases** gives all items, or the first fault. It leaves nothing but requests without a
processor. -/
theorem Survey.casesOf (survey : Survey b h scanRoot path verdict log) (files : List Location)
    {d : Discovery} (honest : Honest scanRoot path h.disk d) (calls : List CompilerCall) :
    ∃ added : List CompilerCall, (∀ c ∈ added, c.request.processor = none) ∧
      (casesOf b d files).outcome { h with calls := calls } =
        ((itemsOf verdict files).mapM id, { h with calls := added ++ calls }) := by
  -- The definitions that a file leaves are as honest as those before it, so the others are surveyed, too.
  induction files generalizing d calls with
  | nil => exact ⟨[], nofun, rfl⟩
  | cons file files ih =>
    obtain ⟨r, outcome, tells⟩ := survey.shows file d honest calls
    have quiet := (survey.once file).2
    unfold Discovery.casesOf
    rw [HostStep.outcome_bind, outcome]
    rcases r with e | ⟨case, definitions⟩
    · have given : verdict file = .error e := tells
      rw [itemsOf_cons_error given]
      exact ⟨log file, quiet, rfl⟩
    · obtain ⟨given, sound⟩ := tells
      obtain ⟨added, each, rest⟩ := ih (d := { d with definitions })
        ⟨honest.scanRoot, honest.classPath, sound⟩ (log file ++ calls)
      refine ⟨added ++ log file, ?_, ?_⟩
      · intro c mem
        exact (List.mem_append.mp mem).elim (each c) (quiet c)
      simp only
      rw [HostStep.outcome_bind, rest, List.append_assoc]
      cases case with
      | none =>
        rw [itemsOf_cons_none given]
        cases (itemsOf verdict files).mapM id <;> rfl
      | some case =>
        rw [collect_itemsOf_cons_some given]
        cases (itemsOf verdict files).mapM id <;> rfl

/-- A search without a fault has found its cases. -/
theorem collect_eq_ok {items : List (Except DiscoveryError TestCase)} {cases : List TestCase} :
    items.mapM id = .ok cases ↔ items = cases.map .ok := by
  induction items generalizing cases with
  | nil => cases cases <;> simp [pure, Except.pure]
  | cons item items ih =>
    rw [List.mapM_cons, bind_eq_ok]
    simp only [id, bind_eq_ok, ih]
    cases cases with
    | nil => simp [pure, Except.pure]
    | cons case cases => simp [pure, Except.pure]

/-- The first fault among the files comes after all items. -/
theorem collect_itemsOf_eq_error {e : DiscoveryError} (fault : (itemsOf verdict files).mapM id = .error e) :
    ∃ (found : List TestCase) (before : List Location) (file : Location) (after : List Location),
      itemsOf verdict files = found.map .ok ++ [.error e] ∧ files = before ++ file :: after ∧
        verdict file = .error e ∧ ∀ f ∈ before, ∃ r, verdict f = .ok r := by
  induction files with
  | nil => cases fault
  | cons file files ih =>
    cases given : verdict file with
    | error e' =>
      rw [itemsOf_cons_error given] at fault ⊢
      cases fault
      exact ⟨[], [], file, files, rfl, rfl, given, nofun⟩
    | ok r =>
      -- A file that gives no fault cannot be the one that stops the search.
      have rest : (itemsOf verdict files).mapM id = .error e := by
        cases r with
        | none => rwa [itemsOf_cons_none given] at fault
        | some case =>
          rw [collect_itemsOf_cons_some given] at fault
          cases collected : (itemsOf verdict files).mapM id with
          | error e' =>
            rw [collected] at fault
            cases fault
            rfl
          | ok cases =>
            rw [collected] at fault
            cases fault
      obtain ⟨found, before, last, after, items, split, faulty, sound⟩ := ih rest
      refine ⟨r.toList ++ found, file :: before, last, after, ?_, ?_, faulty, ?_⟩
      · cases r with
        | none => rw [itemsOf_cons_none given, items]; rfl
        | some case => rw [itemsOf_cons_some given, items]; rfl
      · rw [split, List.cons_append]
      · exact List.forall_mem_cons.mpr ⟨⟨r, given⟩, sound⟩

/-- What a search for all cases comes to: it does not start, or it stops at the first fault, or it gives all cases.
How it goes is said by its course. -/
inductive Finds (b : Workbench) (scanRoot : Path) (h : Host) : Except DiscoveryError (List TestCase) → Prop
  | refused {e : DiscoveryError} (refused : (start b scanRoot).outcome h = (.error e, h)) :
    Finds b scanRoot h (.error e)
  | fault {d : Discovery} {verdict : Location → Except DiscoveryError (Option TestCase)}
    {log : Location → List CompilerCall} {e : DiscoveryError} {found : List TestCase}
    {before after : List Location} {file : Location} (started : (start b scanRoot).outcome h = (.ok d, h))
    (course : Course b scanRoot h d verdict log)
    (items : itemsOf verdict d.pending = found.map .ok ++ [.error e])
    (split : d.pending = before ++ file :: after) (faulty : verdict file = .error e)
    (sound : ∀ f ∈ before, ∃ r, verdict f = .ok r) :
    Finds b scanRoot h (.error e)
  | all {d : Discovery} {verdict : Location → Except DiscoveryError (Option TestCase)}
    {log : Location → List CompilerCall} {cases : List TestCase}
    (started : (start b scanRoot).outcome h = (.ok d, h)) (course : Course b scanRoot h d verdict log)
    (items : itemsOf verdict d.pending = cases.map .ok) :
    Finds b scanRoot h (.ok cases)

/-- A search for all cases, with what is needed to run them. -/
theorem exists_finds (content : b.compiler = ContentCompiler.ofAnswers answer) (wf : h.disk.tree.WellFormed)
    (scanRoot : Path) : ∃ (found : Except DiscoveryError (List TestCase)) (added : List CompilerCall),
      Finds b scanRoot h found ∧ (∀ c ∈ added, c.request.processor = none) ∧
        (cases b scanRoot).outcome h = (found, { h with calls := added ++ h.calls }) ∧
        ∀ cases, found = .ok cases → ∀ c ∈ cases, c.IsPlain ∧ ∃ s, h.Room s := by
  have start_ := start_outcome b scanRoot h
  unfold Discovery.cases
  rw [HostStep.outcome_bind, start_]
  cases started : startOn b scanRoot h.disk with
  | error e =>
    rw [started] at start_
    exact ⟨.error e, [], .refused start_, nofun, rfl, nofun⟩
  | ok d =>
    rw [started] at start_
    obtain ⟨verdict, log, survey⟩ := exists_survey content wf d.classPath scanRoot
    have honest := honest_start started
    have course := survey.course wf started
    obtain ⟨added, quiet, outcome⟩ := survey.casesOf d.pending honest h.calls
    refine ⟨(itemsOf verdict d.pending).mapM id, added, ?_, quiet, outcome, ?_⟩
    · cases collected : (itemsOf verdict d.pending).mapM id with
      | error e =>
        obtain ⟨_, _, _, _, items, split, faulty, sound⟩ := collect_itemsOf_eq_error collected
        exact .fault start_ course items split faulty sound
      | ok cases => exact .all start_ course (collect_eq_ok.mp collected)
    · intro cases all c mem
      have mem : .ok c ∈ itemsOf verdict d.pending := by
        rw [collect_eq_ok.mp all]
        exact List.mem_map_of_mem mem
      obtain ⟨file, _, gives⟩ := exists_file_of_mem mem
      exact ⟨survey.plain file c gives, survey.room honest mem⟩

end Discovery

/-! ## The jobs of cases -/

namespace TestCase

variable {answer : RequestContent → CompilerAnswer} (base : FileTree) (b : Workbench)

/-- One side of a case goes the same way in every workspace. -/
theorem similar_sideJob (side : Side) (source : String) {processor : Option Processor}
    (plain : ∀ p ∈ processor, p.artifacts.IsPlain) :
    Job.Similar base (Both Eq) none (sideJob b (ContentCompiler.call answer) side source processor)
      (sideJob b (ContentCompiler.call answer) side source processor) := by
  refine (Job.similar_compile base b answer exampleClass source plain).andThen fun r r' related => .done ?_
  cases related with
  | error e e' => exact .error _ _
  | ok made =>
    obtain ⟨rfl, _⟩ := made
    generalize classOf side _ = given
    cases given with
    | error e => exact .error e e
    | ok content => exact .ok rfl

/-- **The job of a case** is similar to itself: it gives the same, wherever its workspaces are. -/
theorem similar_job {c : TestCase} (plain : c.IsPlain) :
    Job.Similar base (Both Eq) none (c.job b (ContentCompiler.call answer))
      (c.job b (ContentCompiler.call answer)) := by
  unfold job
  cases plan : c.plan with
  | missingExpected => exact .done (.error _ _)
  | compare processor stub expected =>
    have attached : ∀ p ∈ some processor, p.artifacts.IsPlain := by
      rintro _ ⟨⟩
      exact plain processor stub expected plan
    refine (similar_sideJob base b .generated stub attached).andThen fun r r' related => ?_
    cases related with
    | error e e' => exact .done (.error e e')
    | ok same =>
      subst same
      have bare : ∀ p : Processor, p ∈ none → p.artifacts.IsPlain := fun p mem => by cases mem
      refine (similar_sideJob base b .expected expected bare).andThen fun r r' related => ?_
      cases related with
      | error e e' => exact .done (.error e e')
      | ok same =>
        subst same
        refine .done ?_
        generalize compareClasses c.name _ _ = compared
        cases compared with
        | error e => exact .error e e
        | ok => exact .ok rfl

end TestCase

/-- Two results of a case that differ in what is said about a failure at most. -/
inductive CaseResult.Agrees : CaseResult → CaseResult → Prop
  | same (result : CaseResult) : Agrees result result
  | failed (name message message' : String) : Agrees ⟨name, .failed message⟩ ⟨name, .failed message'⟩

namespace Runner

variable {answer : RequestContent → CompilerAnswer} {r : Runner} {b : Workbench} {c : TestCase}

/-- A case goes the same way in every workspace. -/
theorem similar_caseJob (base : FileTree) (plain : c.IsPlain) :
    Job.Similar base (Both CaseResult.Agrees) none (r.caseJob b (ContentCompiler.call answer) c)
      (r.caseJob b (ContentCompiler.call answer) c) := by
  unfold caseJob
  split
  · refine (TestCase.similar_job base b plain).andThen fun result result' related => .done (.ok ?_)
    cases related with
    | error e e' => exact .failed _ _ _
    | ok same => exact .same _
  · exact .done (.ok (.same _))

/-- Cases side by side go the same way in every workspace. -/
theorem similar_caseJobs (base : FileTree) {cases : List TestCase} (plain : ∀ c ∈ cases, c.IsPlain) :
    ∀ job ∈ cases.map (r.caseJob b (ContentCompiler.call answer)),
      Job.Similar base (Both CaseResult.Agrees) none job job := by
  intro job mem
  obtain ⟨c, found, rfl⟩ := List.mem_map.mp mem
  exact similar_caseJob base (plain c found)

/-! ## Entries -/

/-- Nothing is compiled for a case: neither a run of it changes the host, nor a move of its worker the pool. -/
structure Idle (r : Runner) (b : Workbench) (call : CompileRequest → Job CompileError Bool)
    (c : TestCase) : Prop where
  alone (h : Host) : ((r.runCase (ε := DiscoveryError) b c).outcome h).2 = h
  among (cases : List TestCase) (h : Host) (before : List PoolMove) (m : PoolMove) :
    cases[m.worker]? = some c →
    ((r.pool b call cases h).after before).step m = (r.pool b call cases h).after before

/-- What the result of a case has to say, if this is how the case goes alone on a host. -/
structure Entry (r : Runner) (b : Workbench) (call : CompileRequest → Job CompileError Bool) (h : Host)
    (c : TestCase) (result : CaseResult) : Prop where
  name : result.name = c.name
  skipped : result.outcome.isSkipped = true ↔
    ∃ part, r.filter = some part ∧ ¬ part.toList <:+: c.name.toList
  idle : result.outcome.isSkipped = true → r.Idle b call c
  passed : result.outcome.isPassed = true ↔
    result.outcome.isSkipped = false ∧ ((c.run b).outcome h).1 = .ok ()
  failed : result.outcome.isFailed = true ↔
    result.outcome.isSkipped = false ∧ ∃ e, ((c.run b).outcome h).1 = .error e

variable {call : CompileRequest → Job CompileError Bool} {h : Host} {result result' : CaseResult}

/-- A case that is skipped does nothing. -/
theorem idle_of_selects_eq_false (skips : r.selects c = false) : r.Idle b call c := by
  refine ⟨fun h => ?_, fun cases h before m has => ?_⟩
  · rw [runCase_outcome, skips]
    rfl
  · apply Pool.step_after_of_done
    show (cases.map (r.caseJob b call))[m.worker]? = _
    rw [List.getElem?_map, has, Option.map_some, caseJob, skips]
    rfl

/-- Entries that agree say the same of a case. -/
theorem Entry.of_agrees (entry : r.Entry b call h c result) (agrees : result'.Agrees result) :
    r.Entry b call h c result' := by
  cases agrees with
  | same => exact entry
  | failed name message message' => exact ⟨entry.name, entry.skipped, entry.idle, entry.passed, entry.failed⟩

/-- What a runner does with a case on a host gives an entry for it. -/
theorem entry_of_runCase {ε : Type} (given : ((r.runCase (ε := ε) b c).outcome h).1 = .ok result) :
    r.Entry b call h c result := by
  rw [runCase_outcome] at given
  cases skips : r.selects c with
  | false =>
    rw [skips] at given
    cases given
    refine ⟨rfl, ⟨fun _ => selects_eq_false.mp skips, fun _ => rfl⟩, fun _ => idle_of_selects_eq_false skips,
      ?_, ?_⟩
    · simp [Outcome.isPassed, Outcome.isSkipped]
    · simp [Outcome.isFailed, Outcome.isSkipped]
  | true =>
    rw [skips] at given
    cases given
    have runs : ¬ ∃ part, r.filter = some part ∧ ¬ part.toList <:+: c.name.toList := by
      rw [← selects_eq_false, skips]
      exact Bool.noConfusion
    cases ended : ((c.run b).outcome h).1 with
    | error e =>
      refine ⟨rfl, ⟨Bool.noConfusion, fun skipped => absurd skipped runs⟩, Bool.noConfusion, ?_, ?_⟩
      · rw [ended]
        exact ⟨Bool.noConfusion, fun passed => by cases passed.2⟩
      · exact ⟨fun _ => ⟨rfl, e, ended⟩, fun _ => rfl⟩
    | ok =>
      refine ⟨rfl, ⟨Bool.noConfusion, fun skipped => absurd skipped runs⟩, Bool.noConfusion, ?_, ?_⟩
      · exact ⟨fun _ => ⟨rfl, ended⟩, fun _ => rfl⟩
      · rw [ended]
        exact ⟨Bool.noConfusion, fun failed => by cases failed.2.choose_spec⟩

/-- What a job of a case gives anywhere is an entry for it, if it agrees with what the job gives alone. -/
theorem entry_of_job (called : ∀ request, (call request).run = b.compiler.call request)
    (given : Both CaseResult.Agrees (.ok result : Except Empty CaseResult)
      ((r.caseJob b call c).run.outcome h).1) : r.Entry b call h c result := by
  rw [run_caseJob called] at given
  cases alone : ((r.runCase (ε := Empty) b c).outcome h).1 with
  | error e => cases e
  | ok result' =>
    rw [alone] at given
    cases given with
    | ok agrees => exact (entry_of_runCase alone).of_agrees agrees

/-! ## Reports -/

/-- What the numbers of a report have to say about its results. -/
structure Tally (s : Summary) : Prop where
  total : s.passed + s.failed + s.skipped = s.results.length
  noResult : s.exitCode = 2 ↔ s.results = []
  someFailed : s.exitCode = 1 ↔ ∃ result ∈ s.results, result.outcome.isFailed = true
  noneFailed : s.exitCode = 0 ↔ s.results ≠ [] ∧ ∀ result ∈ s.results, result.outcome.isFailed = false

/-- The tally of results is right. -/
theorem tally_ofResults (results : List CaseResult) : Tally (.ofResults results) := by
  have total := Summary.total_ofResults results
  have failed : (Summary.ofResults results).hasFailures = true ↔
      ∃ result ∈ results, result.outcome.isFailed = true := by
    rw [Summary.hasFailures, Summary.failed_ofResults, decide_eq_true_iff, gt_iff_lt, List.countP_pos_iff]
  have sum : (Summary.ofResults results).passed + (Summary.ofResults results).failed +
      (Summary.ofResults results).skipped = (Summary.ofResults results).results.length := by
    rw [Summary.results_ofResults]
    exact total
  refine ⟨sum, ?_, ?_, ?_⟩ <;> rw [Summary.results_ofResults, Summary.exitCode, total]
  all_goals
    by_cases empty : results = []
    · simp [empty]
    rw [if_neg (mt List.length_eq_zero_iff.mp empty)]
    by_cases bad : ∃ result ∈ results, result.outcome.isFailed = true
    · rw [if_pos (failed.mpr bad)]
      simp_all
    · rw [if_neg (mt failed.mp bad)]
      simp_all

/-- **Cases one after the other** on a host with a disk and an environment give an entry each. -/
theorem runCases_entries (called : ∀ request, (ContentCompiler.call answer request).run = b.compiler.call request)
    (wf : h.disk.tree.WellFormed) {cases : List TestCase} (plain : ∀ c ∈ cases, c.IsPlain) {H : Host}
    (disk : H.disk = h.disk) (environment : H.environment = h.environment) :
    ∃ results H', (∀ {ε : Type}, (cases.mapM (r.runCase (ε := ε) b)).outcome H = (.ok results, H')) ∧
      List.Forall₂ (r.Entry b (ContentCompiler.call answer) h) cases results := by
  induction cases generalizing H with
  | nil => exact ⟨[], H, rfl, .nil⟩
  | cons c cases ih =>
    obtain ⟨first, plain⟩ := List.forall_mem_cons.mp plain
    obtain ⟨v, H₁, once⟩ : ∃ v H₁, ∀ {ε : Type}, (r.runCase (ε := ε) b c).outcome H = (.ok v, H₁) := by
      simp only [runCase_outcome]
      split <;> exact ⟨_, _, rfl⟩
    have similar : Job.Similar h.disk.tree _ none (r.caseJob b (ContentCompiler.call answer) c) _ :=
      similar_caseJob h.disk.tree first
    obtain ⟨related, calls, left⟩ := similar.run wf H h (t := default) (.outside disk) (.outside rfl)
      environment
    have same : ((r.caseJob b (ContentCompiler.call answer) c).run.outcome H) = (.ok v, H₁) := by
      rw [run_caseJob called, once]
    rw [same] at related left
    have left : H₁ = { H with disk := h.disk, calls := calls ++ H.calls } := left
    obtain ⟨results, H₂, rest, entries⟩ := ih plain (H := H₁) (by rw [left]) (by rw [left]; exact environment)
    refine ⟨v :: results, H₂, ?_, .cons (entry_of_job called related) entries⟩
    intro ε
    rw [List.mapM_cons, HostStep.outcome_bind, once]
    simp only
    rw [HostStep.outcome_bind, rest]
    rfl

/-- **Cases in any order** on a host that they share give an entry each. -/
theorem pool_entries (called : ∀ request, (ContentCompiler.call answer request).run = b.compiler.call request)
    (wf : h.disk.tree.WellFormed) {s₀ : Site} (room : h.Room s₀) {cases : List TestCase}
    (plain : ∀ c ∈ cases, c.IsPlain) {H : Host} (shares : h.Shares H) (disk : H.disk = h.disk)
    {moves : List PoolMove}
    {results : List CaseResult}
    (given : ((r.pool b (ContentCompiler.call answer) cases H).after moves).values? = some results) :
    List.Forall₂ (r.Entry b (ContentCompiler.call answer) h) cases results := by
  have agree := Pool.agree room wf shares disk (similar_caseJobs _ plain) moves given
  rw [List.forall₂_map_left_iff] at agree
  exact agree.imp fun c result related => entry_of_job called related

/-- What comes of a run, given what the search finds. -/
structure Reports (r : Runner) (b : Workbench) (call : CompileRequest → Job CompileError Bool) (h : Host)
    (found : Except DiscoveryError (List TestCase)) (result : Except DiscoveryError Summary)
    (later : Host) : Prop where
  fault (e : DiscoveryError) : result = .error e ↔ found = .error e
  /-- After a fault nothing has been asked of the compiler but what the search has asked. -/
  quiet (e : DiscoveryError) : found = .error e → ∃ added : List CompilerCall,
    (∀ c ∈ added, c.request.processor = none) ∧ later = { h with calls := added ++ h.calls }
  entries (cases : List TestCase) : found = .ok cases → ∃ summary, result = .ok summary ∧
    List.Forall₂ (r.Entry b call h) cases summary.results ∧ Tally summary

/-- Entries for all cases make up a report. -/
theorem reports_ofResults {cases : List TestCase} {results : List CaseResult} {later : Host}
    (entries : List.Forall₂ (r.Entry b call h) cases results) :
    r.Reports b call h (.ok cases) (.ok (.ofResults results)) later := by
  refine ⟨fun e => ⟨nofun, nofun⟩, nofun, ?_⟩
  rintro _ ⟨⟩
  refine ⟨_, rfl, ?_, tally_ofResults results⟩
  rw [Summary.results_ofResults]
  exact entries

section
variable {cases : List TestCase} {H : Host} (wf : h.disk.tree.WellFormed) (plain : ∀ c ∈ cases, c.IsPlain)
  (room : cases ≠ [] → ∃ s₀, h.Room s₀) (shares : h.Shares H) (disk : H.disk = h.disk)
include wf plain room shares disk

/-- Whatever the schedule, the results say how the cases go alone. -/
theorem reports_runCasesOn
    (called : ∀ request, (ContentCompiler.call answer request).run = b.compiler.call request)
    {schedule : Option (List PoolMove)} {result : Except DiscoveryError Summary} {later : Host}
    (ran : r.runCasesOn b (ContentCompiler.call answer) schedule cases H = some (result, later)) :
    r.Reports b (ContentCompiler.call answer) h (.ok cases) result later := by
  unfold runCasesOn at ran
  split at ran
  next moves several =>
    obtain ⟨s₀, room⟩ := room (by rintro rfl; simp at several)
    obtain ⟨results, given, same⟩ := Option.map_eq_some_iff.mp ran
    cases same
    exact reports_ofResults (pool_entries called wf room plain shares disk given)
  next =>
    obtain ⟨results, H', inTurn, entries⟩ := runCases_entries (r := r) called wf plain disk shares.environment
    rw [runCases, HostStep.outcome_bind, inTurn] at ran
    cases ran
    exact reports_ofResults entries

/-- Whatever moves have been made, the cases can be run to their ends. -/
theorem exists_runCasesOn (moves : List PoolMove) : ∃ others result later,
    r.runCasesOn b (ContentCompiler.call answer) (some (moves ++ others)) cases H = some (result, later) := by
  unfold runCasesOn
  cases several : r.parallel && decide (cases.length > 1) with
  | true =>
    obtain ⟨s₀, room⟩ := room (by rintro rfl; simp at several)
    obtain ⟨others, results, given⟩ := Pool.exists_finish room wf shares disk
      (similar_caseJobs (r := r) h.disk.tree plain) moves
    have ended : ((r.pool b (ContentCompiler.call answer) cases H).after (moves ++ others)).values? =
        some results := given
    refine ⟨others, .ok (.ofResults results),
      ((r.pool b (ContentCompiler.call answer) cases H).after (moves ++ others)).host, ?_⟩
    rw [if_pos rfl]
    simp only
    rw [ended]
    rfl
  | false => exact ⟨[], _, _, rfl⟩

end

/-- **A run gives a report or a fault.** By a compiler that goes by content, a run gives the fault of its search, and
then no processor has been attached to anything, or it gives an entry for each case that has been found, in their
order. Whether the cases run one after the other or take their steps in any order makes no difference to what the
entries say. Any moves can be followed by others with which the run has a result. -/
theorem run_report (content : b.compiler = ContentCompiler.ofAnswers answer) (wf : h.disk.tree.WellFormed)
    (r : Runner) (scanRoot : Path) :
    ∃ found, Discovery.Finds b scanRoot h found ∧
      (∀ schedule result later, r.runOn b (ContentCompiler.call answer) schedule scanRoot h =
        some (result, later) → r.Reports b (ContentCompiler.call answer) h found result later) ∧
      r.runOn b (ContentCompiler.call answer) none scanRoot h = some ((r.run b scanRoot).outcome h) ∧
      ∀ moves, ∃ others result later, r.runOn b (ContentCompiler.call answer) (some (moves ++ others)) scanRoot h =
        some (result, later) := by
  have called (request : CompileRequest) :
      (ContentCompiler.call answer request).run = b.compiler.call request :=
    content ▸ ContentCompiler.run_call answer request
  obtain ⟨found, added, finds, quiet, outcome, each⟩ := Discovery.exists_finds content wf scanRoot
  refine ⟨found, finds, ?_⟩
  unfold runOn run
  rw [HostStep.outcome_bind, outcome]
  cases found with
  | error e =>
    refine ⟨?_, rfl, fun _ => ⟨[], _, _, rfl⟩⟩
    rintro _ _ _ ⟨⟩
    exact ⟨fun e => by simp, fun _ _ => ⟨added, quiet, rfl⟩, nofun⟩
  | ok cases =>
    have plain : ∀ c ∈ cases, c.IsPlain := fun c mem => (each cases rfl c mem).1
    have room (some_ : cases ≠ []) : ∃ s₀, h.Room s₀ :=
      (each cases rfl _ (List.head_mem some_)).2
    have shares : h.Shares { h with calls := added ++ h.calls } := ⟨.refl _, wf, rfl, rfl⟩
    refine ⟨fun schedule result later => reports_runCasesOn wf plain room shares rfl called, ?_,
      exists_runCasesOn wf plain room shares rfl⟩
    simp only
    rw [runCasesOn, ite_self]

/-! ### A run with two cases -/

open Discovery (oneClass answerByName namesBench namesHost expectingCase)

/-- A compiler for the sources of cases too. What it makes of a stub has the same normal form as what it makes of one
expected source. All other expected sources are refused. -/
def answerCases (seen : RequestContent) : CompilerAnswer :=
  if seen.processor.isSome then oneClass "Example.class" ClassFile.compiled.bytes rfl
  else if seen.source = some (Utf8.encode "same") then oneClass "Example.class" ClassFile.rearranged.bytes rfl
  else answerByName seen

/-- Moves of two workers in turn. Each name for a workspace is tried by both of them. -/
def turns : List PoolMove := (List.range 20).flatMap fun number => [⟨0, number⟩, ⟨1, number⟩]

/-- What is generated and what is expected have one normal form. -/
theorem normalize_same : ∃ normal, ClassFile.normalize ClassFile.compiled.bytes = .ok normal ∧
    ClassFile.normalize ClassFile.rearranged.bytes = .ok normal := by
  obtain ⟨normal, given⟩ := ClassFile.exists_normalize ClassFile.parse_compiled ClassFile.acyclic_compiled
    ClassFile.view_compiled ClassFile.plainView_fits
  refine ⟨normal, given, ?_⟩
  rw [ClassFile.normalize_eq ClassFile.parse_compiled, ClassFile.renumbered_eq (c := ClassFile.compiled.debugFree)
    ClassFile.acyclic_compiled ClassFile.view_compiled] at given
  rw [ClassFile.normalize_eq ClassFile.parse_rearranged, ClassFile.renumbered_eq (c := ClassFile.rearranged.debugFree)
    ClassFile.acyclic_rearranged ClassFile.view_rearranged]
  exact given

/-- What comes of a case is what comes of comparing the classes that are compiled for it. -/
theorem run_of_compiled {b : Workbench} {h : Host} {name stub expected : String} {processor : Processor}
    {g w : Bytes} (compiled : ((do
      let generated ← TestCase.compileSide b .generated stub (some processor)
      return (generated, ← TestCase.compileSide b .expected expected none)).outcome h).1 = .ok (g, w)) :
    (((⟨name, .compare processor stub expected⟩ : TestCase).run b).outcome h).1 =
      TestCase.compareClasses name g w := by
  obtain ⟨left, compiled⟩ := HostStep.exists_outcome compiled
  obtain ⟨first, between, made, compiled⟩ := HostStep.outcome_bind_eq_ok.mp compiled
  obtain ⟨last, left', made', compiled⟩ := HostStep.outcome_bind_eq_ok.mp compiled
  cases compiled
  rw [TestCase.run, HostStep.outcome_bind, made]
  simp only
  rw [HostStep.outcome_bind, made']
  exact congrArg Prod.fst (HostStep.outcome_ofExcept _ _)

/-- The first case passes, since both sides have one normal form. -/
theorem run_same : (((expectingCase "B" "same").run (namesBench answerCases)).outcome (namesHost ["B", "C"])).1 =
    .ok () := by
  obtain ⟨normal, first, last⟩ := normalize_same
  rw [expectingCase, run_of_compiled (g := ClassFile.compiled.bytes) (w := ClassFile.rearranged.bytes)
    (by decide +kernel), TestCase.compareClasses, first, last]
  exact if_pos rfl

/-- The second case fails, since what is expected cannot be compiled. -/
theorem run_other : (((expectingCase "C" "other").run (namesBench answerCases)).outcome (namesHost ["B", "C"])).1 =
    .error (.compile .expected) := by decide +kernel

/-- What there is to be found on the host. -/
theorem items_twoFiles {d : Discovery} {verdict : Location → Except DiscoveryError (Option TestCase)}
    {log : Location → List CompilerCall}
    (started : (Discovery.start (namesBench answerCases) ⟨"/src"⟩).outcome (namesHost ["B", "C"]) =
      (.ok d, namesHost ["B", "C"]))
    (course : Discovery.Course (namesBench answerCases) ⟨"/src"⟩ (namesHost ["B", "C"]) d verdict log) :
    Discovery.itemsOf verdict d.pending = [.ok (expectingCase "B" "same"), .ok (expectingCase "C" "other")] := by
  have first : verdict ["B.java"] = .ok (some (expectingCase "B" "same")) := course.verdict_eq (by decide +kernel)
  have last : verdict ["C.java"] = .ok (some (expectingCase "C" "other")) := course.verdict_eq (by decide +kernel)
  have pending : d.pending = [["B.java"], ["C.java"]] := by
    rw [Discovery.start_outcome] at started
    cases started
    rfl
  rw [pending, Discovery.itemsOf_cons_some first, Discovery.itemsOf_cons_some last, Discovery.itemsOf]

/-- The first case passes, and the second one fails. -/
theorem outcomes_twoFiles {summary : Summary} (entries : List.Forall₂ (Entry {} (namesBench answerCases)
      (ContentCompiler.call answerCases) (namesHost ["B", "C"]))
      [expectingCase "B" "same", expectingCase "C" "other"] summary.results) (tally : Tally summary) :
    summary.results.map (·.outcome.isPassed) = [true, false] ∧ summary.exitCode = 1 := by
  have notSkipped {c : TestCase} {result : CaseResult} (entry : Entry {} (namesBench answerCases)
      (ContentCompiler.call answerCases) (namesHost ["B", "C"]) c result) : result.outcome.isSkipped = false := by
    refine Bool.eq_false_iff.mpr fun skipped => ?_
    obtain ⟨part, filter, _⟩ := entry.skipped.mp skipped
    cases filter
  generalize results : summary.results = list at entries
  cases entries with
  | @cons _ first _ _ entry rest =>
    cases rest with
    | @cons _ last _ _ entry' rest =>
      cases rest
      have passed : first.outcome.isPassed = true := entry.passed.mpr ⟨notSkipped entry, run_same⟩
      have failed : last.outcome.isFailed = true := entry'.failed.mpr ⟨notSkipped entry', _, run_other⟩
      have notPassed : last.outcome.isPassed = false := by
        refine Bool.eq_false_iff.mpr fun passed => ?_
        cases run_other.symm.trans (entry'.passed.mp passed).2
      refine ⟨by rw [List.map_cons, List.map_singleton, passed, notPassed], tally.someFailed.mpr ⟨last, ?_, failed⟩⟩
      rw [results]
      exact List.mem_cons_of_mem _ List.mem_cons_self

/-- With that bench two cases are found on a host with two sources. One passes and one fails, one after the other and
when they are run in turns. -/
theorem run_report_twoFiles :
    let host := namesHost ["B", "C"]
    let cases := [expectingCase "B" "same", expectingCase "C" "other"]
    host.disk.tree.WellFormed ∧ Discovery.Finds (namesBench answerCases) ⟨"/src"⟩ host (.ok cases) ∧
      (∃ summary later, (run {} (namesBench answerCases) ⟨"/src"⟩).outcome host = (.ok summary, later) ∧
        List.Forall₂ (Entry {} (namesBench answerCases) (ContentCompiler.call answerCases) host) cases summary.results ∧
        summary.results.map (·.outcome.isPassed) = [true, false] ∧ summary.exitCode = 1) ∧
      ∃ others summary later, runOn {} (namesBench answerCases) (ContentCompiler.call answerCases)
          (some (turns ++ others)) ⟨"/src"⟩ host = some (.ok summary, later) ∧
        List.Forall₂ (Entry {} (namesBench answerCases) (ContentCompiler.call answerCases) host) cases summary.results ∧
        summary.results.map (·.outcome.isPassed) = [true, false] ∧ summary.exitCode = 1 := by
  intro host cases
  have wf : host.disk.tree.WellFormed := rfl
  have content : (namesBench answerCases).compiler = ContentCompiler.ofAnswers answerCases := rfl
  obtain ⟨found, finds, reports, inTurn, finish⟩ := run_report content wf {} ⟨"/src"⟩
  obtain ⟨others, result, later, scheduled⟩ := finish turns
  have all : found = .ok cases := by
    cases finds with
    | refused refused =>
      rw [Discovery.start_outcome] at refused
      cases refused
    | fault started course items =>
      have last := congrArg List.getLast? ((items_twoFiles started course).symm.trans items)
      rw [List.getLast?_concat] at last
      cases last
    | all started course items =>
      have same : cases.map Except.ok = _ := (items_twoFiles started course).symm.trans items
      have injective : Function.Injective (Except.ok : TestCase → Except DiscoveryError TestCase) :=
        fun _ _ => Except.ok.inj
      exact congrArg Except.ok (List.map_injective_iff.mpr injective same).symm
  subst all
  have tells {result : Except DiscoveryError Summary} {left : Host}
      (report : Reports {} (namesBench answerCases) (ContentCompiler.call answerCases) host (.ok cases) result left) :
      ∃ summary, result = .ok summary ∧
        List.Forall₂ (Entry {} (namesBench answerCases) (ContentCompiler.call answerCases) host) cases summary.results ∧
        summary.results.map (·.outcome.isPassed) = [true, false] ∧ summary.exitCode = 1 := by
    obtain ⟨summary, same, entries, tally⟩ := report.entries cases rfl
    exact ⟨summary, same, entries, outcomes_twoFiles entries tally⟩
  obtain ⟨summary, same, inTurn'⟩ := tells (reports _ _ _ inTurn)
  obtain ⟨summary', rfl, scheduled'⟩ := tells (reports _ _ _ scheduled)
  exact ⟨wf, finds, ⟨summary, _, Prod.ext same rfl, inTurn'⟩, others, summary', later, scheduled, scheduled'⟩

end Runner

end ProcessorBench
