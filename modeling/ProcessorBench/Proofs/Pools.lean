import Mathlib.Algebra.BigOperators.Group.Finset.Basic
import Mathlib.Algebra.Order.BigOperators.Group.Finset
import ProcessorBench.Proofs.Tracking

/-!
# Pools

All jobs of a pool are tracked, whichever of them takes the next step (`Pool.Runs.after`). So each of them gives in
the end what it gives alone (`Pool.agree`), and wherever some moves have led, others lead on to the end
(`Pool.exists_finish`).
-/

namespace ProcessorBench

/-- A job has a value if it is done. -/
theorem Job.value?_eq_some {α : Type} {job : Job Empty α} {a : α} :
    job.value? = some a ↔ job = .done (.ok a) := by
  rcases job with (_ | _) | _ | _ <;> simp [value?]

namespace Pool

variable {α : Type} {h : Host} {Q : Except Empty α → Except Empty α → Prop} {own : List (Except Empty α)}
  {p : Pool α} {sites : Nat → Option Site} {left : Nat → Nat} {s₀ : Site}

/-- The jobs of a pool are tracked, their workspaces are at different places, and nothing has been made elsewhere. -/
structure Runs (h : Host) (Q : Except Empty α → Except Empty α → Prop) (own : List (Except Empty α))
    (p : Pool α) (sites : Nat → Option Site) (left : Nat → Nat) : Prop where
  shares : h.Shares p.host
  size : p.workers.length = own.length
  tracks (n : Nat) (job : Job Empty α) (r : Except Empty α) : p.workers[n]? = some job →
    own[n]? = some r → job.Tracks h Q r (left n) p.host.disk (sites n)
  apart (n m : Nat) : n ≠ m → n < own.length → m < own.length →
    ∀ s ∈ sites n, ∀ s' ∈ sites m, s.location ≠ s'.location
  made (l : Location) : (p.host.disk.tree.at? l).isSome = true → (h.disk.tree.at? l).isSome = true ∨
    ∃ n < own.length, ∃ s ∈ sites n, s.location <+: l

/-- Each worker of a pool keeps track of its own site. -/
theorem Runs.exists_tracks (runs : Runs h Q own p sites left) {n : Nat} (inside : n < own.length) :
    ∃ job, p.workers[n]? = some job ∧ job.Tracks h Q own[n] (left n) p.host.disk (sites n) := by
  have inside' : n < p.workers.length := runs.size ▸ inside
  have has : p.workers[n]? = some p.workers[n] := List.getElem?_eq_getElem inside'
  exact ⟨_, has, runs.tracks n _ _ has (List.getElem?_eq_getElem inside)⟩

/-- A pool in which one job has taken a step that has spared the others. -/
theorem Runs.set (runs : Runs h Q own p sites left) {n : Nat} (inside : n < own.length) {job : Job Empty α}
    {H : Host} {site : Option Site} {count : Nat} (shares : h.Shares H)
    (tracks : job.Tracks h Q own[n] count H.disk site)
    (spares : Job.Spares h.disk.tree (sites n) site p.host.disk H.disk) :
    Runs h Q own ⟨H, p.workers.set n job⟩ (Function.update sites n site) (Function.update left n count) := by
  have other (m : Nat) (ne : m ≠ n) (inside' : m < own.length) :
      ∀ s ∈ sites m, s.base = h.disk.tree ∧ (∃ t, s.Holds p.host.disk t) ∧
        ∀ u ∈ sites n, u.location ≠ s.location := by
    intro s mem
    obtain ⟨_, _, tracked⟩ := runs.exists_tracks inside'
    obtain ⟨base, holds⟩ := tracked.holds s mem
    exact ⟨base, holds, fun u mem' => runs.apart n m ne.symm inside inside' u mem' s mem⟩
  have apart (m : Nat) (ne : m ≠ n) (inside' : m < own.length) :
      ∀ s ∈ sites m, ∀ u ∈ site, u.location ≠ s.location := by
    intro s mem
    obtain ⟨base, ⟨t, holds⟩, elsewhere⟩ := other m ne inside' s mem
    exact spares.apart s t base elsewhere holds
  refine ⟨shares, by rw [List.length_set]; exact runs.size, ?_, ?_, ?_⟩
  -- The job that has taken the step is tracked, and so are those that have been spared.
  · intro m job' r has own'
    by_cases ne : m = n
    · subst ne
      rw [List.getElem?_set_self (runs.size ▸ inside)] at has
      rw [List.getElem?_eq_getElem inside] at own'
      cases has
      cases own'
      rw [Function.update_self, Function.update_self]
      exact tracks
    · rw [List.getElem?_set_ne (Ne.symm ne)] at has
      rw [Function.update_of_ne ne, Function.update_of_ne ne]
      obtain ⟨inside', _⟩ := List.getElem?_eq_some_iff.mp own'
      refine (runs.tracks m job' r has own').frame fun s mem t base holds => ?_
      exact spares.holds s t base (other m ne inside' s mem).2.2 holds
  -- No two jobs have their workspaces at one place.
  · intro m m' ne insideₘ insideₘ'
    by_cases first : m = n
    · subst first
      rw [Function.update_self, Function.update_of_ne ne.symm]
      exact fun u mem s mem' => apart m' ne.symm insideₘ' s mem' u mem
    · rw [Function.update_of_ne first]
      by_cases second : m' = n
      · subst second
        rw [Function.update_self]
        exact fun s mem u mem' => (apart m first insideₘ s mem u mem').symm
      · rw [Function.update_of_ne second]
        exact runs.apart m m' ne insideₘ insideₘ'
  -- What there is now was there at first, or is in a workspace.
  · intro l has
    rcases spares.made l has with there | ⟨u, mem, below⟩ | ⟨outside, has⟩
    · exact .inl there
    · exact .inr ⟨n, inside, u, by rwa [Function.update_self], below⟩
    · rcases runs.made l has with there | ⟨m, inside', s, mem, below⟩
      · exact .inl there
      · have ne : m ≠ n := by
          rintro rfl
          exact outside s mem below
        exact .inr ⟨m, inside', s, by rwa [Function.update_of_ne ne], below⟩

/-- **A move** of a pool whose jobs are tracked. -/
theorem Runs.step (room : h.Room s₀) (wf : h.disk.tree.WellFormed) (runs : Runs h Q own p sites left)
    (m : PoolMove) : ∃ sites' left', Runs h Q own (p.step m) sites' left' ∧
      (∀ n ≠ m.worker, left' n = left n) ∧
      ∀ job, p.workers[m.worker]? = some job →
        job.Waits (Workspace.nameOf m.number) p.host ∨ left' m.worker < left m.worker := by
  unfold Pool.step
  cases has : p.workers[m.worker]? with
  | none => exact ⟨sites, left, runs, fun _ _ => rfl, nofun⟩
  | some job =>
    obtain ⟨inside, _⟩ := List.getElem?_eq_some_iff.mp has
    have inside : m.worker < own.length := runs.size ▸ inside
    obtain ⟨site, count, shares, tracks, spares, fewer⟩ := (runs.tracks _ _ _ has
      (List.getElem?_eq_getElem inside)).step room wf runs.shares m.number
    refine ⟨_, _, runs.set inside shares tracks spares, fun n ne => Function.update_of_ne ne _ _, ?_⟩
    rintro _ ⟨⟩
    rw [Function.update_self]
    exact fewer

/-- **A pool runs as its jobs would alone**, after any moves. -/
theorem Runs.after (room : h.Room s₀) (wf : h.disk.tree.WellFormed) (runs : Runs h Q own p sites left)
    (moves : List PoolMove) : ∃ sites' left', Runs h Q own (p.after moves) sites' left' := by
  induction moves generalizing p sites left with
  | nil => exact ⟨sites, left, runs⟩
  | cons m moves ih =>
    obtain ⟨sites', left', runs', _⟩ := runs.step room wf m
    exact ih runs'

/-- Similar jobs that begin on a host with nothing on it that was not there at first. -/
theorem runs_start {H : Host} (shares : h.Shares H) (disk : H.disk = h.disk) {jobs : List (Job Empty α)}
    (similar : ∀ job ∈ jobs, Job.Similar h.disk.tree Q none job job) :
    ∃ left, Runs h Q (jobs.map fun job => (job.run.outcome h).1) ⟨H, jobs⟩ (fun _ => none) left := by
  refine ⟨fun n => (jobs[n]?.map (·.length h)).getD 0, shares, (List.length_map _).symm, ?_, nofun, ?_⟩
  · intro n job r has own
    have has : jobs[n]? = some job := has
    rw [List.getElem?_map, has] at own
    cases own
    rw [has]
    exact Job.tracks_self (similar job (List.mem_of_getElem? has)) H.disk
  · intro l has
    rw [← disk]
    exact .inl has

/-! ## Results -/

/-- There are values when all jobs are done. -/
theorem values?_eq_some {vs : List α} : p.values? = some vs ↔ p.workers = vs.map fun v => .done (.ok v) := by
  obtain ⟨H, workers⟩ := p
  show workers.mapM Job.value? = some vs ↔ workers = _
  induction workers generalizing vs with
  | nil => cases vs <;> simp
  | cons job workers ih =>
    simp only [List.mapM_cons, Option.bind_eq_bind, Option.bind_eq_some_iff, Job.value?_eq_some,
      Option.pure_def, Option.some.injEq, ih]
    cases vs with
    | nil => simp
    | cons v vs => simp

/-- **Jobs in any order**: when all of them are done, each has given what it gives alone. -/
theorem agree {H : Host} (room : h.Room s₀) (wf : h.disk.tree.WellFormed) (shares : h.Shares H)
    (disk : H.disk = h.disk) {jobs : List (Job Empty α)}
    (similar : ∀ job ∈ jobs, Job.Similar h.disk.tree Q none job job) (moves : List PoolMove) {vs : List α}
    (given : ((⟨H, jobs⟩ : Pool α).after moves).values? = some vs) :
    List.Forall₂ (fun job v => Q (.ok v) (job.run.outcome h).1) jobs vs := by
  obtain ⟨_, start⟩ := runs_start shares disk similar
  obtain ⟨_, _, runs⟩ := start.after room wf moves
  have done := values?_eq_some.mp given
  have size := runs.size
  rw [done, List.length_map, List.length_map] at size
  refine List.forall₂_iff_get.mpr ⟨size.symm, fun n inside inside' => ?_⟩
  refine (runs.tracks n (.done (.ok (vs.get ⟨n, inside'⟩))) _ ?_ ?_).done
  · rw [done, List.getElem?_map, List.getElem?_eq_getElem inside']
    rfl
  · rw [List.getElem?_map, List.getElem?_eq_getElem inside]
    rfl

/-! ## No deadlock -/

/-- While a job is not done, one of them can take a step. -/
theorem Runs.exists_move (room : h.Room s₀) (wf : h.disk.tree.WellFormed) (runs : Runs h Q own p sites left)
    {n : Nat} {job : Job Empty α} (has : p.workers[n]? = some job) (busy : ∀ r, job ≠ .done r) :
    ∃ (m : PoolMove) (next : Job Empty α), p.workers[m.worker]? = some next ∧
      ¬ next.Waits (Workspace.nameOf m.number) p.host := by
  by_contra stuck
  have waits (number n : Nat) (job : Job Empty α) (has : p.workers[n]? = some job) :
      job.Waits (Workspace.nameOf number) p.host := by
    by_contra free
    exact stuck ⟨⟨n, number⟩, job, has, free⟩
  -- Nobody has a workspace then, so that there is a name for another one.
  have outside (n : Nat) (inside : n < own.length) : sites n = none := by
    obtain ⟨job, has, tracks⟩ := runs.exists_tracks inside
    exact tracks.outside (waits 0 n job has)
  obtain ⟨number, free⟩ := room.exists_number wf runs.shares fun l has => by
    rcases runs.made l has with there | ⟨n, inside, s, mem, _⟩
    · exact there
    · rw [outside n inside] at mem
      cases mem
  have here := waits number n job has
  cases job with
  | done r => exact busy r rfl
  | act => exact here
  | reserve => exact Bool.false_ne_true (free.symm.trans here)

/-- If all jobs are done, there are results. -/
theorem exists_values (done : ∀ job ∈ p.workers, ∃ r, job = .done r) : ∃ vs, p.values? = some vs := by
  obtain ⟨H, workers⟩ := p
  simp only [values?_eq_some]
  induction workers with
  | nil => exact ⟨[], rfl⟩
  | cons job workers ih =>
    obtain ⟨⟨r, rfl⟩, rest⟩ := List.forall_mem_cons.mp done
    obtain ⟨vs, rfl⟩ := ih rest
    cases r with
    | error e => cases e
    | ok v => exact ⟨v :: vs, rfl⟩

/-- Whatever state the jobs of a pool are in, there are moves with which all of them come to an end. -/
theorem Runs.exists_finish (room : h.Room s₀) (wf : h.disk.tree.WellFormed)
    (runs : Runs h Q own p sites left) : ∃ moves vs, (p.after moves).values? = some vs := by
  induction total : ∑ n ∈ Finset.range own.length, left n using Nat.strong_induction_on
    generalizing p sites left with
  | h count ih =>
    by_cases done : ∀ job ∈ p.workers, ∃ r, job = .done r
    · obtain ⟨vs, given⟩ := exists_values done
      exact ⟨[], vs, given⟩
    · push Not at done
      obtain ⟨job, mem, busy⟩ := done
      obtain ⟨n, has⟩ := List.mem_iff_getElem?.mp mem
      obtain ⟨m, next, has, moves⟩ := runs.exists_move room wf has busy
      obtain ⟨sites', left', runs', same, fewer⟩ := runs.step room wf m
      have less : left' m.worker < left m.worker := (fewer next has).resolve_left moves
      have inside : m.worker < own.length := by
        obtain ⟨inside, _⟩ := List.getElem?_eq_some_iff.mp has
        exact runs.size ▸ inside
      have sum : ∑ n ∈ Finset.range own.length, left' n < count := by
        rw [← total]
        refine Finset.sum_lt_sum (fun n _ => ?_) ⟨m.worker, Finset.mem_range.mpr inside, less⟩
        by_cases here : n = m.worker
        · subst here
          exact less.le
        · exact (same n here).le
      obtain ⟨moves, vs, given⟩ := ih _ sum runs' rfl
      exact ⟨m :: moves, vs, given⟩

/-- **No deadlock**: wherever some moves have led, others lead on to the end. -/
theorem exists_finish {H : Host} (room : h.Room s₀) (wf : h.disk.tree.WellFormed) (shares : h.Shares H)
    (disk : H.disk = h.disk) {jobs : List (Job Empty α)}
    (similar : ∀ job ∈ jobs, Job.Similar h.disk.tree Q none job job) (moves : List PoolMove) :
    ∃ others vs, ((⟨H, jobs⟩ : Pool α).after (moves ++ others)).values? = some vs := by
  obtain ⟨_, start⟩ := runs_start shares disk similar
  obtain ⟨_, _, runs⟩ := start.after room wf moves
  obtain ⟨others, vs, given⟩ := runs.exists_finish room wf
  refine ⟨others, vs, ?_⟩
  rw [Pool.after, List.foldl_append]
  exact given

/-! ## Jobs that are done -/

/-- A job that is done stays as it is. -/
theorem after_of_done {n : Nat} {r : Except Empty α} (has : p.workers[n]? = some (.done r))
    (moves : List PoolMove) : (p.after moves).workers[n]? = some (.done r) := by
  induction moves generalizing p with
  | nil => exact has
  | cons m moves ih =>
    apply ih
    unfold Pool.step
    cases other : p.workers[m.worker]? with
    | none => exact has
    | some job =>
      by_cases same : m.worker = n
      · subst same
        obtain ⟨inside, _⟩ := List.getElem?_eq_some_iff.mp has
        rw [has] at other
        cases other
        exact List.getElem?_set_self inside
      · exact (List.getElem?_set_ne same).trans has

/-- A job that is done takes no step. -/
theorem step_after_of_done {m : PoolMove} {r : Except Empty α} (has : p.workers[m.worker]? = some (.done r))
    (moves : List PoolMove) : (p.after moves).step m = p.after moves := by
  have has := after_of_done has moves
  obtain ⟨inside, here⟩ := List.getElem?_eq_some_iff.mp has
  unfold Pool.step
  rw [has, ← here]
  simp only [Job.step, here]
  rw [← here, List.set_getElem_self]

end Pool

end ProcessorBench
