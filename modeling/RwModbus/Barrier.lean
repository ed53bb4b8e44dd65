import RwModbus.SingleRun

/-!
# The barrier of `stop`

`stop` takes the mutex of every task before it clears the task vector. That waits
for threads which are inside a task, but a thread which has still to enter holds
nothing: `stop` passes it by, and it enters a task that is gone. If each thread of
a task has entered when `stop` takes the task's mutex, none is left at the end.
-/
namespace RwModbus.Scheduler

/-- `stop` has taken the task's mutex. -/
def StopPc.Passed (i : ℕ) : StopPc → Prop
  | .locking j => i < j
  | .unlocking _ | .clearing | .releasing => True
  | .begin | .lockScheduler | .done => False

theorem StopPc.Passed.holdsScheduler {i : ℕ} {pc : StopPc} (h : pc.Passed i) :
    pc.holdsScheduler = true := by
  cases pc <;> first | rfl | exact h.elim

/-- When the task vector is cleared no thread is inside a task or has still to enter. -/
def SafeClear (s : Schedule) : Prop := s.stop = .clearing → ∀ r ∈ s.runs, ¬ r.Outstanding

/-- When `stop` takes the mutex of a task, every thread of the task has entered. -/
def Entered (s : Schedule) (e : Event) : Prop :=
  e = .move .stop → ∀ m ∈ s.wants .stop, s.mux m = none →
    ∀ r ∈ s.runs, .task r.task = m → ¬ r.Pending

instance (s : Schedule) (e : Event) : Decidable (Entered s e) := inferInstanceAs (Decidable (_ → _))

/-- The local copies of the number of tasks against `n`, the tasks scheduled; the
vector keeps its size until it is cleared. -/
structure Scheduled (n : ℕ) (s : Schedule) : Prop where
  locks : Locks s
  runTask : ∀ r ∈ s.runs, r.task < n
  tasks : s.tasks ≤ n
  size : s.stop ≠ .releasing → s.stop ≠ .done → s.tasks = n
  stopNb : s.stop.holdsScheduler = true → s.stopNb = n
  cycleNb : s.cycleNb ≤ n

/-- The threads of tasks that `stop` has passed are finished. -/
structure Barrier (n : ℕ) (s : Schedule) : Prop extends Scheduled n s where
  passed : ∀ r ∈ s.runs, s.stop.Passed r.task → ¬ r.Outstanding

section
variable {interval : ℕ → Millis} {n : ℕ} {s s' : Schedule}

theorem start_scheduled {earlier : List ℕ} (h : ∀ i ∈ earlier, i < n) :
    Scheduled n (start n earlier) := by
  constructor
  · exact start_locks n earlier
  · simpa [start] using h
  · exact le_rfl
  · exact fun _ _ => rfl
  · simp [start, StopPc.holdsScheduler]
  · exact Nat.zero_le n

theorem start_barrier {earlier : List ℕ} (h : ∀ i ∈ earlier, i < n) :
    Barrier n (start n earlier) :=
  ⟨start_scheduled h, fun _ _ hp => hp.elim⟩

theorem Barrier.safeClear (h : Barrier n s) : SafeClear s := fun hpc r hr =>
  h.passed r hr (by rw [hpc]; trivial)

/-- What the cycle leaves to `stop`. -/
theorem cycleStep_frame (hs : cycleStep interval s = some s') :
    s'.stop = s.stop ∧ s'.stopNb = s.stopNb ∧ s'.tasks = s.tasks ∧
      (s'.cycleNb = s.cycleNb ∨ s'.cycleNb = s.tasks) := by
  cases hpc : s.cycle <;> simp only [cycleStep, hpc] at hs <;> (try split_ifs at hs) <;> cases hs <;>
    simp [Schedule.lock, Schedule.unlock, Schedule.spawn]

theorem runStep_frame {k : ℕ} (hs : runStep k s = some s') :
    s'.stop = s.stop ∧ s'.stopNb = s.stopNb ∧ s'.tasks = s.tasks ∧ s'.cycleNb = s.cycleNb := by
  unfold runStep at hs
  split at hs
  · split at hs <;> (try split_ifs at hs) <;> cases hs <;> exact ⟨rfl, rfl, rfl, rfl⟩
  · cases hs

/-- While `stop` is sweeping, the cycle is before or behind its loop. -/
theorem Locks.not_passed (h : Locks s) (hcycle : s.cycle.holdsScheduler = true) (i : ℕ) :
    ¬ s.stop.Passed i := by
  intro hpassed
  have hstop : s.Holds .stop .scheduler := hpassed.holdsScheduler
  have heq := Mutexes.Owned.unique h (m := .scheduler) (t := .cycle) hcycle hstop
  exact Thread.noConfusion heq

/-- A step of the cycle adds at most one thread, of a task it has yet to check. -/
theorem cycleStep_runs (hs : cycleStep interval s = some s') :
    s'.runs = s.runs ∨ ∃ i, s.cycle = .check i ∧ i < s.cycleNb ∧ s.isRunning = true ∧
      s'.runs = s.runs ++ [⟨i, .spawned⟩] := by
  cases cycleStep_effect hs with
  | nothing hsame => exact .inl hsame.runs
  | spawn i _ hpc hlt hspawn hsame =>
      exact .inr ⟨i, hpc, hlt, (spawns_iff.mp hspawn).2.2, hsame.runs⟩
  | enter k i ht => cases ht
  | start k i ht => cases ht
  | finish k i ht => cases ht

theorem Scheduled.cycleStep (h : Scheduled n s) (hs : cycleStep interval s = some s') :
    Scheduled n s' := by
  obtain ⟨hstop, hstopNb, htasks, hcycleNb⟩ := cycleStep_frame hs
  constructor
  · exact h.locks.cycleStep hs
  · rcases cycleStep_runs hs with hruns | ⟨i, -, hlt, -, hruns⟩
    · rw [hruns]
      exact h.runTask
    · intro r hr
      rw [hruns, List.mem_append, List.mem_singleton] at hr
      rcases hr with hr | rfl
      · exact h.runTask r hr
      · exact hlt.trans_le h.cycleNb
  · simpa only [htasks] using h.tasks
  · simpa only [hstop, htasks] using h.size
  · simpa only [hstop, hstopNb] using h.stopNb
  · rcases hcycleNb with hnb | hnb <;> rw [hnb]
    · exact h.cycleNb
    · exact h.tasks

theorem Barrier.cycleStep (h : Barrier n s) (hs : cycleStep interval s = some s') :
    Barrier n s' := by
  refine ⟨h.toScheduled.cycleStep hs, ?_⟩
  rw [(cycleStep_frame hs).1]
  rcases cycleStep_runs hs with hruns | ⟨i, hpc, -, -, -⟩
  · rw [hruns]
    exact h.passed
  · exact fun r _ hp => absurd hp (h.locks.not_passed (by rw [hpc]; rfl) r.task)

/-- A thread that goes on was outstanding before. -/
theorem outstanding_before {k : ℕ} {r : TaskRun} (hrun : s.runs[k]? = some r) (hr : r.Outstanding)
    {p : Phase} (hruns : ∀ l, s'.runs[l]? = if l = k then some { r with phase := p } else s.runs[l]?) :
    ∀ q ∈ s'.runs, ∃ q₀ ∈ s.runs, q₀.task = q.task ∧ (q.Outstanding → q₀.Outstanding) := by
  intro q hq
  obtain ⟨l, hl⟩ := List.mem_iff_getElem?.mp hq
  rw [hruns] at hl
  split_ifs at hl with hlk
  · cases hl
    exact ⟨r, List.mem_iff_getElem?.mpr ⟨k, hrun⟩, rfl, fun _ => hr⟩
  · exact ⟨q, List.mem_iff_getElem?.mpr ⟨l, hl⟩, rfl, id⟩

theorem runStep_outstanding {k : ℕ} (hs : runStep k s = some s') :
    ∀ q ∈ s'.runs, ∃ q₀ ∈ s.runs, q₀.task = q.task ∧ (q.Outstanding → q₀.Outstanding) := by
  have heffect : Effect (fun _ => 0) s (.run k) s' := runStep_effect hs
  cases heffect with
  | nothing hsame =>
      rw [hsame.runs]
      exact fun q hq => ⟨q, hq, rfl, id⟩
  | spawn i ht => cases ht
  | enter k i _ hrun hsame =>
      rw [hsame.runs]
      exact outstanding_before hrun (by simp [TaskRun.Outstanding]) (setPhase_runs hrun .waiting)
  | start k i _ hrun _ hsame =>
      rw [hsame.runs]
      exact outstanding_before hrun (by simp [TaskRun.Outstanding]) (startRun_runs hrun)
  | finish k i _ hrun hsame =>
      rw [hsame.runs]
      exact outstanding_before hrun (by simp [TaskRun.Outstanding]) (finishRun_runs hrun)

theorem Scheduled.runStep {k : ℕ} (h : Scheduled n s) (hs : runStep k s = some s') :
    Scheduled n s' := by
  obtain ⟨hstop, hstopNb, htasks, hcycleNb⟩ := runStep_frame hs
  constructor
  · exact h.locks.runStep hs
  · intro q hq
    obtain ⟨q₀, hq₀, htask, -⟩ := runStep_outstanding hs q hq
    exact htask ▸ h.runTask q₀ hq₀
  · simpa only [htasks] using h.tasks
  · simpa only [hstop, htasks] using h.size
  · simpa only [hstop, hstopNb] using h.stopNb
  · simpa only [hcycleNb] using h.cycleNb

theorem Barrier.runStep {k : ℕ} (h : Barrier n s) (hs : runStep k s = some s') : Barrier n s' := by
  refine ⟨h.toScheduled.runStep hs, fun q hq hpassed hout => ?_⟩
  obtain ⟨q₀, hq₀, htask, hout₀⟩ := runStep_outstanding hs q hq
  rw [(runStep_frame hs).1, ← htask] at hpassed
  exact h.passed q₀ hq₀ hpassed (hout₀ hout)

/-- A task whose mutex is free has no thread inside it. -/
theorem Locks.pending_of_free (h : Locks s) {r : TaskRun} (hr : r ∈ s.runs)
    (hfree : s.mux (.task r.task) = none) (hout : r.Outstanding) : r.Pending := by
  obtain ⟨i, phase⟩ := r
  cases phase with
  | spawned => exact .inl rfl
  | waiting => exact .inr rfl
  | running =>
      obtain ⟨k, hk⟩ := List.mem_iff_getElem?.mp hr
      exact absurd hk (Mutexes.Owned.not_holds h hfree (.run k))
  | finished => exact absurd rfl hout

theorem Scheduled.stopStep (h : Scheduled n s) (hs : stopStep s = some s') : Scheduled n s' := by
  have hlocks := h.locks.stopStep hs
  cases hpc : s.stop with
  | begin =>
      have htasks := h.size (by simp [hpc]) (by simp [hpc])
      simp only [Scheduler.stopStep, hpc] at hs
      cases hs
      exact ⟨hlocks, h.runTask, h.tasks, fun _ _ => htasks, by simp [StopPc.holdsScheduler],
        h.cycleNb⟩
  | lockScheduler =>
      have htasks := h.size (by simp [hpc]) (by simp [hpc])
      simp only [Scheduler.stopStep, hpc] at hs
      split_ifs at hs
      cases hs
      exact ⟨hlocks, h.runTask, h.tasks, fun _ _ => htasks, fun _ => htasks, h.cycleNb⟩
  | locking i =>
      have htasks := h.size (by simp [hpc]) (by simp [hpc])
      have hnb := h.stopNb (by simp [hpc, StopPc.holdsScheduler])
      simp only [Scheduler.stopStep, hpc] at hs
      split_ifs at hs <;> cases hs <;>
        exact ⟨hlocks, h.runTask, h.tasks, fun _ _ => htasks, fun _ => hnb, h.cycleNb⟩
  | unlocking i =>
      have htasks := h.size (by simp [hpc]) (by simp [hpc])
      have hnb := h.stopNb (by simp [hpc, StopPc.holdsScheduler])
      simp only [Scheduler.stopStep, hpc] at hs
      split_ifs at hs <;> cases hs <;>
        exact ⟨hlocks, h.runTask, h.tasks, fun _ _ => htasks, fun _ => hnb, h.cycleNb⟩
  | clearing =>
      have hnb := h.stopNb (by simp [hpc, StopPc.holdsScheduler])
      simp only [Scheduler.stopStep, hpc] at hs
      cases hs
      exact ⟨hlocks, h.runTask, Nat.zero_le n, fun hne => absurd rfl hne, fun _ => hnb, h.cycleNb⟩
  | releasing =>
      simp only [Scheduler.stopStep, hpc] at hs
      cases hs
      exact ⟨hlocks, h.runTask, h.tasks, fun _ hne => absurd rfl hne,
        by simp [StopPc.holdsScheduler], h.cycleNb⟩
  | done => simp [Scheduler.stopStep, hpc] at hs

theorem stopStep_runs (hs : stopStep s = some s') : s'.runs = s.runs := (stopStep_same hs).runs

/-- What a step of `stop` has passed was passed before, or is the task whose free mutex
it has taken, or is no task at all. -/
theorem stopStep_passed (hs : stopStep s = some s') {i : ℕ} (hp : s'.stop.Passed i) :
    s.stop.Passed i ∨ (s.wants .stop = some (.task i) ∧ s.mux (.task i) = none) ∨
      (s.stop.holdsScheduler = true ∧ s.stopNb ≤ i) := by
  cases hpc : s.stop with
  | locking j =>
      simp only [Scheduler.stopStep, hpc] at hs
      split_ifs at hs with hlt hfree
      · cases hs
        rcases Nat.lt_succ_iff_lt_or_eq.mp hp with hp | rfl
        · exact .inl hp
        · exact .inr (.inl ⟨by simp [Schedule.wants, hpc, hlt], hfree.2⟩)
      · cases hs
        by_cases hij : i < j
        · exact .inl hij
        · exact .inr (.inr ⟨rfl, by omega⟩)
  | lockScheduler =>
      simp only [Scheduler.stopStep, hpc] at hs
      split_ifs at hs
      cases hs
      exact absurd hp (Nat.not_lt_zero i)
  | begin =>
      simp only [Scheduler.stopStep, hpc] at hs
      cases hs
      exact hp.elim
  | unlocking j => exact .inl trivial
  | clearing => exact .inl trivial
  | releasing => exact .inl trivial
  | done => simp [Scheduler.stopStep, hpc] at hs

theorem Barrier.stopStep (h : Barrier n s) (hs : stopStep s = some s')
    (hentered : Entered s (.move .stop)) : Barrier n s' := by
  refine ⟨h.toScheduled.stopStep hs, ?_⟩
  rw [stopStep_runs hs]
  intro r hr hp
  rcases stopStep_passed hs hp with hp | ⟨hwant, hfree⟩ | ⟨hheld, hge⟩
  · exact h.passed r hr hp
  · exact fun hout => hentered rfl _ hwant hfree r hr rfl (h.locks.pending_of_free hr hfree hout)
  · have htask := h.runTask r hr
    have hnb := h.stopNb hheld
    omega

theorem Scheduled.step (h : Scheduled n s) (e : Event) : Scheduled n (step interval s e) := by
  refine step_cases e (fun _ _ => ?_) h fun t s' _ hs => ?_
  · exact ⟨h.locks, h.runTask, h.tasks, h.size, h.stopNb, h.cycleNb⟩
  · cases t with
    | cycle => exact h.cycleStep hs
    | stop => exact h.stopStep hs
    | run k => exact h.runStep hs

theorem Barrier.step (h : Barrier n s) (e : Event) (hentered : Entered s e) :
    Barrier n (step interval s e) := by
  refine step_cases e (fun _ _ => ?_) h fun t s' he hs => ?_
  · exact ⟨⟨h.locks, h.runTask, h.tasks, h.size, h.stopNb, h.cycleNb⟩, h.passed⟩
  · subst he
    cases t with
    | cycle => exact h.cycleStep hs
    | stop => exact h.stopStep hs hentered
    | run k => exact h.runStep hs

/-- In every run in which the threads of a task have entered when `stop` takes the
task's mutex, the clearing is safe. -/
theorem along_safeClear (n : ℕ) (es : List Event)
    (h : Runs.Along (step interval) Entered (start n []) es) :
    SafeClear (Runs.run (step interval) (start n []) es) := by
  have hinv : Barrier n (Runs.run (step interval) (start n []) es) :=
    h.invariant (fun _ e hs hok => hs.step e hok) (start_barrier (by simp))
  exact hinv.safeClear

end

/-- The cycle spawns a thread of the one task, `stop` is called, and the cycle
leaves its loop, sweeps and finishes. The rest happens in between. -/
def spawnThenStop (rest : List Event) : List Event :=
  [.move .cycle, .move .cycle, .tick 100, .move .cycle, .move .stop] ++ rest ++
    List.replicate 7 (.move .cycle) ++ List.replicate 5 (.move .stop)

/-- The thread enters and finishes before the sweeps. -/
theorem along_safeClear_finished : SafeClear (Runs.run (step fun _ => 20) (start 1 [])
    (spawnThenStop (List.replicate 3 (.move (.run 0))))) :=
  along_safeClear 1 _ (by decide)

/-- The thread does nothing yet: it is still to enter when the tasks are cleared. -/
theorem safeClear_fails : ¬ ∀ (interval : ℕ → Millis) (n : ℕ) (es : List Event),
    SafeClear (Runs.run (step interval) (start n []) es) := by
  intro h
  exact h (fun _ => 20) 1 (spawnThenStop []) (by decide) ⟨0, .spawned⟩ (by decide) (by decide)

end RwModbus.Scheduler
