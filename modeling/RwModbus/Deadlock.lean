import RwModbus.Barrier

/-!
# Deadlocks

Running tasks wait for nothing, the cycle waits for them only, `stop` for them
and the cycle, and everyone else may wait for all three. So waiting never comes
round. But a thread that `stop` has passed by may come to a mutex that is deleted
with its task. If none is left when the tasks are cleared, some thread can make its
next step for as long as one is unfinished.
-/
namespace RwModbus.Scheduler

/-- The thread exists and has not finished. -/
def Schedule.Unfinished (s : Schedule) : Thread → Prop
  | .cycle => s.cycle ≠ .done
  | .stop => s.stop ≠ .done
  | .run k => ∃ r, s.runs[k]? = some r ∧ r.phase ≠ .finished

/-- The task whose mutex the thread's next step locks or unlocks. -/
def Schedule.touches (s : Schedule) : Thread → Option ℕ
  | .cycle =>
      match s.cycle with
      | .locking i | .unlocking i => if i < s.cycleNb then some i else none
      | _ => none
  | .stop =>
      match s.stop with
      | .locking i | .unlocking i => if i < s.stopNb then some i else none
      | _ => none
  | .run k =>
      match s.runs[k]? with
      | some ⟨i, .waiting⟩ | some ⟨i, .running⟩ => some i
      | _ => none

/-- The thread's next step is to take a mutex that the other one holds. -/
def WaitsFor (s : Schedule) : Thread → Thread → Prop := Mutexes.WaitsFor s.mux s.wants

/-- A thread waits for threads of lower rank only. -/
def Schedule.rank (s : Schedule) : Thread → ℕ
  | .cycle => if s.cycle = .begin then 3 else 1
  | .stop => 2
  | .run k => if s.wants (.run k) = none then 0 else 3

section
variable {interval : ℕ → Millis} {s : Schedule}

/-- A thread can make its next step exactly if it is unfinished, finds the mutex that
it wants free, and does not come to a deleted one. -/
theorem threadStep_isSome_iff (t : Thread) : (threadStep interval t s).isSome ↔
    s.Unfinished t ∧ (∀ m, s.wants t = some m → s.mux m = none) ∧
      ∀ i, s.touches t = some i → i < s.tasks := by
  cases t with
  | cycle =>
      simp only [threadStep, cycleStep, Schedule.Unfinished, Schedule.wants, Schedule.touches]
      cases hpc : s.cycle <;> simp only [Schedule.free] <;> grind
  | stop =>
      simp only [threadStep, stopStep, Schedule.Unfinished, Schedule.wants, Schedule.touches]
      cases hpc : s.stop <;> simp only [Schedule.free] <;> grind
  | run k =>
      simp only [threadStep, runStep, Schedule.Unfinished, Schedule.wants, Schedule.touches]
      cases hrun : s.runs[k]? with
      | none => simp
      | some r =>
          obtain ⟨i, phase⟩ := r
          cases phase <;> simp only [Schedule.free] <;> grind

/-- The owner of a mutex is unfinished. -/
theorem Locks.unfinished (h : Locks s) {m : Mutex} {t : Thread} (hm : s.mux m = some t) :
    s.Unfinished t := by
  have hheld := (h m t).mp hm
  rcases t with _ | _ | k <;> rcases m with _ | i
  case run.scheduler => exact hheld.elim
  case run.task => exact ⟨_, hheld, by simp⟩
  all_goals
    intro hdone
    simp [Schedule.Holds, hdone, CyclePc.holdsScheduler, CyclePc.Sweeps, StopPc.holdsScheduler,
      StopPc.Sweeps] at hheld

theorem CyclePc.Sweeps.ne_begin {nb i : ℕ} {pc : CyclePc} (h : pc.Sweeps nb i) : pc ≠ .begin := by
  rintro rfl
  exact h

theorem StopPc.Sweeps.holdsScheduler {nb i : ℕ} {pc : StopPc} (h : pc.Sweeps nb i) :
    pc.holdsScheduler = true := by
  cases pc <;> first | rfl | exact h.elim

/-- A thread inside a task waits for nothing. -/
theorem rank_running {k i : ℕ} (h : s.runs[k]? = some ⟨i, .running⟩) : s.rank (.run k) = 0 := by
  simp [Schedule.rank, Schedule.wants, h]

theorem rank_sweeping {nb i : ℕ} (h : s.cycle.Sweeps nb i) : s.rank .cycle = 1 := if_neg h.ne_begin

/-- The cycle waits at its begin, or for a running task in its first sweep. -/
theorem Locks.rank_lt_cycle (h : Locks s) {m : Mutex} {u : Thread} (hwant : s.wants .cycle = some m)
    (hheld : s.Holds u m) : s.rank u < s.rank .cycle := by
  cases hpc : s.cycle with
  | begin =>
      have hrank : s.rank .cycle = 3 := if_pos hpc
      obtain rfl : m = .scheduler := by simpa [Schedule.wants, hpc, eq_comm] using hwant
      rcases u with _ | _ | k
      · simp [Schedule.Holds, hpc, CyclePc.holdsScheduler] at hheld
      · rw [hrank, Schedule.rank]
        omega
      · exact hheld.elim
  | locking i =>
      have hrank : s.rank .cycle = 1 := if_neg (by simp [hpc])
      obtain ⟨hlt, rfl⟩ : i < s.cycleNb ∧ m = .task i := by
        simpa [Schedule.wants, hpc, eq_comm] using hwant
      rcases u with _ | _ | k
      · simp [Schedule.Holds, hpc, CyclePc.Sweeps] at hheld
      · -- `stop` sweeps under the scheduler's mutex, which the cycle has
        have hstop : s.Holds .stop .scheduler := StopPc.Sweeps.holdsScheduler hheld
        have hcycle : s.Holds .cycle .scheduler := by
          simp [Schedule.Holds, hpc, CyclePc.holdsScheduler]
        exact absurd (h.unique hstop hcycle) (by simp)
      · rw [hrank, rank_running hheld]
        omega
  | _ => simp [Schedule.wants, hpc] at hwant

/-- `stop` waits for the cycle or for a running task. -/
theorem rank_lt_stop {m : Mutex} {u : Thread} (hwant : s.wants .stop = some m)
    (hheld : s.Holds u m) : s.rank u < s.rank .stop := by
  have hrank : s.rank .stop = 2 := rfl
  rcases u with _ | _ | k <;> rcases m with _ | i
  · have hne : s.cycle ≠ .begin := by
      rintro hpc
      simp [Schedule.Holds, hpc, CyclePc.holdsScheduler] at hheld
    rw [hrank, Schedule.rank, if_neg hne]
    omega
  · rw [hrank, rank_sweeping hheld]
    omega
  · -- it does not hold what it wants
    cases hpc : s.stop <;>
      simp [Schedule.wants, Schedule.Holds, hpc, StopPc.holdsScheduler] at hwant hheld
  · cases hpc : s.stop <;> simp [Schedule.wants, Schedule.Holds, hpc, StopPc.Sweeps] at hwant hheld
    omega
  · exact hheld.elim
  · rw [hrank, rank_running hheld]
    omega

/-- A thread that waits for its task's mutex ranks above every owner. -/
theorem rank_lt_run {k : ℕ} {m : Mutex} {u : Thread} (hwant : s.wants (.run k) = some m)
    (hheld : s.Holds u m) : s.rank u < s.rank (.run k) := by
  have hrank : s.rank (.run k) = 3 := if_neg (by rw [hwant]; simp)
  obtain ⟨i, rfl⟩ : ∃ i, m = .task i := by
    unfold Schedule.wants at hwant
    grind
  rcases u with _ | _ | l
  · rw [hrank, rank_sweeping hheld]
    omega
  · rw [hrank, Schedule.rank]
    omega
  · rw [hrank, rank_running hheld]
    omega

theorem Locks.rank_lt (h : Locks s) {t u : Thread} (hw : WaitsFor s t u) : s.rank u < s.rank t := by
  obtain ⟨m, hwant, hm⟩ := hw
  have hheld := (h m u).mp hm
  cases t with
  | cycle => exact h.rank_lt_cycle hwant hheld
  | stop => exact rank_lt_stop hwant hheld
  | run k => exact rank_lt_run hwant hheld

/-- The tasks whose mutexes the cycle may still lock or unlock, if it has them in its
count. -/
def CyclePc.Uses (i : ℕ) : CyclePc → Prop
  | .head | .check _ | .locking _ => True
  | .unlocking j => j ≤ i
  | .begin | .done => False

/-- When `stop` clears the tasks, no thread is inside one or has still to enter. -/
def Cleared (s : Schedule) (e : Event) : Prop := e = .move .stop → SafeClear s

/-- What keeps every thread off the deleted mutexes. -/
structure Alive (n : ℕ) (s : Schedule) : Prop extends Scheduled n s where
  stopped : s.stop ≠ .begin → s.isRunning = false
  swept : ∀ i, s.stop.Passed i → ¬ s.cycle.Sweeps s.cycleNb i
  uses : ∀ i < s.cycleNb, s.cycle.Uses i → i < s.tasks
  gone : s.stop = .releasing ∨ s.stop = .done → ∀ r ∈ s.runs, ¬ r.Outstanding

variable {n : ℕ} {s' : Schedule}

theorem start_alive {earlier : List ℕ} (h : ∀ i ∈ earlier, i < n) : Alive n (start n earlier) := by
  refine ⟨start_scheduled h, ?_, ?_, ?_, ?_⟩
  · exact fun hne => absurd rfl hne
  · exact fun _ hp => hp.elim
  · exact fun _ hi => absurd hi (Nat.not_lt_zero _)
  · intro hpc
    simp [start] at hpc

theorem cycleStep_isRunning (hs : cycleStep interval s = some s') : s'.isRunning = s.isRunning := by
  cases hpc : s.cycle <;> simp only [cycleStep, hpc] at hs <;> (try split_ifs at hs) <;> cases hs <;>
    rfl

theorem runStep_cycle {k : ℕ} (hs : runStep k s = some s') :
    s'.cycle = s.cycle ∧ s'.isRunning = s.isRunning := by
  unfold runStep at hs
  split at hs
  · split at hs <;> (try split_ifs at hs) <;> cases hs <;> exact ⟨rfl, rfl⟩
  · cases hs

/-- The cycle takes no task's mutex while `stop` has the scheduler's. -/
theorem cycleStep_sweeps (hs : cycleStep interval s = some s')
    (hfree : s.cycle.holdsScheduler = false) {i : ℕ} (h : s'.cycle.Sweeps s'.cycleNb i) :
    s.cycle.Sweeps s.cycleNb i := by
  cases hpc : s.cycle with
  | begin =>
      simp only [cycleStep, hpc] at hs
      split_ifs at hs
      cases hs
      exact h.elim
  | unlocking j =>
      simp only [cycleStep, hpc] at hs
      split_ifs at hs
      · cases hs
        exact ⟨Nat.le_of_succ_le h.1, h.2⟩
      · cases hs
        exact h.elim
  | done => simp [cycleStep, hpc] at hs
  | _ => simp [hpc, CyclePc.holdsScheduler] at hfree

/-- What the cycle uses after a step it used before, or has just counted. -/
theorem cycleStep_uses (hs : cycleStep interval s = some s') {i : ℕ} (hi : i < s'.cycleNb)
    (h : s'.cycle.Uses i) : (i < s.cycleNb ∧ s.cycle.Uses i) ∨ i < s.tasks := by
  cases hpc : s.cycle with
  | begin =>
      simp only [cycleStep, hpc] at hs
      split_ifs at hs
      cases hs
      exact .inr hi
  | unlocking j =>
      simp only [cycleStep, hpc] at hs
      split_ifs at hs
      · cases hs
        exact .inl ⟨hi, Nat.le_of_succ_le h⟩
      · cases hs
        exact h.elim
  | done => simp [cycleStep, hpc] at hs
  | _ =>
      simp only [cycleStep, hpc] at hs
      (try split_ifs at hs) <;> cases hs <;> exact .inl ⟨hi, trivial⟩

theorem Alive.cycleStep (h : Alive n s) (hs : cycleStep interval s = some s') : Alive n s' := by
  obtain ⟨hstop, -, htasks, -⟩ := cycleStep_frame hs
  have hrunning := cycleStep_isRunning hs
  refine ⟨h.toScheduled.cycleStep hs, ?_, ?_, ?_, ?_⟩
  · rw [hstop, hrunning]
    exact h.stopped
  · rw [hstop]
    intro i hp hsweeps
    have hfree : s.cycle.holdsScheduler = false :=
      Bool.eq_false_iff.mpr fun hheld => h.locks.not_passed hheld i hp
    exact h.swept i hp (cycleStep_sweeps hs hfree hsweeps)
  · intro i hi huses
    rw [htasks]
    rcases cycleStep_uses hs hi huses with ⟨hi, huses⟩ | hi
    · exact h.uses i hi huses
    · exact hi
  · -- after the clearing the flag keeps the cycle from spawning
    rw [hstop]
    intro hpc
    rcases cycleStep_runs hs with hruns | ⟨i, -, -, hrun, -⟩
    · rw [hruns]
      exact h.gone hpc
    · have hno := h.stopped (by rcases hpc with hpc | hpc <;> simp [hpc])
      rw [hno] at hrun
      exact Bool.noConfusion hrun

theorem Alive.runStep {k : ℕ} (h : Alive n s) (hs : runStep k s = some s') : Alive n s' := by
  obtain ⟨hstop, -, htasks, hcycleNb⟩ := runStep_frame hs
  obtain ⟨hcycle, hrunning⟩ := runStep_cycle hs
  refine ⟨h.toScheduled.runStep hs, ?_, ?_, ?_, ?_⟩
  · rw [hstop, hrunning]
    exact h.stopped
  · rw [hstop, hcycle, hcycleNb]
    exact h.swept
  · rw [hcycle, hcycleNb, htasks]
    exact h.uses
  · rw [hstop]
    intro hpc q hq hout
    obtain ⟨q₀, hq₀, -, hout₀⟩ := runStep_outstanding hs q hq
    exact h.gone hpc q₀ hq₀ (hout₀ hout)

theorem stopStep_frame (hs : stopStep s = some s') :
    s'.cycle = s.cycle ∧ s'.cycleNb = s.cycleNb ∧ (s.isRunning = false → s'.isRunning = false) ∧
      (s.stop = .begin → s'.isRunning = false) := by
  cases hpc : s.stop <;> simp only [Scheduler.stopStep, hpc] at hs <;> (try split_ifs at hs) <;>
    cases hs <;> simp [Schedule.lock, Schedule.unlock]

/-- A step of `stop` shrinks the task vector only by clearing it. -/
theorem stopStep_tasks (hs : stopStep s = some s') :
    s'.tasks = s.tasks ∨ (s.stop = .clearing ∧ s'.stop = .releasing) := by
  cases hpc : s.stop <;> simp only [Scheduler.stopStep, hpc] at hs <;> (try split_ifs at hs) <;>
    cases hs <;> simp [Schedule.lock, Schedule.unlock]

theorem stopStep_gone (hs : stopStep s = some s') (h : s'.stop = .releasing ∨ s'.stop = .done) :
    s.stop = .clearing ∨ s.stop = .releasing := by
  cases hpc : s.stop <;> simp only [Scheduler.stopStep, hpc] at hs <;> (try split_ifs at hs) <;>
    cases hs <;> simp at h ⊢

/-- When the tasks are cleared, the cycle is through with them. -/
theorem Alive.not_uses (h : Alive n s) (hpc : s.stop = .clearing) {i : ℕ} (hi : i < s.cycleNb) :
    ¬ s.cycle.Uses i := by
  intro huses
  have hpassed : s.stop.Passed i := by
    rw [hpc]
    trivial
  cases hcycle : s.cycle with
  | unlocking j =>
      rw [hcycle] at huses
      exact h.swept i hpassed (by rw [hcycle]; exact ⟨huses, hi⟩)
  | begin =>
      rw [hcycle] at huses
      exact huses
  | done =>
      rw [hcycle] at huses
      exact huses
  | _ => exact h.locks.not_passed (by rw [hcycle]; rfl) i hpassed

theorem Alive.stopStep (h : Alive n s) (hs : stopStep s = some s')
    (hclear : Cleared s (.move .stop)) : Alive n s' := by
  obtain ⟨hcycle, hcycleNb, hrunning, hbegin⟩ := stopStep_frame hs
  refine ⟨h.toScheduled.stopStep hs, ?_, ?_, ?_, ?_⟩
  · intro _
    by_cases hpc : s.stop = .begin
    · exact hbegin hpc
    · exact hrunning (h.stopped hpc)
  · rw [hcycle, hcycleNb]
    intro i hp hsweeps
    rcases stopStep_passed hs hp with hp | ⟨-, hfree⟩ | ⟨hheld, hge⟩
    · exact h.swept i hp hsweeps
    · exact Mutexes.Owned.not_holds h.locks hfree .cycle hsweeps
    · -- the cycle has counted no more tasks than `stop`
      have hlt : i < s.cycleNb := by
        cases hpc : s.cycle <;> rw [hpc] at hsweeps <;> first | exact hsweeps.2 | exact hsweeps.elim
      have hle := h.cycleNb
      have hnb := h.stopNb hheld
      omega
  · rw [hcycle, hcycleNb]
    intro i hi huses
    rcases stopStep_tasks hs with htasks | ⟨hpc, -⟩
    · rw [htasks]
      exact h.uses i hi huses
    · exact absurd huses (h.not_uses hpc hi)
  · intro hpc
    rw [stopStep_runs hs]
    rcases stopStep_gone hs hpc with hpc | hpc
    · exact hclear rfl hpc
    · exact h.gone (.inl hpc)

theorem Alive.step (h : Alive n s) (e : Event) (hclear : Cleared s e) :
    Alive n (step interval s e) := by
  refine step_cases e (fun now _ => ?_) h fun t s' he hs => ?_
  · have htick : Scheduled n (Scheduler.step interval s (.tick now)) := h.toScheduled.step _
    exact ⟨htick, h.stopped, h.swept, h.uses, h.gone⟩
  · subst he
    cases t with
    | cycle => exact h.cycleStep hs
    | stop => exact h.stopStep hs hclear
    | run k => exact h.runStep hs

/-- No unfinished thread comes to a deleted mutex. -/
theorem Alive.touches (h : Alive n s) {t : Thread} {i : ℕ} (ht : s.touches t = some i) :
    i < s.tasks := by
  cases t with
  | cycle =>
      unfold Schedule.touches at ht
      cases hpc : s.cycle <;> simp only [hpc] at ht <;> (try split_ifs at ht with hlt) <;> cases ht
      · exact h.uses i hlt (by rw [hpc]; trivial)
      · exact h.uses i hlt (by rw [hpc]; exact le_rfl)
  | stop =>
      unfold Schedule.touches at ht
      have hsize := h.size
      have hnb := h.stopNb
      cases hpc : s.stop <;> simp only [hpc] at ht <;> (try split_ifs at ht with hlt) <;> cases ht
      all_goals
        rw [hpc] at hsize hnb
        rw [hsize (by simp) (by simp), ← hnb rfl]
        exact hlt
  | run k =>
      obtain ⟨r, hr, hout, rfl⟩ : ∃ r ∈ s.runs, r.Outstanding ∧ r.task = i := by
        unfold Schedule.touches at ht
        cases hrun : s.runs[k]? with
        | none => simp [hrun] at ht
        | some r =>
            have hr : r ∈ s.runs := List.mem_iff_getElem?.mpr ⟨k, hrun⟩
            obtain ⟨j, phase⟩ := r
            cases phase <;> simp only [hrun] at ht <;> cases ht <;>
              exact ⟨_, hr, by simp [TaskRun.Outstanding], rfl⟩
      have hbefore : s.stop ≠ .releasing ∧ s.stop ≠ .done :=
        ⟨fun hpc => h.gone (.inl hpc) r hr hout, fun hpc => h.gone (.inr hpc) r hr hout⟩
      rw [h.size hbefore.1 hbefore.2]
      exact h.runTask r hr

/-- No threads ever wait in a circle. While one is unfinished some thread can make its
next step, in every run in which no thread is left when `stop` clears the tasks; and
none is, if those of a task have entered when `stop` takes its mutex. -/
theorem along_live (n : ℕ) {earlier : List ℕ} (hearlier : ∀ i ∈ earlier, i < n) (es : List Event) :
    let s := Runs.run (step interval) (start n earlier) es
    (∀ t, ¬ Relation.TransGen (WaitsFor s) t t) ∧
      (Runs.Along (step interval) Entered (start n earlier) es →
        Runs.Along (step interval) Cleared (start n earlier) es) ∧
      (Runs.Along (step interval) Cleared (start n earlier) es →
        (∃ t, s.Unfinished t) → ∃ t, (threadStep interval t s).isSome) := by
  intro s
  have hlocks : Locks s := Runs.invariant (fun _ e hs => hs.step e) es (start_locks n earlier)
  have hrank : ∀ t u, WaitsFor s t u → s.rank u < s.rank t := fun _ _ => hlocks.rank_lt
  refine ⟨Mutexes.not_circular hrank, fun h => ?_, fun h ⟨t, ht⟩ => ?_⟩
  · exact h.imp (P := Cleared) (I := Barrier n) (fun _ _ hs _ _ => hs.safeClear)
      (fun _ e hs hok => hs.step e hok) (start_barrier hearlier)
  · have halive : Alive n s :=
      h.invariant (fun _ e hs hok => hs.step e hok) (start_alive hearlier)
    have hlive : ∀ t u, WaitsFor s t u → s.Unfinished u := fun _ _ ⟨_, _, hm⟩ => hlocks.unfinished hm
    obtain ⟨u, hu, hfree⟩ := Mutexes.exists_free hrank hlive ht
    exact ⟨u, (threadStep_isSome_iff u).mpr ⟨hu, hfree, fun i => halive.touches⟩⟩

end

/-- An earlier thread and the spawned one enter and finish, `stop` clears the tasks, and
nothing is left but to release the scheduler's mutex. -/
theorem along_live_finished :
    let s := Runs.run (step fun _ => 20) (start 1 [0])
      (spawnThenStop (List.replicate 3 (.move (.run 0)) ++ List.replicate 3 (.move (.run 1))) ++
        [.move .stop])
    s.Unfinished .stop ∧ ∃ t, (threadStep (fun _ => 20) t s).isSome := by
  intro s
  have hlive := @along_live (fun _ => 20) 1 [0] (by simp)
    (spawnThenStop (List.replicate 3 (.move (.run 0)) ++ List.replicate 3 (.move (.run 1))) ++
      [.move .stop])
  have hstop : s.stop ≠ .done := by decide
  exact ⟨hstop, hlive.2.2 (hlive.2.1 (by decide)) ⟨.stop, hstop⟩⟩

/-- The thread is still to enter when the tasks are cleared: in the end it is at a
deleted mutex, and no one else is left. -/
theorem live_fails : ¬ ∀ (interval : ℕ → Millis) (n : ℕ) (earlier : List ℕ) (es : List Event),
    (∀ i ∈ earlier, i < n) →
    let s := Runs.run (step interval) (start n earlier) es
    (∃ t, s.Unfinished t) → ∃ t, (threadStep interval t s).isSome := by
  intro h
  have hstuck := h (fun _ => 20) 1 [] (spawnThenStop [] ++ [.move .stop, .move .stop, .move (.run 0)])
    (by simp) ⟨.run 0, ⟨0, .waiting⟩, by decide, by decide⟩
  generalize hs : Runs.run (step fun _ => 20) (start 1 [])
    (spawnThenStop [] ++ [.move .stop, .move .stop, .move (.run 0)]) = s at hstuck
  obtain ⟨hcycle, hstop, hruns, htasks⟩ : s.cycle = .done ∧ s.stop = .done ∧
      s.runs = [⟨0, .waiting⟩] ∧ s.tasks = 0 := by
    rw [← hs]
    decide
  obtain ⟨t, ht⟩ := hstuck
  rcases t with _ | _ | _ | k
  · simp [threadStep, cycleStep, hcycle] at ht
  · simp [threadStep, stopStep, hstop] at ht
  · simp [threadStep, runStep, hruns, Schedule.free, htasks] at ht
  · simp [threadStep, runStep, hruns] at ht

end RwModbus.Scheduler
