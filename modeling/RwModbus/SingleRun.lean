import RwModbus.Scheduler

/-!
# One outstanding run per task

The cycle decides by the flag and the time that the spawned thread itself sets
when it enters `Task_c::run`. Until then the task looks idle and due, and the next
check spawns a second thread. If no check falls into that gap, every task has one
thread at most, and if also the clock goes on, its starts are far enough apart.
-/
namespace RwModbus.Scheduler

/-- The thread is spawned and has not finished. -/
def TaskRun.Outstanding (r : TaskRun) : Prop := r.phase ≠ .finished

/-- The thread is spawned and has not entered. -/
def TaskRun.Pending (r : TaskRun) : Prop := r.phase = .spawned ∨ r.phase = .waiting

instance (r : TaskRun) : Decidable r.Outstanding := inferInstanceAs (Decidable (_ ≠ _))

instance (r : TaskRun) : Decidable r.Pending := inferInstanceAs (Decidable (_ ∨ _))

/-- Each task has at most one outstanding thread. -/
def Single (s : Schedule) : Prop :=
  ∀ (k l : ℕ) (r r' : TaskRun), s.runs[k]? = some r → s.runs[l]? = some r' → r.task = r'.task →
    r.Outstanding → r'.Outstanding → k = l

/-- A check that is about to spawn a thread finds no thread of the task that has
not entered. -/
def Settled (interval : ℕ → Millis) (s : Schedule) : Event → Prop
  | .move .cycle => ∀ i, s.cycle = .check i → i < s.cycleNb → s.spawns interval i = true →
      ∀ r ∈ s.runs, r.task = i → ¬ r.Pending
  | _ => True

/-- The clock does not step back. -/
def ClockGoesOn (s : Schedule) : Event → Prop
  | .tick now => s.now ≤ now
  | .move _ => True

section
variable (interval : ℕ → Millis) (s : Schedule) (e : Event)

instance : Decidable (ClockGoesOn s e) :=
  match e with
  | .tick now => inferInstanceAs (Decidable (s.now ≤ now))
  | .move _ => isTrue trivial

theorem settled_cycle_iff : Settled interval s (.move .cycle) ↔ ∀ r ∈ s.runs,
    s.cycle = .check r.task → r.task < s.cycleNb → s.spawns interval r.task = true → ¬ r.Pending := by
  constructor
  · intro h r hr hpc hlt hspawn
    exact h r.task hpc hlt hspawn r hr rfl
  · rintro h i hpc hlt hspawn r hr rfl
    exact h r hr hpc hlt hspawn

instance : Decidable (Settled interval s e) :=
  match e with
  | .move .cycle => decidable_of_iff' _ (settled_cycle_iff interval s)
  | .move .stop | .move (.run _) | .tick _ => isTrue trivial

end

/-- The starts of a task's function, the latest first. -/
def Schedule.startsOf (s : Schedule) (i : ℕ) : List Millis :=
  (s.starts.filter fun e => e.1 = i).map Prod.snd

/-- Successive starts of one task are more than its interval apart. -/
def Spaced (interval : ℕ → Millis) (s : Schedule) : Prop :=
  ∀ i, (s.startsOf i).IsChain fun later earlier =>
    earlier.toNat + (interval i).toNat < later.toNat

/-- The flag of a task says whether a thread is inside it. -/
structure Flags (s : Schedule) : Prop where
  locks : Locks s
  flag : ∀ i, s.taskRunning i = true ↔ ∃ k : ℕ, s.runs[k]? = some ⟨i, .running⟩

section
variable {interval : ℕ → Millis} {s s' : Schedule}

theorem start_flags (tasks : ℕ) (earlier : List ℕ) : Flags (start tasks earlier) := by
  refine ⟨start_locks tasks earlier, fun i => ?_⟩
  simp [start]

/-- The mutex of a task lets in one thread. -/
theorem Locks.running_unique (h : Locks s) {i k l : ℕ} (hk : s.runs[k]? = some ⟨i, .running⟩)
    (hl : s.runs[l]? = some ⟨i, .running⟩) : k = l := by
  have hrun : Thread.run k = Thread.run l := Mutexes.Owned.unique h (m := .task i) hk hl
  exact Thread.run.inj hrun

theorem Flags.threadStep {t : Thread} (h : Flags s) (hs : threadStep interval t s = some s') :
    Flags s' := by
  refine ⟨h.locks.threadStep hs, fun i => ?_⟩
  have hflag := h.flag i
  cases threadStep_effect hs with
  | nothing hsame =>
      rw [hsame.taskRunning, hsame.runs]
      exact hflag
  | spawn j _ _ _ _ hsame =>
      rw [hsame.taskRunning, hsame.runs]
      simp only [spawn_running]
      exact hflag
  | enter k j _ hrun hsame =>
      rw [hsame.taskRunning, hsame.runs]
      simp only [setPhase_runs hrun]
      refine hflag.trans (exists_congr fun l => ?_)
      grind
  | start k j _ hrun hfree hsame =>
      rw [hsame.taskRunning, hsame.runs]
      simp only [startRun_runs hrun, startRun_taskRunning, Function.update_apply]
      grind
  | finish k j _ hrun hsame =>
      have hunique := fun l => h.locks.running_unique (l := l) hrun
      rw [hsame.taskRunning, hsame.runs]
      simp only [finishRun_runs hrun, finishRun_taskRunning, Function.update_apply]
      grind

theorem Flags.step (h : Flags s) (e : Event) : Flags (step interval s e) :=
  step_cases e (fun _ _ => ⟨h.locks, h.flag⟩) h fun _ _ _ => h.threadStep

/-- A task that is not flagged has no thread inside it. -/
theorem Flags.not_running (h : Flags s) {i : ℕ} (hflag : s.taskRunning i = false) (k : ℕ) :
    s.runs[k]? ≠ some ⟨i, .running⟩ := fun hk => by
  rw [(h.flag i).mpr ⟨k, hk⟩] at hflag
  exact Bool.noConfusion hflag

theorem spawn_runs (i k : ℕ) : (s.spawn i).runs[k]? =
    if k = s.runs.length then some ⟨i, .spawned⟩ else s.runs[k]? := by
  rw [Schedule.spawn, List.getElem?_append]
  grind

/-- A new thread of a task is the only one exactly if no other has still to enter. -/
theorem single_spawn_iff (h : Flags s) (hsingle : Single s) {i : ℕ} (hflag : s.taskRunning i = false) :
    Single (s.spawn i) ↔ ∀ r ∈ s.runs, r.task = i → ¬ r.Pending := by
  have hrunning := h.not_running hflag
  simp only [Single, spawn_runs]
  constructor
  · intro hone r hr htask hpending
    obtain ⟨k, hk⟩ := List.mem_iff_getElem?.mp hr
    have hlt : k < s.runs.length := (List.getElem?_eq_some_iff.mp hk).1
    have hlast := hone k s.runs.length r ⟨i, .spawned⟩ (by rw [if_neg hlt.ne, hk]) (by rw [if_pos rfl])
      htask (by rcases hpending with hp | hp <;> simp [TaskRun.Outstanding, hp])
      (by simp [TaskRun.Outstanding])
    exact absurd hlast hlt.ne
  · -- an outstanding thread of the task would be running
    intro hsettled
    have hnone : ∀ (k : ℕ) (r : TaskRun), s.runs[k]? = some r → r.task = i → ¬ r.Outstanding := by
      rintro k ⟨j, phase⟩ hk rfl hout
      have hpending := hsettled _ (List.mem_iff_getElem?.mpr ⟨k, hk⟩) rfl
      cases phase with
      | spawned => exact hpending (.inl rfl)
      | waiting => exact hpending (.inr rfl)
      | running => exact hrunning k hk
      | finished => exact hout rfl
    intro k l r r' hk hl htask hr hr'
    split_ifs at hk hl with hk' hl' hl'
    · rw [hk', hl']
    · cases hk
      exact absurd hr' (hnone l r' hl htask.symm)
    · cases hl
      exact absurd hr (hnone k r hk htask)
    · exact hsingle k l r r' hk hl htask hr hr'

theorem Single.ofRuns (h : Single s) (hruns : s'.runs = s.runs) : Single s' := by
  unfold Single
  rw [hruns]
  exact h

/-- A thread that goes on stays the only one. -/
theorem Single.goOn (h : Single s) {k : ℕ} {r : TaskRun} (hrun : s.runs[k]? = some r)
    (hr : r.Outstanding) {p : Phase}
    (hruns : ∀ l, s'.runs[l]? = if l = k then some { r with phase := p } else s.runs[l]?) :
    Single s' := by
  intro l l' q q' hl hl' htask hq hq'
  rw [hruns] at hl hl'
  split_ifs at hl hl' with hlk hlk' hlk'
  · rw [hlk, hlk']
  · cases hl
    rw [hlk]
    exact h k l' r q' hrun hl' htask hr hq'
  · cases hl'
    rw [hlk']
    exact h l k q r hl hrun htask hq hr
  · exact h l l' q q' hl hl' htask hq hq'

theorem spawns_iff {i : ℕ} : s.spawns interval i = true ↔
    s.due interval i = true ∧ s.taskRunning i = false ∧ s.isRunning = true := by
  simp [Schedule.spawns, and_assoc]

/-- Without a new thread the threads stay single. -/
theorem Single.threadStep (h : Single s) {t : Thread} (hs : threadStep interval t s = some s')
    (hno : ∀ i, t = .cycle → s.cycle = .check i → i < s.cycleNb → s.spawns interval i = false) :
    Single s' := by
  cases threadStep_effect hs with
  | nothing hsame => exact h.ofRuns hsame.runs
  | spawn i ht hpc hlt hspawn hsame =>
      rw [hno i ht hpc hlt] at hspawn
      exact Bool.noConfusion hspawn
  | enter k i _ hrun hsame =>
      exact (h.goOn hrun (by simp [TaskRun.Outstanding]) (setPhase_runs hrun .waiting)).ofRuns hsame.runs
  | start k i _ hrun hfree hsame =>
      exact (h.goOn hrun (by simp [TaskRun.Outstanding]) (startRun_runs hrun)).ofRuns hsame.runs
  | finish k i _ hrun hsame =>
      exact (h.goOn hrun (by simp [TaskRun.Outstanding]) (finishRun_runs hrun)).ofRuns hsame.runs

/-- A step keeps the threads single exactly if it is no careless check. -/
theorem single_step_iff (h : Flags s) (hsingle : Single s) (e : Event) :
    Single (step interval s e) ↔ Settled interval s e := by
  by_cases hcheck : ∃ i, e = .move .cycle ∧ s.cycle = .check i ∧ i < s.cycleNb ∧
      s.spawns interval i = true
  · obtain ⟨i, rfl, hpc, hlt, hspawn⟩ := hcheck
    have hruns : (step interval s (.move .cycle)).runs = (s.spawn i).runs := by
      simp [step, threadStep, cycleStep, hpc, hlt, hspawn]
    have hsettled : Settled interval s (.move .cycle) ↔ ∀ r ∈ s.runs, r.task = i → ¬ r.Pending := by
      simp [Settled, hpc, hlt, hspawn]
    rw [hsettled, ← single_spawn_iff h hsingle (spawns_iff.mp hspawn).2.1]
    exact ⟨fun hs => hs.ofRuns hruns.symm, fun hs => hs.ofRuns hruns⟩
  · have hno : ∀ i, e = .move .cycle → s.cycle = .check i → i < s.cycleNb →
        s.spawns interval i = false := by
      intro i he hpc hlt
      by_contra hspawn
      exact hcheck ⟨i, he, hpc, hlt, by simpa using hspawn⟩
    refine iff_of_true ?_ ?_
    · refine step_cases e (fun _ _ => hsingle) hsingle fun t s' he hs => ?_
      exact hsingle.threadStep hs fun i ht => hno i (by rw [he, ht])
    · cases e with
      | tick now => trivial
      | move t =>
          cases t with
          | cycle =>
              intro i hpc hlt hspawn
              rw [hno i rfl hpc hlt] at hspawn
              exact Bool.noConfusion hspawn
          | _ => trivial

/-- What keeps the starts apart: the time of a task is that of its latest start,
not after the present, and a thread that has still to enter was spawned late enough. -/
structure Timed (interval : ℕ → Millis) (s : Schedule) : Prop where
  latest : ∀ i t rest, s.startsOf i = t :: rest → s.millisLastRun i = t
  past : ∀ i, s.millisLastRun i ≤ s.now
  waited : ∀ (k : ℕ) (r : TaskRun), s.runs[k]? = some r → r.Pending →
    (s.millisLastRun r.task).toNat + (interval r.task).toNat < s.now.toNat
  spaced : Spaced interval s

theorem start_timed (tasks : ℕ) : Timed interval (start tasks []) := by
  refine ⟨?_, ?_, ?_, ?_⟩ <;> simp [start, Schedule.startsOf, Spaced]

/-- 64-bit subtraction does not wrap while the clock is not behind. -/
theorem due_toNat {i : ℕ} (h : s.due interval i = true) (hpast : s.millisLastRun i ≤ s.now) :
    (s.millisLastRun i).toNat + (interval i).toNat < s.now.toNat := by
  simp only [Schedule.due, decide_eq_true_eq] at h
  bv_omega

theorem Timed.tick (h : Timed interval s) {now : Millis} (hnow : s.now ≤ now) :
    Timed interval { s with now := now } :=
  ⟨h.latest, fun i => BitVec.le_trans (h.past i) hnow,
    fun k r hk hr => (h.waited k r hk hr).trans_le hnow, h.spaced⟩

theorem Timed.same (h : Timed interval s) (hsame : SameTasks s s') : Timed interval s' := by
  have hstarts : ∀ i, s'.startsOf i = s.startsOf i := fun i => by
    rw [Schedule.startsOf, hsame.starts, Schedule.startsOf]
  refine ⟨?_, ?_, ?_, ?_⟩
  · simpa only [hstarts, hsame.millisLastRun] using h.latest
  · simpa only [hsame.now, hsame.millisLastRun] using h.past
  · simpa only [hsame.now, hsame.millisLastRun, hsame.runs] using h.waited
  · simpa only [Spaced, hstarts] using h.spaced

theorem Timed.spawn (h : Timed interval s) {i : ℕ} (hdue : s.due interval i = true) :
    Timed interval (s.spawn i) := by
  refine ⟨h.latest, h.past, fun k r hk hr => ?_, h.spaced⟩
  rw [spawn_runs] at hk
  split_ifs at hk with hlast
  · cases hk
    exact due_toNat hdue (h.past i)
  · exact h.waited k r hk hr

/-- A thread moves on without starting its task's function. -/
theorem Timed.goOn (h : Timed interval s) {k : ℕ} {r : TaskRun} (hrun : s.runs[k]? = some r)
    {p : Phase} (hp : p = .finished ∨ r.Pending) : Timed interval (s.setPhase k r p) := by
  refine ⟨h.latest, h.past, fun l q hl hq => ?_, h.spaced⟩
  rw [setPhase_runs hrun] at hl
  split_ifs at hl with hlk
  · cases hl
    rcases hp with rfl | hp
    · simp [TaskRun.Pending] at hq
    · exact h.waited k r hrun hp
  · exact h.waited l q hl hq

theorem startsOf_startRun (k : ℕ) (r : TaskRun) (i : ℕ) : (s.startRun k r).startsOf i =
    if r.task = i then s.now :: s.startsOf i else s.startsOf i := by
  have hstarts : (s.startRun k r).starts = (r.task, s.now) :: s.starts := rfl
  rw [Schedule.startsOf, hstarts, List.filter_cons, Schedule.startsOf]
  by_cases h : r.task = i <;> simp [h]

theorem Timed.startRun (h : Timed interval s) (hsingle : Single s) {k i : ℕ}
    (hrun : s.runs[k]? = some ⟨i, .waiting⟩) : Timed interval (s.startRun k ⟨i, .waiting⟩) := by
  have hlast : (s.startRun k ⟨i, .waiting⟩).millisLastRun = Function.update s.millisLastRun i s.now :=
    rfl
  have hwaited := h.waited k _ hrun (.inr rfl)
  refine ⟨fun j t rest hj => ?_, fun j => ?_, fun l q hl hq => ?_, fun j => ?_⟩
  · rw [startsOf_startRun] at hj
    rw [hlast, Function.update_apply]
    split_ifs at hj ⊢ with hi hi' hi'
    · exact (List.cons.inj hj).1
    · exact absurd hi.symm hi'
    · exact absurd hi'.symm hi
    · exact h.latest j t rest hj
  · rw [hlast, Function.update_apply]
    split_ifs
    · exact BitVec.le_refl _
    · exact h.past j
  · rw [startRun_runs hrun] at hl
    split_ifs at hl with hlk
    · cases hl
      simp [TaskRun.Pending] at hq
    · -- another thread of the task would be a second one
      have hne : q.task ≠ i := fun htask => hlk (hsingle l k q _ hl hrun htask
        (by rcases hq with hq | hq <;> simp [TaskRun.Outstanding, hq]) (by simp [TaskRun.Outstanding]))
      rw [hlast, Function.update_of_ne hne]
      exact h.waited l q hl hq
  · rw [startsOf_startRun]
    split_ifs with hi
    · obtain rfl : i = j := hi
      rw [List.isChain_cons]
      refine ⟨fun t ht => ?_, h.spaced i⟩
      obtain ⟨rest, hrest⟩ : ∃ rest, s.startsOf i = t :: rest := List.head?_eq_some_iff.mp ht
      rwa [← h.latest i t rest hrest]
    · exact h.spaced j

theorem Timed.threadStep (h : Timed interval s) (hsingle : Single s) {t : Thread}
    (hs : threadStep interval t s = some s') : Timed interval s' := by
  cases threadStep_effect hs with
  | nothing hsame => exact h.same hsame
  | spawn i _ _ _ hspawn hsame => exact (h.spawn (spawns_iff.mp hspawn).1).same hsame
  | enter k i _ hrun hsame => exact (h.goOn hrun (.inr (.inl rfl))).same hsame
  | start k i _ hrun _ hsame => exact (h.startRun hsingle hrun).same hsame
  | finish k i _ hrun hsame =>
      -- the end of a run leaves the times as they are
      have hgo := h.goOn hrun (p := .finished) (.inl rfl)
      have hfinish : Timed interval (s.finishRun k ⟨i, .running⟩) :=
        ⟨hgo.latest, hgo.past, hgo.waited, hgo.spaced⟩
      exact hfinish.same hsame

theorem Timed.step (h : Timed interval s) (hsingle : Single s) (e : Event)
    (hclock : ClockGoesOn s e) : Timed interval (step interval s e) :=
  step_cases e (fun now he => h.tick (by rw [he] at hclock; exact hclock)) h
    fun _ _ _ => h.threadStep hsingle

theorem start_single (tasks : ℕ) : Single (start tasks []) := by
  intro k l r r' hk
  simp [start] at hk

/-- The threads of every task stay single exactly if no check spawns one while
another has still to enter; and if then the clock does not step back, the starts
of every task are more than its interval apart. -/
theorem along_single_iff (tasks : ℕ) (es : List Event) :
    (Runs.Along (step interval) (fun s e => Single (step interval s e)) (start tasks []) es ↔
      Runs.Along (step interval) (Settled interval) (start tasks []) es) ∧
    (Runs.Along (step interval) (fun s e => Settled interval s e ∧ ClockGoesOn s e) (start tasks []) es →
      Spaced interval (Runs.run (step interval) (start tasks []) es)) := by
  refine ⟨?_, fun h => ?_⟩
  · refine Runs.along_iff (I := fun s => Flags s ∧ Single s) (fun s e hs => ?_) (fun s e hs hc => ?_) es
      ⟨start_flags tasks [], start_single tasks⟩
    · exact single_step_iff hs.1 hs.2 e
    · exact ⟨hs.1.step e, (single_step_iff hs.1 hs.2 e).mpr hc⟩
  · have hinv := h.invariant (I := fun s => Flags s ∧ Single s ∧ Timed interval s)
      (fun s e hs hok => ⟨hs.1.step e, (single_step_iff hs.1 hs.2.1 e).mpr hok.1,
        hs.2.2.step hs.2.1 e hok.2⟩) ⟨start_flags tasks [], start_single tasks, start_timed tasks⟩
    exact hinv.2.2.spaced

end

/-- The one task is started twice, at 100 and at 121. -/
theorem twoStarts_spaced :
    let s := Runs.run (step fun _ => 20) (start 1 []) ([.move .cycle, .move .cycle, .tick 100,
      .move .cycle, .move (.run 0), .move (.run 0), .move (.run 0), .move .cycle, .move .cycle,
      .tick 121, .move .cycle, .move (.run 1), .move (.run 1)])
    s.startsOf 0 = [121, 100] ∧ Spaced (fun _ => 20) s :=
  ⟨by decide, (along_single_iff 1 _).2 (by decide)⟩

/-- The cycle takes the scheduler's mutex, finds the one task due, spawns its
thread, and finds it due again before that thread has entered. -/
theorem single_fails : ¬ ∀ (interval : ℕ → Millis) (tasks : ℕ) (es : List Event),
    Single (Runs.run (step interval) (start tasks []) es) ∧
      Spaced interval (Runs.run (step interval) (start tasks []) es) := by
  intro h
  obtain ⟨hsingle, -⟩ := h (fun _ => 20) 1 [.move .cycle, .move .cycle, .tick 100, .move .cycle,
    .move .cycle, .move .cycle, .tick 110, .move .cycle]
  have hone := hsingle 0 1 ⟨0, .spawned⟩ ⟨0, .spawned⟩ (by decide) (by decide) rfl (by decide)
    (by decide)
  exact absurd hone (by decide)

end RwModbus.Scheduler
