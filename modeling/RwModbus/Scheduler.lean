import RwModbus.Library.Runs
import RwModbus.Library.Mutexes

/-!
# The scheduler's threads and locks

`Schedule_c` with one thread of `scheduler_cycle_`, the detached threads that it
spawns for `Task_c::run` and one caller of `stop`. Every step of a thread is one
access to what the threads share; sleeps order nothing. The functions of tasks
return and are not modelled. Clearing the task vector deletes the tasks' mutexes; a
thread whose next step is to lock or unlock a deleted one has no step left.
-/
namespace RwModbus.Scheduler

abbrev Millis := BitVec 64

inductive Thread where
  | cycle
  | stop
  | run (k : ℕ)
deriving DecidableEq, Repr

inductive Mutex where
  | scheduler
  | task (i : ℕ)
deriving DecidableEq, Repr

/-- A spawned thread has not called `task_mux->lock()` yet, a waiting one has. A
running one holds the mutex and is inside the task's function. -/
inductive Phase where
  | spawned
  | waiting
  | running
  | finished
deriving DecidableEq, Repr

structure TaskRun where
  task : ℕ
  phase : Phase
deriving DecidableEq, Repr

/-- Where `scheduler_cycle_` is: before its lock, at the head of the loop, at the
check of a task, locking a task's mutex, unlocking one. -/
inductive CyclePc where
  | begin
  | head
  | check (i : ℕ)
  | locking (i : ℕ)
  | unlocking (i : ℕ)
  | done
deriving DecidableEq, Repr

/-- Where `stop` is. -/
inductive StopPc where
  | begin
  | lockScheduler
  | locking (i : ℕ)
  | unlocking (i : ℕ)
  | clearing
  | releasing
  | done
deriving DecidableEq, Repr

/-- `tasks` is the size of the task vector; `cycleNb` and `stopNb` are the two
local copies of it. `starts` logs the task and the clock at each start of a task's
function, the latest first. -/
structure Schedule where
  tasks : ℕ
  isRunning : Bool := true
  now : Millis := 0
  mux : Mutex → Option Thread := fun _ => none
  taskRunning : ℕ → Bool := fun _ => false
  millisLastRun : ℕ → Millis := fun _ => 0
  runs : List TaskRun := []
  cycle : CyclePc := .begin
  cycleNb : ℕ := 0
  stop : StopPc := .begin
  stopNb : ℕ := 0
  starts : List (ℕ × Millis) := []

namespace Schedule

def lock (m : Mutex) (t : Thread) (s : Schedule) : Schedule :=
  { s with mux := Function.update s.mux m (some t) }

def unlock (m : Mutex) (s : Schedule) : Schedule :=
  { s with mux := Function.update s.mux m none }

/-- The mutex of task `i` is there, since `~Task_c` has not deleted it, and is free. -/
def free (i : ℕ) (s : Schedule) : Prop := i < s.tasks ∧ s.mux (.task i) = none

instance (i : ℕ) (s : Schedule) : Decidable (s.free i) := inferInstanceAs (Decidable (_ ∧ _))

def setPhase (k : ℕ) (r : TaskRun) (p : Phase) (s : Schedule) : Schedule :=
  { s with runs := s.runs.set k { r with phase := p } }

/-- Entry to `Task_c::run` takes the mutex, sets the flag and notes the time. -/
def startRun (k : ℕ) (r : TaskRun) (s : Schedule) : Schedule :=
  { (s.lock (.task r.task) (.run k)).setPhase k r .running with
    taskRunning := Function.update s.taskRunning r.task true
    millisLastRun := Function.update s.millisLastRun r.task s.now
    starts := (r.task, s.now) :: s.starts }

def finishRun (k : ℕ) (r : TaskRun) (s : Schedule) : Schedule :=
  { (s.unlock (.task r.task)).setPhase k r .finished with
    taskRunning := Function.update s.taskRunning r.task false }

/-- `(millis() - t.millis_last_run) > t.interval_ms`, in 64 bits. -/
def due (interval : ℕ → Millis) (i : ℕ) (s : Schedule) : Bool :=
  interval i < s.now - s.millisLastRun i

/-- The check spawns a thread for the task. -/
def spawns (interval : ℕ → Millis) (i : ℕ) (s : Schedule) : Bool :=
  s.due interval i && !s.taskRunning i && s.isRunning

def spawn (i : ℕ) (s : Schedule) : Schedule := { s with runs := s.runs ++ [⟨i, .spawned⟩] }

end Schedule

variable (interval : ℕ → Millis)

/-- The next step of `scheduler_cycle_`, if it is not blocked. -/
def cycleStep (s : Schedule) : Option Schedule :=
  match s.cycle with
  | .begin =>
      if s.mux .scheduler = none then
        some { s.lock .scheduler .cycle with cycle := .head, cycleNb := s.tasks }
      else none
  | .head => some { s with cycle := if s.isRunning then .check 0 else .locking 0 }
  | .check i =>
      if i < s.cycleNb then
        some { (if s.spawns interval i then s.spawn i else s) with cycle := .check (i + 1) }
      else some { s with cycle := .head }
  | .locking i =>
      if i < s.cycleNb then
        if s.free i then
          some { s.lock (.task i) .cycle with cycle := .locking (i + 1) }
        else none
      else some { s.unlock .scheduler with cycle := .unlocking 0 }
  | .unlocking i =>
      if i < s.cycleNb then
        if i < s.tasks then some { s.unlock (.task i) with cycle := .unlocking (i + 1) } else none
      else some { s with cycle := .done }
  | .done => none

/-- The next step of `stop`. -/
def stopStep (s : Schedule) : Option Schedule :=
  match s.stop with
  | .begin => some { s with isRunning := false, stop := .lockScheduler }
  | .lockScheduler =>
      if s.mux .scheduler = none then
        some { s.lock .scheduler .stop with stop := .locking 0, stopNb := s.tasks }
      else none
  | .locking i =>
      if i < s.stopNb then
        if s.free i then
          some { s.lock (.task i) .stop with stop := .locking (i + 1) }
        else none
      else some { s with stop := .unlocking 0 }
  | .unlocking i =>
      if i < s.stopNb then
        if i < s.tasks then some { s.unlock (.task i) with stop := .unlocking (i + 1) } else none
      else some { s with stop := .clearing }
  | .clearing => some { s with tasks := 0, stop := .releasing }
  | .releasing => some { s.unlock .scheduler with stop := .done }
  | .done => none

/-- The next step of the thread `k` of `Task_c::run`. -/
def runStep (k : ℕ) (s : Schedule) : Option Schedule :=
  match s.runs[k]? with
  | some r =>
      match r.phase with
      | .spawned => some (s.setPhase k r .waiting)
      | .waiting => if s.free r.task then some (s.startRun k r) else none
      | .running => if r.task < s.tasks then some (s.finishRun k r) else none
      | .finished => none
  | none => none

def threadStep (t : Thread) (s : Schedule) : Option Schedule :=
  match t with
  | .cycle => cycleStep interval s
  | .stop => stopStep s
  | .run k => runStep k s

/-- The clock shows a new time, or a thread makes its next step. -/
inductive Event where
  | tick (now : Millis)
  | move (t : Thread)
deriving DecidableEq, Repr

/-- A step of a blocked or finished thread changes nothing. -/
def step (s : Schedule) : Event → Schedule
  | .tick now => { s with now := now }
  | .move t => (threadStep interval t s).getD s

/-- The threads before their first steps, with the tasks of threads that were
spawned earlier. -/
def start (tasks : ℕ) (earlier : List ℕ) : Schedule :=
  { tasks := tasks, runs := earlier.map fun i => ⟨i, .spawned⟩ }

/-- The mutex whose `lock()` is the thread's next step. -/
def Schedule.wants (s : Schedule) : Thread → Option Mutex
  | .cycle =>
      match s.cycle with
      | .begin => some .scheduler
      | .locking i => if i < s.cycleNb then some (.task i) else none
      | _ => none
  | .stop =>
      match s.stop with
      | .lockScheduler => some .scheduler
      | .locking i => if i < s.stopNb then some (.task i) else none
      | _ => none
  | .run k =>
      match s.runs[k]? with
      | some ⟨i, .waiting⟩ => some (.task i)
      | _ => none

def CyclePc.holdsScheduler : CyclePc → Bool
  | .head | .check _ | .locking _ => true
  | .begin | .unlocking _ | .done => false

/-- The tasks whose mutexes the cycle holds. -/
def CyclePc.Sweeps (nb i : ℕ) : CyclePc → Prop
  | .locking j => i < j ∧ i < nb
  | .unlocking j => j ≤ i ∧ i < nb
  | _ => False

def StopPc.holdsScheduler : StopPc → Bool
  | .locking _ | .unlocking _ | .clearing | .releasing => true
  | .begin | .lockScheduler | .done => false

/-- The tasks whose mutexes `stop` holds. -/
def StopPc.Sweeps (nb i : ℕ) : StopPc → Prop
  | .locking j => i < j ∧ i < nb
  | .unlocking j => j ≤ i ∧ i < nb
  | _ => False

/-- The mutexes that a thread holds at its place in the code. -/
def Schedule.Holds (s : Schedule) : Thread → Mutex → Prop
  | .cycle, .scheduler => s.cycle.holdsScheduler = true
  | .cycle, .task i => s.cycle.Sweeps s.cycleNb i
  | .stop, .scheduler => s.stop.holdsScheduler = true
  | .stop, .task i => s.stop.Sweeps s.stopNb i
  | .run _, .scheduler => False
  | .run k, .task i => s.runs[k]? = some ⟨i, .running⟩

def Locks (s : Schedule) : Prop := Mutexes.Owned s.mux s.Holds

theorem start_locks (tasks : ℕ) (earlier : List ℕ) : Locks (start tasks earlier) := by
  rintro (_ | i) (_ | _ | k) <;>
    simp [start, Schedule.Holds, CyclePc.holdsScheduler, StopPc.holdsScheduler, CyclePc.Sweeps,
      StopPc.Sweeps]

section
variable {interval : ℕ → Millis} {s s' : Schedule}

/-- A spawned thread is not running. -/
theorem spawn_running (i k j : ℕ) :
    (s.spawn i).runs[k]? = some ⟨j, .running⟩ ↔ s.runs[k]? = some ⟨j, .running⟩ := by
  rw [Schedule.spawn, List.getElem?_append]
  grind

theorem Locks.cycleStep (h : Locks s) (hs : cycleStep interval s = some s') : Locks s' := by
  cases hpc : s.cycle with
  | begin =>
      simp only [Scheduler.cycleStep, hpc] at hs
      split_ifs at hs with hfree
      cases hs
      refine Mutexes.Owned.lock h hfree ?_
      rintro (_ | _ | k) (_ | i) <;>
        simp [Schedule.Holds, Schedule.lock, hpc, CyclePc.holdsScheduler, CyclePc.Sweeps]
  | head =>
      simp only [Scheduler.cycleStep, hpc] at hs
      cases hs
      refine Mutexes.Owned.congr h ?_
      rintro (_ | _ | k) (_ | i) <;> simp only [Schedule.Holds, hpc] <;>
        split_ifs <;> simp [CyclePc.holdsScheduler, CyclePc.Sweeps]
  | check i =>
      simp only [Scheduler.cycleStep, hpc] at hs
      split_ifs at hs with hlt hspawn
      · cases hs
        refine Mutexes.Owned.congr h ?_
        rintro (_ | _ | k) (_ | j)
        case run.task => exact spawn_running i k j
        all_goals simp [Schedule.Holds, Schedule.spawn, hpc, CyclePc.holdsScheduler, CyclePc.Sweeps]
      all_goals
        cases hs
        refine Mutexes.Owned.congr h ?_
        rintro (_ | _ | k) (_ | j) <;>
          simp [Schedule.Holds, hpc, CyclePc.holdsScheduler, CyclePc.Sweeps]
  | locking i =>
      simp only [Scheduler.cycleStep, hpc] at hs
      split_ifs at hs with hlt hfree
      · cases hs
        refine Mutexes.Owned.lock h hfree.2 ?_
        rintro (_ | _ | k) (_ | j) <;>
          simp only [Schedule.Holds, Schedule.lock, hpc, CyclePc.holdsScheduler, CyclePc.Sweeps]
        all_goals grind
      · cases hs
        refine Mutexes.Owned.unlock h (t := .cycle) (m := .scheduler) ?_ ?_
        · simp [Schedule.Holds, hpc, CyclePc.holdsScheduler]
        · rintro (_ | _ | k) (_ | j) <;>
            simp only [Schedule.Holds, Schedule.unlock, hpc, CyclePc.holdsScheduler, CyclePc.Sweeps]
          all_goals grind
  | unlocking i =>
      simp only [Scheduler.cycleStep, hpc] at hs
      split_ifs at hs with hlt hthere
      · cases hs
        refine Mutexes.Owned.unlock h (t := .cycle) (m := .task i) ?_ ?_
        · simp [Schedule.Holds, hpc, CyclePc.Sweeps, hlt]
        · rintro (_ | _ | k) (_ | j) <;>
            simp only [Schedule.Holds, Schedule.unlock, hpc, CyclePc.holdsScheduler, CyclePc.Sweeps]
          all_goals grind
      · cases hs
        refine Mutexes.Owned.congr h ?_
        rintro (_ | _ | k) (_ | j) <;>
          simp only [Schedule.Holds, hpc, CyclePc.holdsScheduler, CyclePc.Sweeps]
        all_goals grind
  | done => simp [Scheduler.cycleStep, hpc] at hs

theorem Locks.stopStep (h : Locks s) (hs : stopStep s = some s') : Locks s' := by
  cases hpc : s.stop with
  | begin =>
      simp only [Scheduler.stopStep, hpc] at hs
      cases hs
      refine Mutexes.Owned.congr h ?_
      rintro (_ | _ | k) (_ | j) <;> simp [Schedule.Holds, hpc, StopPc.holdsScheduler, StopPc.Sweeps]
  | lockScheduler =>
      simp only [Scheduler.stopStep, hpc] at hs
      split_ifs at hs with hfree
      cases hs
      refine Mutexes.Owned.lock h hfree ?_
      rintro (_ | _ | k) (_ | i) <;>
        simp [Schedule.Holds, Schedule.lock, hpc, StopPc.holdsScheduler, StopPc.Sweeps]
  | locking i =>
      simp only [Scheduler.stopStep, hpc] at hs
      split_ifs at hs with hlt hfree
      · cases hs
        refine Mutexes.Owned.lock h hfree.2 ?_
        rintro (_ | _ | k) (_ | j) <;>
          simp only [Schedule.Holds, Schedule.lock, hpc, StopPc.holdsScheduler, StopPc.Sweeps]
        all_goals grind
      · cases hs
        refine Mutexes.Owned.congr h ?_
        rintro (_ | _ | k) (_ | j) <;>
          simp only [Schedule.Holds, hpc, StopPc.holdsScheduler, StopPc.Sweeps]
        all_goals grind
  | unlocking i =>
      simp only [Scheduler.stopStep, hpc] at hs
      split_ifs at hs with hlt hthere
      · cases hs
        refine Mutexes.Owned.unlock h (t := .stop) (m := .task i) ?_ ?_
        · simp [Schedule.Holds, hpc, StopPc.Sweeps, hlt]
        · rintro (_ | _ | k) (_ | j) <;>
            simp only [Schedule.Holds, Schedule.unlock, hpc, StopPc.holdsScheduler, StopPc.Sweeps]
          all_goals grind
      · cases hs
        refine Mutexes.Owned.congr h ?_
        rintro (_ | _ | k) (_ | j) <;>
          simp only [Schedule.Holds, hpc, StopPc.holdsScheduler, StopPc.Sweeps]
        all_goals grind
  | clearing =>
      simp only [Scheduler.stopStep, hpc] at hs
      cases hs
      refine Mutexes.Owned.congr h ?_
      rintro (_ | _ | k) (_ | j) <;> simp [Schedule.Holds, hpc, StopPc.holdsScheduler, StopPc.Sweeps]
  | releasing =>
      simp only [Scheduler.stopStep, hpc] at hs
      cases hs
      refine Mutexes.Owned.unlock h (t := .stop) (m := .scheduler) ?_ ?_
      · simp [Schedule.Holds, hpc, StopPc.holdsScheduler]
      · rintro (_ | _ | k) (_ | j) <;>
          simp [Schedule.Holds, Schedule.unlock, hpc, StopPc.holdsScheduler, StopPc.Sweeps]
  | done => simp [Scheduler.stopStep, hpc] at hs

theorem setPhase_runs {k : ℕ} {r : TaskRun} (h : s.runs[k]? = some r) (p : Phase) (l : ℕ) :
    (s.setPhase k r p).runs[l]? = if l = k then some { r with phase := p } else s.runs[l]? := by
  have hk : k < s.runs.length := (List.getElem?_eq_some_iff.mp h).1
  rw [Schedule.setPhase, List.getElem?_set]
  grind

theorem startRun_runs {k : ℕ} {r : TaskRun} (h : s.runs[k]? = some r) (l : ℕ) :
    (s.startRun k r).runs[l]? = if l = k then some { r with phase := .running } else s.runs[l]? :=
  setPhase_runs h .running l

theorem finishRun_runs {k : ℕ} {r : TaskRun} (h : s.runs[k]? = some r) (l : ℕ) :
    (s.finishRun k r).runs[l]? = if l = k then some { r with phase := .finished } else s.runs[l]? :=
  setPhase_runs h .finished l

@[simp] theorem startRun_taskRunning (k : ℕ) (r : TaskRun) :
    (s.startRun k r).taskRunning = Function.update s.taskRunning r.task true := rfl

@[simp] theorem finishRun_taskRunning (k : ℕ) (r : TaskRun) :
    (s.finishRun k r).taskRunning = Function.update s.taskRunning r.task false := rfl

theorem Locks.runStep {k : ℕ} (h : Locks s) (hs : runStep k s = some s') : Locks s' := by
  cases hrun : s.runs[k]? with
  | none => simp [Scheduler.runStep, hrun] at hs
  | some r =>
      obtain ⟨task, phase⟩ := r
      cases phase with
      | spawned =>
          simp only [Scheduler.runStep, hrun] at hs
          cases hs
          refine Mutexes.Owned.congr h ?_
          rintro (_ | _ | l) (_ | i)
          case run.task =>
            simp only [Schedule.Holds, setPhase_runs hrun]
            grind
          all_goals exact Iff.rfl
      | waiting =>
          simp only [Scheduler.runStep, hrun] at hs
          split_ifs at hs with hfree
          cases hs
          refine Mutexes.Owned.lock h hfree.2 ?_
          rintro (_ | _ | l) (_ | i)
          case run.task =>
            simp only [Schedule.Holds, startRun_runs hrun]
            grind
          all_goals simp [Schedule.Holds, Schedule.startRun, Schedule.lock, Schedule.setPhase]
      | running =>
          simp only [Scheduler.runStep, hrun] at hs
          split_ifs at hs with hthere
          cases hs
          refine Mutexes.Owned.unlock h (t := .run k) (m := .task task) hrun ?_
          rintro (_ | _ | l) (_ | i)
          case run.task =>
            simp only [Schedule.Holds, finishRun_runs hrun]
            grind
          all_goals simp [Schedule.Holds, Schedule.finishRun, Schedule.unlock, Schedule.setPhase]
      | finished => simp [Scheduler.runStep, hrun] at hs

theorem Locks.threadStep {t : Thread} (h : Locks s) (hs : threadStep interval t s = some s') :
    Locks s' := by
  cases t with
  | cycle => exact h.cycleStep hs
  | stop => exact h.stopStep hs
  | run k => exact h.runStep hs

/-- What holds after a step: the clock went on, nothing happened, or a thread made
its step. -/
theorem step_cases {P : Schedule → Prop} (e : Event)
    (htick : ∀ now, e = .tick now → P { s with now := now })
    (hsame : P s) (hmove : ∀ t s', e = .move t → threadStep interval t s = some s' → P s') :
    P (step interval s e) := by
  cases e with
  | tick now => exact htick now rfl
  | move t =>
      change P ((threadStep interval t s).getD s)
      cases hs : threadStep interval t s with
      | none => exact hsame
      | some s' => exact hmove t s' rfl hs

theorem Locks.step (h : Locks s) (e : Event) : Locks (step interval s e) :=
  step_cases e (fun _ _ => h) h fun _ _ _ => h.threadStep

/-- The two states agree on the clock, the tasks and their threads. -/
structure SameTasks (s s' : Schedule) : Prop where
  now : s'.now = s.now
  taskRunning : s'.taskRunning = s.taskRunning
  millisLastRun : s'.millisLastRun = s.millisLastRun
  runs : s'.runs = s.runs
  starts : s'.starts = s.starts

theorem SameTasks.refl (s : Schedule) : SameTasks s s := ⟨rfl, rfl, rfl, rfl, rfl⟩

/-- All that a thread's step can do to the tasks and their threads. -/
inductive Effect (interval : ℕ → Millis) (s : Schedule) (t : Thread) (s' : Schedule) : Prop where
  | nothing (h : SameTasks s s')
  | spawn (i : ℕ) (ht : t = .cycle) (hpc : s.cycle = .check i) (hlt : i < s.cycleNb)
      (hspawn : s.spawns interval i = true) (h : SameTasks (s.spawn i) s')
  | enter (k i : ℕ) (ht : t = .run k) (hrun : s.runs[k]? = some ⟨i, .spawned⟩)
      (h : SameTasks (s.setPhase k ⟨i, .spawned⟩ .waiting) s')
  | start (k i : ℕ) (ht : t = .run k) (hrun : s.runs[k]? = some ⟨i, .waiting⟩)
      (hfree : s.mux (.task i) = none) (h : SameTasks (s.startRun k ⟨i, .waiting⟩) s')
  | finish (k i : ℕ) (ht : t = .run k) (hrun : s.runs[k]? = some ⟨i, .running⟩)
      (h : SameTasks (s.finishRun k ⟨i, .running⟩) s')

theorem cycleStep_effect (hs : cycleStep interval s = some s') : Effect interval s .cycle s' := by
  cases hpc : s.cycle with
  | check i =>
      simp only [cycleStep, hpc] at hs
      split_ifs at hs with hlt hspawn
      · cases hs
        exact .spawn i rfl hpc hlt hspawn ⟨rfl, rfl, rfl, rfl, rfl⟩
      all_goals
        cases hs
        exact .nothing ⟨rfl, rfl, rfl, rfl, rfl⟩
  | _ =>
      simp only [cycleStep, hpc] at hs
      (try split_ifs at hs) <;> cases hs <;> exact .nothing ⟨rfl, rfl, rfl, rfl, rfl⟩

theorem stopStep_same (hs : stopStep s = some s') : SameTasks s s' := by
  cases hpc : s.stop <;> simp only [stopStep, hpc] at hs <;> (try split_ifs at hs) <;> cases hs <;>
    exact ⟨rfl, rfl, rfl, rfl, rfl⟩

theorem runStep_effect {k : ℕ} (hs : runStep k s = some s') : Effect interval s (.run k) s' := by
  cases hrun : s.runs[k]? with
  | none => simp [runStep, hrun] at hs
  | some r =>
      obtain ⟨i, phase⟩ := r
      cases phase with
      | spawned =>
          simp only [runStep, hrun] at hs
          cases hs
          exact .enter k i rfl hrun (.refl _)
      | waiting =>
          simp only [runStep, hrun] at hs
          split_ifs at hs with hfree
          cases hs
          exact .start k i rfl hrun hfree.2 (.refl _)
      | running =>
          simp only [runStep, hrun] at hs
          split_ifs at hs with hthere
          cases hs
          exact .finish k i rfl hrun (.refl _)
      | finished => simp [runStep, hrun] at hs

theorem threadStep_effect {t : Thread} (hs : threadStep interval t s = some s') :
    Effect interval s t s' := by
  cases t with
  | cycle => exact cycleStep_effect hs
  | stop => exact .nothing (stopStep_same hs)
  | run k => exact runStep_effect hs

end

end RwModbus.Scheduler
