import RwModbus.Library.GrowVec
import RwModbus.Scheduler

/-!
# The table of tasks

`Schedule_c` without its threads: which tasks `add_task` keeps, and where. A thread
that runs a task holds a pointer into `tasks`, so the elements must stay in their
block for as long as they are there. `reserve` throws on a negative number, and such
calls are left out.
-/
namespace RwModbus.TaskTable
open Scheduler (Millis)

/-- `Task_c`, less what its runs write; `F` is the type of the functions. -/
structure Task (F : Type) where
  func : F
  intervalMs : Millis
  taskName : List Char
  params : Option ℕ := none

structure Table (F : Type) where
  tasks : GrowVec (Task F)
  isRunning : Bool := false

inductive Op (F : Type) where
  | init (nb : ℕ)
  | addTask (t : Task F)
  | start
  | stop

variable {F : Type} (G : Growth)

/-- `Schedule_c(nb)`. -/
def schedule (nb : ℕ) : Table F where
  tasks := GrowVec.reserve G ⟨[], 0, le_rfl, 0⟩ nb

def stop (s : Table F) : Table F where
  tasks := s.tasks.clear
  isRunning := false

def init (nb : ℕ) (s : Table F) : Table F :=
  if nb ≠ 0 then { stop s with tasks := (stop s).tasks.reserve G nb } else s

def addTask (t : Task F) (s : Table F) : Table F :=
  if s.tasks.size < s.tasks.capacity then
    if 10 < t.intervalMs then { s with tasks := s.tasks.emplaceBack G t } else s
  else s

def step (s : Table F) : Op F → Table F
  | .init nb => init G nb s
  | .addTask t => addTask G t s
  | .start => { s with isRunning := true }
  | .stop => stop s

/-- The tasks asked for since the table was last emptied, too short ones apart. -/
def asked (ts : List (Task F)) : Op F → List (Task F)
  | .init nb => if nb ≠ 0 then [] else ts
  | .addTask t => if 10 < t.intervalMs then ts ++ [t] else ts
  | .start => ts
  | .stop => []

/-- The task of a PLC with its name and polling interval; it is given the PLC's place in
`PLCvec`. -/
def pollTask (taskPlcRefresh : F) (i : ℕ) (D : List Char × Millis) : Task F where
  func := taskPlcRefresh
  intervalMs := D.2
  taskName := ['M', 'o', 'd', 'b', 'u', 's', ':'] ++ D.1
  params := some i

/-- `mb_add_refresh_tasks`. -/
def mbAddRefreshTasks (taskPlcRefresh : F) (plcs : List (List Char × Millis)) : List (Op F) :=
  (plcs.mapIdx (pollTask taskPlcRefresh)).map .addTask

/-- `tasks_init`, with the built-in tasks given. -/
def tasksInit (tasksNb : ℕ) (builtIn : List (Task F)) (taskPlcRefresh : F)
    (plcs : List (List Char × Millis)) : List (Op F) :=
  .init tasksNb :: builtIn.map .addTask ++ mbAddRefreshTasks taskPlcRefresh plcs

/-- The elements are where they were, if there are any. -/
def Stays (s : Table F) (o : Op F) : Prop :=
  (step G s o).tasks.block = s.tasks.block ∨ (step G s o).tasks.elems = []

/-- The table is what was asked for, cut where the room ends. -/
def Cut (s : Table F) (ts : List (Task F)) : Prop :=
  s.tasks.elems = ts.take s.tasks.capacity

variable {G} {s : Table F} {ts : List (Task F)}

theorem not_full (h : s.tasks.size < s.tasks.capacity) : ¬ s.tasks.Full := Nat.ne_of_lt h

theorem Cut.all (h : Cut s ts) (hroom : s.tasks.size < s.tasks.capacity) : s.tasks.elems = ts := by
  rw [h]
  apply List.take_of_length_le
  rw [GrowVec.size, h, List.length_take] at hroom
  omega

theorem Cut.addTask (h : Cut s ts) (t : Task F) :
    Cut (addTask G t s) (asked ts (.addTask t)) := by
  unfold TaskTable.addTask
  simp only [asked]
  by_cases hroom : s.tasks.size < s.tasks.capacity
  · rw [if_pos hroom]
    split_ifs
    · have hall := h.all hroom
      rw [GrowVec.size, hall] at hroom
      rw [Cut, GrowVec.emplaceBack_elems,
        GrowVec.emplaceBack_capacity G (not_full (by rw [GrowVec.size, hall]; exact hroom)), hall,
        List.take_of_length_le]
      rw [List.length_append, List.length_singleton]
      exact hroom
    · exact h
  · rw [if_neg hroom]
    split_ifs
    · -- no room: what is asked for now is beyond the cut
      rw [Cut, List.take_append_of_le_length, h]
      rw [GrowVec.size, h, List.length_take] at hroom
      omega
    · exact h

theorem Cut.step (h : Cut s ts) (o : Op F) : Cut (step G s o) (asked ts o) := by
  cases o with
  | init nb =>
      simp only [TaskTable.step, init, asked]
      split_ifs
      · simp [Cut, TaskTable.stop, GrowVec.clear]
      · exact h
  | addTask t => exact h.addTask t
  | start => exact h
  | stop => simp [Cut, TaskTable.step, TaskTable.stop, GrowVec.clear, asked]

theorem step_stays (s : Table F) (o : Op F) : Stays G s o := by
  cases o with
  | init nb =>
      simp only [Stays, step, init]
      split_ifs
      · right
        exact GrowVec.reserve_elems G _ nb
      · left
        rfl
  | addTask t =>
      left
      simp only [step, addTask]
      split_ifs with hroom hms
      · rw [GrowVec.emplaceBack_block, if_neg (not_full hroom)]
      · rfl
      · rfl
  | start => exact Or.inl rfl
  | stop => exact Or.inl rfl

theorem asked_addTasks (ts new : List (Task F)) : (new.map Op.addTask).foldl asked ts =
    ts ++ new.filter fun t => 10 < t.intervalMs := by
  induction new generalizing ts with
  | nil => simp
  | cons t new ih =>
      rw [List.map_cons, List.foldl_cons, ih, asked]
      split_ifs with h
      · rw [List.filter_cons_of_pos (by simpa using h), List.append_assoc, List.singleton_append]
      · rw [List.filter_cons_of_neg (by simpa using h)]

/-- What was asked for before a `tasks_init` is forgotten. -/
theorem asked_tasksInit {tasksNb : ℕ} (h : tasksNb ≠ 0) (ts builtIn : List (Task F)) (f : F)
    (plcs : List (List Char × Millis)) : (tasksInit tasksNb builtIn f plcs).foldl asked ts =
      (builtIn ++ plcs.mapIdx (pollTask f)).filter fun t => 10 < t.intervalMs := by
  rw [tasksInit, mbAddRefreshTasks, List.cons_append, List.foldl_cons, List.foldl_append, asked,
    if_pos h, asked_addTasks, asked_addTasks, List.nil_append, List.filter_append]

theorem Cut.run (h : Cut s ts) (os : List (Op F)) :
    Cut (Runs.run (TaskTable.step G) s os) (os.foldl asked ts) := by
  induction os generalizing s ts with
  | nil => exact h
  | cons o os ih => exact ih (h.step o)

end RwModbus.TaskTable
