import RwModbus.SingleRun

/-!
# The tasks of the PLCs

`mb_add_refresh_tasks` gives every PLC a task with the PLC's own polling interval.
The task's function is `update_master`, which tests the interval once more,
against the time that it noted itself before its last poll. That time may be
later than the start of the run that the scheduler measures from.
-/
namespace RwModbus.Scheduler

/-- What `update_master` reads of a PLC and does not change. A task that polls
nothing has the port 0. -/
structure PlcPolling where
  tcpPort : ℤ
  pollingMs : BitVec 32
deriving DecidableEq, Repr

/-- Where a run is inside `update_master`: at the test of the interval, at the
note of the time, before `read_master`, at the end. -/
inductive UpdatePc where
  | test
  | stamp
  | poll
  | done
deriving DecidableEq, Repr

/-- The threads and the PLCs of the tasks. `update` is by thread, the rest of what
is added by task. -/
structure Refresh where
  sched : Schedule
  timestampTryMs : ℕ → Millis := fun _ => 0
  errors : ℕ → ℤ := fun _ => 0
  update : ℕ → UpdatePc := fun _ => .test

variable (plcs : ℕ → PlcPolling)

/-- `interval_ms` of the tasks. -/
def taskInterval (i : ℕ) : Millis := (plcs i).pollingMs.setWidth 64

namespace Refresh

/-- `interval_ms` in `update_master`; the product is a 32-bit one. -/
def updateInterval (i : ℕ) (s : Refresh) : Millis :=
  if 2 < s.errors i then ((plcs i).pollingMs * 3).setWidth 64 else (plcs i).pollingMs.setWidth 64

/-- `update_master` goes on to `read_master`. -/
def polls (i : ℕ) (s : Refresh) : Bool :=
  (plcs i).tcpPort ≠ 0 && s.updateInterval plcs i < s.sched.now - s.timestampTryMs i

def setUpdate (k : ℕ) (pc : UpdatePc) (s : Refresh) : Refresh :=
  { s with update := Function.update s.update k pc }

/-- The next step of `update_master` in the thread `k`; a poll leaves `errors` in
`mb.errors`. -/
def updateStep (k i : ℕ) (errors : ℤ) (s : Refresh) : Refresh :=
  match s.update k with
  | .test => s.setUpdate k (if s.polls plcs i then .stamp else .done)
  | .stamp =>
      { s.setUpdate k .poll with timestampTryMs := Function.update s.timestampTryMs i s.sched.now }
  | .poll => { s.setUpdate k .done with errors := Function.update s.errors i errors }
  | .done => s

/-- The thread that the event moves, and its task, if it is inside `update_master`. -/
def inside (s : Refresh) : Event → Option (ℕ × ℕ)
  | .move (.run k) =>
      match s.sched.runs[k]? with
      | some ⟨i, .running⟩ => if s.update k = .done then none else some (k, i)
      | _ => none
  | _ => none

end Refresh

/-- A step of the threads; `e.2` is what a poll in this step leaves in `mb.errors`. -/
def refreshStep (s : Refresh) (e : Event × ℤ) : Refresh :=
  match s.inside e.1 with
  | some (k, i) => s.updateStep plcs k i e.2
  | none => { s with sched := step (taskInterval plcs) s.sched e.1 }

def refreshStart (tasks : ℕ) : Refresh := { sched := start tasks [] }

/-- A run that is not the task's first, and whose PLC has a port and at most two
errors, passes the test of `update_master`. -/
def Beats (s : Refresh) (e : Event × ℤ) : Prop :=
  ∀ k i, s.inside e.1 = some (k, i) → s.update k = .test → 2 ≤ (s.sched.startsOf i).length →
    (plcs i).tcpPort ≠ 0 → s.errors i ≤ 2 → (refreshStep plcs s e).update k = .stamp

/-- `update_master` notes the millisecond that its run noted at its start. -/
def StampsAtStart (s : Refresh) (e : Event × ℤ) : Prop :=
  ∀ k i, s.inside e.1 = some (k, i) → s.update k = .stamp → s.sched.now = s.sched.millisLastRun i

section
variable {interval : ℕ → Millis} {s : Schedule}

/-- A thread that is inside its task's function was inside before, or it has just
started, late enough. -/
theorem step_running (h : Timed interval s) (e : Event) {k i : ℕ}
    (hrun : (step interval s e).runs[k]? = some ⟨i, .running⟩) :
    s.runs[k]? = some ⟨i, .running⟩ ∨
      (s.millisLastRun i).toNat + (interval i).toNat < s.now.toNat := by
  revert hrun
  refine step_cases (P := fun s' => s'.runs[k]? = some ⟨i, .running⟩ → s.runs[k]? = some ⟨i, .running⟩ ∨
    (s.millisLastRun i).toNat + (interval i).toNat < s.now.toNat) e (fun _ _ => .inl) .inl ?_
  intro t s' _ hs hrun
  cases threadStep_effect hs with
  | nothing hsame => exact .inl (hsame.runs ▸ hrun)
  | spawn j _ _ _ _ hsame =>
      rw [hsame.runs, spawn_running] at hrun
      exact .inl hrun
  | enter l j _ hl hsame =>
      rw [hsame.runs, setPhase_runs hl] at hrun
      split_ifs at hrun with hkl
      · cases hrun
      · exact .inl hrun
  | start l j _ hl _ hsame =>
      rw [hsame.runs, startRun_runs hl] at hrun
      split_ifs at hrun with hkl
      · cases hrun
        exact .inr (h.waited l _ hl (.inr rfl))
      · exact .inl hrun
  | finish l j _ hl hsame =>
      rw [hsame.runs, finishRun_runs hl] at hrun
      split_ifs at hrun with hkl
      · cases hrun
      · exact .inl hrun

/-- The clock and the times of the tasks do not step back. -/
theorem step_times (h : Timed interval s) (e : Event) (hclock : ClockGoesOn s e) :
    s.now ≤ (step interval s e).now ∧ ∀ i, s.millisLastRun i ≤ (step interval s e).millisLastRun i := by
  have hsame : ∀ i, s.millisLastRun i ≤ s.millisLastRun i := fun i => BitVec.le_refl _
  refine step_cases (P := fun s' => s.now ≤ s'.now ∧ ∀ i, s.millisLastRun i ≤ s'.millisLastRun i) e
    (fun now he => ⟨by rw [he] at hclock; exact hclock, hsame⟩) ⟨BitVec.le_refl _, hsame⟩ ?_
  intro t s' _ hs
  cases threadStep_effect hs with
  | start l j _ _ _ heq =>
      rw [heq.now, heq.millisLastRun]
      refine ⟨BitVec.le_refl _, fun i => ?_⟩
      have hlast : (s.startRun l ⟨j, .waiting⟩).millisLastRun =
          Function.update s.millisLastRun j s.now :=
        rfl
      rw [hlast, Function.update_apply]
      split_ifs with hij
      · exact h.past i
      · exact hsame i
  | nothing heq => exact ⟨heq.now ▸ BitVec.le_refl _, fun i => heq.millisLastRun ▸ hsame i⟩
  | spawn _ _ _ _ _ heq => exact ⟨heq.now ▸ BitVec.le_refl _, fun i => heq.millisLastRun ▸ hsame i⟩
  | enter _ _ _ _ heq => exact ⟨heq.now ▸ BitVec.le_refl _, fun i => heq.millisLastRun ▸ hsame i⟩
  | finish _ _ _ _ heq => exact ⟨heq.now ▸ BitVec.le_refl _, fun i => heq.millisLastRun ▸ hsame i⟩

end

section
variable {plcs : ℕ → PlcPolling} {s : Refresh}

/-- No PLC's time is after that of its task, and a run that has still to test was
started late enough. -/
structure Kept (plcs : ℕ → PlcPolling) (s : Refresh) : Prop where
  flags : Flags s.sched
  single : Single s.sched
  timed : Timed (taskInterval plcs) s.sched
  stamped : ∀ i, s.timestampTryMs i ≤ s.sched.millisLastRun i
  untested : ∀ (k i : ℕ), s.sched.runs[k]? = some ⟨i, .running⟩ → s.update k = .test →
    (s.timestampTryMs i).toNat + (taskInterval plcs i).toNat < s.sched.now.toNat

theorem refreshStart_kept (tasks : ℕ) : Kept plcs (refreshStart tasks) := by
  constructor
  · exact start_flags tasks []
  · exact start_single tasks
  · exact start_timed tasks
  · intro i
    exact BitVec.le_refl _
  · intro k i hrun
    simp [refreshStart, start] at hrun

theorem inside_running {e : Event} {k i : ℕ} (h : s.inside e = some (k, i)) :
    s.sched.runs[k]? = some ⟨i, .running⟩ ∧ s.update k ≠ .done := by
  unfold Refresh.inside at h
  split at h
  · split at h
    · split_ifs at h with hdone
      cases h
      exact ⟨by assumption, hdone⟩
    · cases h
  · cases h

theorem Kept.sched (h : Kept plcs s) {e : Event} (hclock : ClockGoesOn s.sched e)
    (hsettled : Settled (taskInterval plcs) s.sched e) :
    Kept plcs { s with sched := step (taskInterval plcs) s.sched e } := by
  obtain ⟨hnow, hlast⟩ := step_times h.timed e hclock
  constructor
  · exact h.flags.step e
  · exact (single_step_iff h.flags h.single e).mpr hsettled
  · exact h.timed.step h.single e hclock
  · intro i
    exact BitVec.le_trans (h.stamped i) (hlast i)
  · intro k i hrun htest
    have hstamp := h.stamped i
    dsimp only at htest ⊢
    rcases step_running h.timed e hrun with hbefore | hlate
    · have hwaited := h.untested k i hbefore htest
      rw [BitVec.le_def] at hnow
      omega
    · rw [BitVec.le_def] at hnow hstamp
      omega

theorem Kept.polls (h : Kept plcs s) {k i : ℕ} (hrun : s.sched.runs[k]? = some ⟨i, .running⟩)
    (htest : s.update k = .test) (hport : (plcs i).tcpPort ≠ 0) (herrors : s.errors i ≤ 2) :
    s.polls plcs i = true := by
  have hwaited := h.untested k i hrun htest
  have hinterval : s.updateInterval plcs i = taskInterval plcs i := if_neg (not_lt.mpr herrors)
  simp only [Refresh.polls, hport, ne_eq, not_false_eq_true, decide_true, Bool.true_and, hinterval,
    decide_eq_true_eq]
  bv_omega

theorem Kept.setUpdate (h : Kept plcs s) (k : ℕ) {pc : UpdatePc} (hpc : pc ≠ .test) :
    Kept plcs (s.setUpdate k pc) := by
  constructor
  · exact h.flags
  · exact h.single
  · exact h.timed
  · exact h.stamped
  · intro l j hrun htest
    have hupdate : (s.setUpdate k pc).update = Function.update s.update k pc := rfl
    rw [hupdate, Function.update_apply] at htest
    split_ifs at htest with hlk
    · exact absurd htest hpc
    · exact h.untested l j hrun htest

/-- The note of the time of the start keeps `stamped`, and no other thread is
inside the task. -/
theorem Kept.stamp (h : Kept plcs s) {k i : ℕ} (hrun : s.sched.runs[k]? = some ⟨i, .running⟩)
    (hpc : s.update k ≠ .test) (hstart : s.sched.now = s.sched.millisLastRun i) :
    Kept plcs { s with timestampTryMs := Function.update s.timestampTryMs i s.sched.now } := by
  constructor
  · exact h.flags
  · exact h.single
  · exact h.timed
  · intro j
    dsimp only
    rw [Function.update_apply]
    split_ifs with hij
    · rw [hij, hstart]
      exact BitVec.le_refl _
    · exact h.stamped j
  · intro l j hl htest
    dsimp only at hl htest ⊢
    have hij : j ≠ i := by
      rintro rfl
      rw [h.flags.locks.running_unique hl hrun] at htest
      exact hpc htest
    rw [Function.update_of_ne hij]
    exact h.untested l j hl htest

theorem Kept.updateStep (h : Kept plcs s) {e : Event × ℤ} {k i : ℕ}
    (hin : s.inside e.1 = some (k, i)) (hstamps : StampsAtStart s e) :
    Kept plcs (s.updateStep plcs k i e.2) := by
  obtain ⟨hrun, hdone⟩ := inside_running hin
  cases hpc : s.update k with
  | test =>
      rw [Refresh.updateStep, hpc]
      apply h.setUpdate k
      split_ifs <;> simp
  | stamp =>
      rw [Refresh.updateStep, hpc]
      have hstamp := h.stamp hrun (by simp [hpc]) (hstamps k i hin hpc)
      exact hstamp.setUpdate k (by simp)
  | poll =>
      rw [Refresh.updateStep, hpc]
      have hset : Kept plcs (s.setUpdate k .done) := h.setUpdate k (by simp)
      exact ⟨hset.flags, hset.single, hset.timed, hset.stamped, hset.untested⟩
  | done => exact absurd hpc hdone

/-- The clock goes on, no check spawns a run while another one of the task has still
to enter, and the time of a poll is that of its run. -/
structure Punctual (plcs : ℕ → PlcPolling) (s : Refresh) (e : Event × ℤ) : Prop where
  clock : ClockGoesOn s.sched e.1
  settled : Settled (taskInterval plcs) s.sched e.1
  stamps : StampsAtStart s e

theorem Kept.step (h : Kept plcs s) {e : Event × ℤ} (hok : Punctual plcs s e) :
    Kept plcs (refreshStep plcs s e) := by
  unfold refreshStep
  cases hin : s.inside e.1 with
  | none => exact h.sched hok.clock hok.settled
  | some t => exact h.updateStep hin hok.stamps

theorem Kept.beats (h : Kept plcs s) (e : Event × ℤ) : Beats plcs s e := by
  intro k i hin htest _ hport herrors
  have hpolls := h.polls (inside_running hin).1 htest hport herrors
  simp [refreshStep, hin, Refresh.updateStep, htest, hpolls, Refresh.setUpdate]

end

/-- While every step is punctual, every run polls. -/
theorem along_beats (tasks : ℕ) (es : List (Event × ℤ))
    (h : Runs.Along (refreshStep plcs) (Punctual plcs) (refreshStart tasks) es) :
    Runs.Along (refreshStep plcs) (Beats plcs) (refreshStart tasks) es :=
  h.imp (I := Kept plcs) (fun _ e hs _ => hs.beats e) (fun _ _ hs hok => hs.step hok)
    (refreshStart_kept tasks)

theorem punctual_iff (s : Refresh) (e : Event × ℤ) : Punctual plcs s e ↔ ClockGoesOn s.sched e.1 ∧
    Settled (taskInterval plcs) s.sched e.1 ∧ ∀ t ∈ s.inside e.1, s.update t.1 = .stamp →
      s.sched.now = s.sched.millisLastRun t.2 :=
  ⟨fun h => ⟨h.clock, h.settled, fun t ht => h.stamps t.1 t.2 ht⟩,
    fun h => ⟨h.1, h.2.1, fun k i hin => h.2.2 (k, i) hin⟩⟩

instance (s : Refresh) (e : Event × ℤ) : Decidable (Punctual plcs s e) :=
  decidable_of_iff' _ (punctual_iff plcs s e)

/-- Two runs of the one task; the first notes the time `late` of its poll. -/
def twoRuns (late : Millis) : List (Event × ℤ) :=
  [.move .cycle, .move .cycle, .tick 1001, .move .cycle, .move (.run 0), .move (.run 0),
    .move (.run 0), .tick late, .move (.run 0), .move (.run 0), .move (.run 0), .move .cycle,
    .move .cycle, .tick 2002, .move .cycle, .move (.run 1), .move (.run 1)].map (·, 0)

def polledPlc (_ : ℕ) : PlcPolling := ⟨502, 1000⟩

theorem twoRuns_beats : Runs.Along (refreshStep polledPlc) (Beats polledPlc) (refreshStart 1)
    (twoRuns 1001 ++ [(.move (.run 1), 0)]) :=
  along_beats polledPlc 1 _ (by decide)

/-- A note that is 5 ms late loses the next poll. -/
theorem not_beats : ¬ ∀ (plcs : ℕ → PlcPolling) (tasks : ℕ) (es : List (Event × ℤ)),
    Runs.Along (refreshStep plcs) (fun s e => ClockGoesOn s.sched e.1) (refreshStart tasks) es →
      Runs.Along (refreshStep plcs) (Beats plcs) (refreshStart tasks) es := by
  intro h
  have hall := h polledPlc 1 (twoRuns 1006 ++ [(.move (.run 1), 0)]) (by decide)
  obtain ⟨-, hlast, -⟩ := Runs.along_append.mp hall
  have hdropped := hlast 1 0 (by decide) (by decide) (by decide) (by decide) (by decide)
  revert hdropped
  decide

end RwModbus.Scheduler
