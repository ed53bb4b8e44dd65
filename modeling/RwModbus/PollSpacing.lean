import RwModbus.UpdateMaster

/-!
# The distance of two polls

A check may spawn two runs of one task, and a run may wait long for its mutex. The
PLC's own test of the interval keeps its polls apart all the same, since only one
run at a time is inside the task's function.
-/
namespace RwModbus.Scheduler

/-- The threads and the polls that the PLCs have begun, the latest first, each with
its time and the interval that it was tested against. -/
structure PollLog where
  refresh : Refresh
  polls : ℕ → List (Millis × Millis) := fun _ => []

variable (plcs : ℕ → PlcPolling)

/-- The note of the time is the beginning of a poll. -/
def logPoll (l : PollLog) (e : Event × ℤ) : PollLog where
  refresh := refreshStep plcs l.refresh e
  polls :=
    match l.refresh.inside e.1 with
    | some (k, i) =>
        if l.refresh.update k = .stamp then
          Function.update l.polls i
            ((l.refresh.sched.now, l.refresh.updateInterval plcs i) :: l.polls i)
        else l.polls
    | none => l.polls

def pollStart (tasks : ℕ) : PollLog := { refresh := refreshStart tasks }

/-- A poll begins when its interval is over. -/
def Later (later earlier : Millis × Millis) : Prop :=
  earlier.1.toNat + later.2.toNat < later.1.toNat

/-- What keeps the polls apart: a run that is about to note the time is inside its task
and has passed the test. -/
structure Paced (l : PollLog) : Prop where
  flags : Flags l.refresh.sched
  last : ∀ i, ∀ p ∈ (l.polls i).head?, p.1 = l.refresh.timestampTryMs i
  past : ∀ i, l.refresh.timestampTryMs i ≤ l.refresh.sched.now
  inTask : ∀ k, l.refresh.update k = .stamp →
    ∃ i, l.refresh.sched.runs[k]? = some ⟨i, .running⟩
  tested : ∀ (k i : ℕ), l.refresh.sched.runs[k]? = some ⟨i, .running⟩ →
    l.refresh.update k = .stamp → (l.refresh.timestampTryMs i).toNat +
      (l.refresh.updateInterval plcs i).toNat < l.refresh.sched.now.toNat
  apart : ∀ i, (l.polls i).IsChain Later

variable {plcs} {l : PollLog}

theorem pollStart_paced (tasks : ℕ) : Paced plcs (pollStart tasks) := by
  refine ⟨start_flags tasks [], fun i p hp => ?_, fun i => BitVec.le_refl _, fun k hk => ?_,
    fun k i _ hk => ?_, fun i => List.isChain_nil⟩
  · simp [pollStart] at hp
  · simp [pollStart, refreshStart] at hk
  · simp [pollStart, refreshStart] at hk

/-- A run that is inside its task leaves it by a step of its own thread. -/
theorem step_stays {interval : ℕ → Millis} {s : Schedule} {k i : ℕ}
    (hrun : s.runs[k]? = some ⟨i, .running⟩) {e : Event} (he : e ≠ .move (.run k)) :
    (step interval s e).runs[k]? = some ⟨i, .running⟩ := by
  cases e with
  | tick now => exact hrun
  | move t =>
      cases hs : threadStep interval t s with
      | none => simpa [step, hs] using hrun
      | some s' =>
          simp only [step, hs, Option.getD_some]
          cases threadStep_effect hs with
          | nothing h => rw [h.runs, hrun]
          | spawn j _ _ _ _ h =>
              rw [h.runs, spawn_running]
              exact hrun
          | enter m j _ hm h =>
              rw [h.runs, setPhase_runs hm]
              split_ifs with hkm
              · rw [hkm, hm] at hrun
                cases hrun
              · exact hrun
          | start m j _ hm _ h =>
              rw [h.runs, startRun_runs hm]
              split_ifs with hkm
              · rw [hkm, hm] at hrun
                cases hrun
              · exact hrun
          | finish m j ht hm h =>
              have hkm : k ≠ m := fun hkm => he (by rw [ht, hkm])
              rw [h.runs, finishRun_runs hm, if_neg hkm]
              exact hrun

theorem step_now (interval : ℕ → Millis) {s : Schedule} {e : Event} (h : ClockGoesOn s e) :
    s.now ≤ (step interval s e).now := by
  cases e with
  | tick now => exact h
  | move t =>
      cases hs : threadStep interval t s with
      | none =>
          simp only [step, hs, Option.getD_none]
          exact BitVec.le_refl _
      | some s' =>
          have hnow : s'.now = s.now := by
            cases threadStep_effect hs with
            | nothing h => exact h.now
            | spawn j _ _ _ _ h => exact h.now
            | enter m j _ _ h => exact h.now
            | start m j _ _ _ h => exact h.now
            | finish m j _ _ h => exact h.now
          simp only [step, hs, Option.getD_some, hnow]
          exact BitVec.le_refl _

theorem Paced.sched (h : Paced plcs l) {e : Event} (hin : l.refresh.inside e = none)
    (hclock : ClockGoesOn l.refresh.sched e) :
    Paced plcs { l with refresh :=
      { l.refresh with sched := step (taskInterval plcs) l.refresh.sched e } } := by
  have hnow := step_now (taskInterval plcs) hclock
  have hstays : ∀ k i, l.refresh.update k = .stamp →
      l.refresh.sched.runs[k]? = some ⟨i, .running⟩ →
      (step (taskInterval plcs) l.refresh.sched e).runs[k]? = some ⟨i, .running⟩ := by
    intro k i hk hrun
    apply step_stays hrun
    rintro rfl
    simp [Refresh.inside, hrun, hk] at hin
  refine ⟨h.flags.step e, h.last, fun i => BitVec.le_trans (h.past i) hnow, fun k hk => ?_,
    fun k i hrun hk => ?_, h.apart⟩
  · obtain ⟨i, hrun⟩ := h.inTask k hk
    exact ⟨i, hstays k i hk hrun⟩
  · obtain ⟨j, hbefore⟩ := h.inTask k hk
    have hij : j = i := by
      have hboth := (hstays k j hk hbefore).symm.trans hrun
      simpa using hboth
    subst hij
    have htested := h.tested k j hbefore hk
    rw [BitVec.le_def] at hnow
    exact lt_of_lt_of_le htested hnow

theorem Paced.test (h : Paced plcs l) {k i : ℕ}
    (hrun : l.refresh.sched.runs[k]? = some ⟨i, .running⟩) :
    Paced plcs { l with refresh :=
      l.refresh.setUpdate k (if l.refresh.polls plcs i then .stamp else .done) } := by
  refine ⟨h.flags, h.last, h.past, fun m hm => ?_, fun m j hmrun hm => ?_, h.apart⟩
  · by_cases hmk : m = k
    · subst hmk
      exact ⟨i, hrun⟩
    · apply h.inTask m
      simpa [Refresh.setUpdate, hmk] using hm
  · by_cases hmk : m = k
    · subst hmk
      obtain rfl : j = i := by
        have hboth := hrun.symm.trans hmrun
        simpa using hboth.symm
      have hpolls : l.refresh.polls plcs j = true := by
        by_contra hno
        simp [Refresh.setUpdate, hno] at hm
      have hpast := h.past j
      simp only [Refresh.polls, Bool.and_eq_true, decide_eq_true_eq] at hpolls
      have hover := hpolls.2
      change (l.refresh.timestampTryMs j).toNat + (l.refresh.updateInterval plcs j).toNat <
        l.refresh.sched.now.toNat
      bv_omega
    · apply h.tested m j hmrun
      simpa [Refresh.setUpdate, hmk] using hm

/-- The note of the time begins a poll, late enough after the one before. -/
theorem Paced.stamp (h : Paced plcs l) {k i : ℕ}
    (hrun : l.refresh.sched.runs[k]? = some ⟨i, .running⟩) (hk : l.refresh.update k = .stamp) :
    Paced plcs
      { refresh := { l.refresh.setUpdate k .poll with
          timestampTryMs := Function.update l.refresh.timestampTryMs i l.refresh.sched.now }
        polls := Function.update l.polls i
          ((l.refresh.sched.now, l.refresh.updateInterval plcs i) :: l.polls i) } := by
  have hother : ∀ m, (l.refresh.setUpdate k .poll).update m = .stamp →
      m ≠ k ∧ l.refresh.update m = .stamp := by
    intro m hm
    by_cases hmk : m = k
    · simp [Refresh.setUpdate, hmk] at hm
    · exact ⟨hmk, by simpa [Refresh.setUpdate, hmk] using hm⟩
  refine ⟨h.flags, fun j p hp => ?_, fun j => ?_, fun m hm => h.inTask m (hother m hm).2,
    fun m j hmrun hm => ?_, fun j => ?_⟩
  · dsimp only at hp ⊢
    by_cases hji : j = i
    · subst hji
      simp only [Function.update_self, List.head?_cons, Option.mem_def, Option.some.injEq] at hp
      rw [← hp, Function.update_self]
    · rw [Function.update_of_ne hji] at hp ⊢
      exact h.last j p hp
  · dsimp only
    by_cases hji : j = i
    · subst hji
      rw [Function.update_self]
      exact BitVec.le_refl _
    · rw [Function.update_of_ne hji]
      exact h.past j
  · obtain ⟨hmk, hstamp⟩ := hother m hm
    have hji : j ≠ i := by
      rintro rfl
      exact hmk (h.flags.locks.running_unique hmrun hrun)
    dsimp only
    rw [Function.update_of_ne hji]
    exact h.tested m j hmrun hstamp
  · dsimp only
    by_cases hji : j = i
    · subst hji
      rw [Function.update_self]
      have htested := h.tested k j hrun hk
      apply List.IsChain.cons (h.apart j)
      intro p hp
      have hlast := h.last j p hp
      rw [Later, hlast]
      exact htested
    · rw [Function.update_of_ne hji]
      exact h.apart j

theorem Paced.poll (h : Paced plcs l) {k i : ℕ}
    (hrun : l.refresh.sched.runs[k]? = some ⟨i, .running⟩) (errors : ℤ) :
    Paced plcs { l with refresh := { l.refresh.setUpdate k .done with
      errors := Function.update l.refresh.errors i errors } } := by
  have hother : ∀ m, (l.refresh.setUpdate k .done).update m = .stamp →
      m ≠ k ∧ l.refresh.update m = .stamp := by
    intro m hm
    by_cases hmk : m = k
    · simp [Refresh.setUpdate, hmk] at hm
    · exact ⟨hmk, by simpa [Refresh.setUpdate, hmk] using hm⟩
  refine ⟨h.flags, h.last, h.past, fun m hm => h.inTask m (hother m hm).2,
    fun m j hmrun hm => ?_, h.apart⟩
  obtain ⟨hmk, hstamp⟩ := hother m hm
  have hji : j ≠ i := by
    rintro rfl
    exact hmk (h.flags.locks.running_unique hmrun hrun)
  have hinterval : Refresh.updateInterval plcs j { l.refresh.setUpdate k .done with
      errors := Function.update l.refresh.errors i errors } = l.refresh.updateInterval plcs j := by
    simp only [Refresh.updateInterval, Function.update_of_ne hji]
  rw [hinterval]
  exact h.tested m j hmrun hstamp

theorem Paced.step (h : Paced plcs l) {e : Event × ℤ} (hclock : ClockGoesOn l.refresh.sched e.1) :
    Paced plcs (logPoll plcs l e) := by
  cases hin : l.refresh.inside e.1 with
  | none =>
      have hlog : logPoll plcs l e = { l with refresh :=
          { l.refresh with sched := Scheduler.step (taskInterval plcs) l.refresh.sched e.1 } } := by
        simp [logPoll, refreshStep, hin]
      rw [hlog]
      exact h.sched hin hclock
  | some t =>
      obtain ⟨k, i⟩ := t
      obtain ⟨hrun, hdone⟩ := inside_running hin
      cases hpc : l.refresh.update k with
      | test =>
          have htest := h.test hrun
          simpa [logPoll, refreshStep, hin, Refresh.updateStep, hpc] using htest
      | stamp =>
          have hstamp := h.stamp hrun hpc
          simpa [logPoll, refreshStep, hin, Refresh.updateStep, hpc] using hstamp
      | poll =>
          have hpoll := h.poll hrun e.2
          simpa [logPoll, refreshStep, hin, Refresh.updateStep, hpc] using hpoll
      | done => exact absurd hpc hdone

/-- While the clock does not step back, any two polls of a PLC that follow one another
are further apart than its interval, however the threads run. -/
theorem polls_apart (plcs : ℕ → PlcPolling) (tasks : ℕ) (es : List (Event × ℤ))
    (h : Runs.Along (logPoll plcs) (fun l e => ClockGoesOn l.refresh.sched e.1) (pollStart tasks) es)
    (i : ℕ) : ((Runs.run (logPoll plcs) (pollStart tasks) es).polls i).IsChain Later :=
  (h.invariant (I := Paced plcs) (fun _ _ hs hclock => hs.step hclock)
    (pollStart_paced tasks)).apart i

/-- Two runs of the task are spawned before the first one enters. -/
def overlapping : List (Event × ℤ) :=
  [.move .cycle, .move .cycle, .tick 1001, .move .cycle, .move .cycle, .move .cycle, .move .cycle,
    .move (.run 0), .move (.run 0), .move (.run 0), .move (.run 0), .move (.run 0),
    .move (.run 0), .move (.run 1), .tick 2002, .move (.run 1), .move (.run 1), .move (.run 1)].map
    (·, 0)

theorem overlapping_apart :
    ((Runs.run (logPoll polledPlc) (pollStart 1) overlapping).polls 0).IsChain Later :=
  polls_apart polledPlc 1 overlapping (by decide) 0

end RwModbus.Scheduler
