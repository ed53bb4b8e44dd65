import RwModbus.PolledBlock

/-!
# The requests of a poll and of a write-out

A poll keeps its hands off the registers unless it ends in a reply that covers the
whole block, and it asks no further once it has one. A write-out gives every pending
register its attempts and counts those that are still pending after them.
-/
namespace RwModbus.Master
open Numeric Registers

/-- A write is waiting in a writable register. -/
def Pending (m : ModbusPLC) (a : ℤ) : Prop :=
  (m.regs.val a).data.rmode ≠ 0 ∧ (m.regs.val a).data.rupdate ≠ 0

instance (m : ModbusPLC) (a : ℤ) : Decidable (Pending m a) := inferInstanceAs (Decidable (_ ∧ _))

/-- All registers are within the bounds, and so in the buffer of `read_allregs`. -/
def Covered (m : ModbusPLC) : Prop := ∀ a ∈ m.regs.keys, m.regMin ≤ a ∧ a ≤ m.regMax

/-- `init_regs` widens the bounds to all registers. -/
theorem initRegs_covered (m : ModbusPLC) : Covered (initRegs m) := by
  intro a ha
  obtain ⟨hleast, hgreatest⟩ := foldl_widen_spec
    (m.regs.keys.map fun a => (m.regs.val a).raddr) (m.regMin, m.regMax)
  have hmem : a ∈ m.regs.keys.map fun a => (m.regs.val a).raddr :=
    List.mem_map.mpr ⟨a, ha, m.placed a⟩
  exact ⟨hleast.2 (Set.mem_insert_of_mem _ hmem), hgreatest.2 (Set.mem_insert_of_mem _ hmem)⟩

/-- The replies to the read requests, in order. -/
def reads (cs : List Call) : List ℤ :=
  cs.filterMap fun
    | .read _ _ reply => some reply
    | _ => none

@[simp] theorem reads_append (cs ds : List Call) : reads (cs ++ ds) = reads cs ++ reads ds :=
  List.filterMap_append

theorem reads_mbConnect (l : Link) (m : ModbusPLC) : reads (mbConnect l m).2 = [] := by
  unfold mbConnect
  dsimp only
  split_ifs <;> rfl

/-- An attempt asks once at most, and a reply to the whole block is a success. -/
theorem tryRead_reads (device : ℤ → Word) (e : ReadAttempt) (m : ModbusPLC) :
    reads (tryRead device e m).2 = [] ∨
    reads (tryRead device e m).2 = [e.reply] ∧
      (e.reply = nbRegs m → 0 < (tryRead device e m).1.rc) := by
  obtain ⟨-, -, -, hset⟩ := mbConnect_frame e.toLink { m with att := m.att + 1 }
  have hcalls := reads_mbConnect e.toLink { m with att := m.att + 1 }
  unfold tryRead
  dsimp only
  generalize mbConnect e.toLink { m with att := m.att + 1 } = c at *
  simp only [setup, Prod.mk.injEq] at hset
  by_cases h : c.1.rc = 0
  · have hblock : nbRegs c.1 = nbRegs m := by simp only [nbRegs, hset]
    rw [if_pos h, readAllregs, hblock]
    refine Or.inr ⟨?_, fun hreply => ?_⟩
    · split_ifs <;> (dsimp only; rw [reads_append, hcalls]; rfl)
    · rw [if_pos hreply]
      exact hreply ▸ nbRegs_pos m
  · rw [if_neg h]
    exact Or.inl hcalls

theorem readLoop_reads (device : ℤ → Word) (env : ℕ → ReadAttempt) (fuel : ℕ) (m : ModbusPLC) :
    (reads (readLoop device env fuel m).2).length ≤ fuel ∧
      nbRegs m ∉ (reads (readLoop device env fuel m).2).dropLast := by
  induction fuel generalizing m with
  | zero => exact ⟨le_rfl, List.not_mem_nil⟩
  | succ fuel ih =>
      unfold readLoop
      split_ifs with h
      · obtain ⟨hset, -⟩ := tryRead_setup device (env m.att.toNat) m
        have hreads := tryRead_reads device (env m.att.toNat) m
        generalize tryRead device (env m.att.toNat) m = r at *
        simp only [setup, Prod.mk.injEq] at hset
        have hblock : nbRegs r.1 = nbRegs m := by simp only [nbRegs, hset]
        obtain ⟨hlen, hlast⟩ := ih r.1
        rw [hblock] at hlast
        dsimp only
        rw [reads_append]
        rcases hreads with hnone | ⟨hone, hsucc⟩
        · rw [hnone, List.nil_append]
          exact ⟨by omega, hlast⟩
        · rw [hone, List.singleton_append]
          refine ⟨by rw [List.length_cons]; omega, ?_⟩
          cases hrest : reads (readLoop device env fuel r.1).2 with
          | nil => exact List.not_mem_nil
          | cons reply replies =>
              -- after a success there is no further round
              have hgo : ¬ 0 < r.1.rc := by
                intro hpos
                rw [readLoop_stop device env fuel hpos] at hrest
                exact absurd hrest (List.cons_ne_nil _ _).symm
              rw [hrest] at hlast
              rw [List.dropLast_cons_of_ne_nil (List.cons_ne_nil _ _), List.mem_cons, not_or]
              exact ⟨fun heq => hgo (hsucc heq.symm), hlast⟩
      · exact ⟨Nat.zero_le _, List.not_mem_nil⟩

/-- What a poll does to register `a`. -/
structure Polled (device : ℤ → Word) (m m' : ModbusPLC) (a : ℤ) : Prop where
  rupdate : (m'.regs.val a).data.rupdate = (m.regs.val a).data.rupdate
  failed : m'.rc ≤ 0 → (m'.regs.val a).data.rvalue = (m.regs.val a).data.rvalue
  skipped : Pending m a → (m'.regs.val a).data.rvalue = (m.regs.val a).data.rvalue
  taken : 0 < m'.rc → ¬ Pending m a →
    (m'.regs.val a).data.rvalue = device a ∧ 0 ≤ a - m.regMin ∧ a - m.regMin < nbRegs m

theorem takePoll_pending {mbregs : ℤ → Word} {regMin : ℤ} {m : ModbusPLC} {a : ℤ}
    (h : Pending m a) : takePoll mbregs regMin (m.regs.val a) = m.regs.val a :=
  if_neg (not_or.mpr h)

theorem takePoll_rvalue {device : ℤ → Word} {m : ModbusPLC} {a : ℤ} (h : ¬ Pending m a) :
    (takePoll (fun k => device (m.regMin + k)) m.regMin (m.regs.val a)).data.rvalue = device a := by
  rw [Pending, not_and_or, not_not, not_not] at h
  rw [takePoll, if_pos h, m.placed a, add_sub_cancel]

@[simp] theorem takePoll_rupdate (mbregs : ℤ → Word) (regMin : ℤ) (R : Mbreg) :
    (takePoll mbregs regMin R).data.rupdate = R.data.rupdate := by
  unfold takePoll
  split_ifs <;> rfl

/-- For every device and all outcomes of the calls, a poll either fails and changes no
value, or takes the words of all registers that are not pending; it makes at most
`attempts` read requests, and none after one that succeeds. -/
theorem readMaster_atomic (device : ℤ → Word) (env : ℕ → ReadAttempt) (m : ModbusPLC)
    (hm : Covered m) :
    (∀ a ∈ m.regs.keys, Polled device m (readMaster device env m).1 a) ∧
    (reads (readMaster device env m).2).length ≤ m.attempts.toNat ∧
    nbRegs m ∉ (reads (readMaster device env m).2).dropLast := by
  refine ⟨fun a ha => ?_, readLoop_reads device env m.attempts.toNat { m with rc := 0, att := 0 }⟩
  have hrange : 0 ≤ a - m.regMin ∧ a - m.regMin < nbRegs m := by
    obtain ⟨hmin, hmax⟩ := hm a ha
    unfold nbRegs
    omega
  rcases lt_or_ge 0 (readMaster device env m).1.rc with h | h
  · have hval := readMaster_ok h a
    dsimp only at hval
    refine ⟨by rw [hval, takePoll_rupdate], fun hneg => absurd h (not_lt.mpr hneg), fun hp => ?_,
      fun _ hp => ⟨?_, hrange⟩⟩
    · rw [hval, takePoll_pending hp]
    · rw [hval]
      exact takePoll_rvalue hp
  · have hval := readMaster_failed h a
    refine ⟨by rw [hval], fun _ => by rw [hval], fun _ => by rw [hval],
      fun hpos => absurd h (not_le.mpr hpos)⟩

/-- Two registers, 2 to 3, of a device with three attempts: one can be written. -/
def twoRegs : ModbusPLC :=
  initRegs { strDevName := ['P'], tcpPort := 502, attempts := 3, bounds := bounds_zero,
             regs := ((KeyedMap.empty fun a => { raddr := a }).insert 2 { raddr := 2 }).insert 3
               { raddr := 3, strMode := ['r', 'w'], data := { rupdate := 1 } }
             placed := fun a => by
               by_cases h3 : a = 3 <;> by_cases h2 : a = 2 <;>
                 simp [KeyedMap.insert, KeyedMap.empty, Function.update, h3, h2] }

/-- No connection at first, then a short reply, then all four words. -/
def lateReads (i : ℕ) : ReadAttempt := ⟨⟨true, i ≠ 0⟩, if i = 1 then 2 else 4⟩

theorem readMaster_twoRegs :
    (∀ a ∈ twoRegs.regs.keys,
      Polled (fun _ => 9) twoRegs (readMaster (fun _ => 9) lateReads twoRegs).1 a) ∧
    (reads (readMaster (fun _ => 9) lateReads twoRegs).2).length ≤ 3 ∧
    4 ∉ (reads (readMaster (fun _ => 9) lateReads twoRegs).2).dropLast :=
  readMaster_atomic (fun _ => 9) lateReads twoRegs (initRegs_covered _)

/-- The calls of each try of the inner loop of `write_master`. -/
def writeTries (env : ℕ → WriteAttempt) (a : ℤ) : ℕ → ModbusPLC → List (List Call)
  | 0, _ => []
  | fuel + 1, m =>
      if m.att < m.attempts ∧ m.rc ≤ 0 then
        let r := tryWrite (env m.att.toNat) a m
        r.2 :: writeTries env a fuel r.1
      else []

theorem writeTries_flatten (env : ℕ → WriteAttempt) (a : ℤ) (fuel : ℕ) (m : ModbusPLC) :
    (writeTries env a fuel m).flatten = (writeLoop env a fuel m).2 := by
  induction fuel generalizing m with
  | zero => rfl
  | succ fuel ih =>
      unfold writeTries writeLoop
      split_ifs
      · dsimp only
        rw [List.flatten_cons, ih]
      · rfl

/-- The tries for one register in its turn. -/
def turnTries (env : ℤ → ℕ → WriteAttempt) (m : ModbusPLC) (a : ℤ) : List (List Call) :=
  if Pending m a then writeTries (env a) a m.attempts.toNat { m with rc := 0, att := 0 } else []

/-- The tries for each register that the outer loop comes to. -/
def turnsTries (env : ℤ → ℕ → WriteAttempt) : List ℤ → ModbusPLC → List (ℤ × List (List Call))
  | [], _ => []
  | a :: as, m => (a, turnTries env m a) :: turnsTries env as (writeTurn env m a).1

theorem turnsTries_keys (env : ℤ → ℕ → WriteAttempt) (as : List ℤ) (m : ModbusPLC) :
    (turnsTries env as m).map Prod.fst = as := by
  induction as generalizing m with
  | nil => rfl
  | cons a as ih => rw [turnsTries, List.map_cons, ih]

/-- The turn of a pending register. -/
theorem writeTurn_pending {m : ModbusPLC} {a : ℤ} (h : Pending m a) (env : ℤ → ℕ → WriteAttempt) :
    writeTurn env m a =
      (let r := writeLoop (env a) a m.attempts.toNat { m with rc := 0, att := 0 }
       (if r.1.rc = -1 then { r.1 with rcWrite := r.1.rcWrite - 1 } else r.1, r.2)) := if_pos h

theorem writeTurn_idle {m : ModbusPLC} {a : ℤ} (h : ¬ Pending m a) (env : ℤ → ℕ → WriteAttempt) :
    writeTurn env m a = (m, []) := if_neg h

theorem turnTries_flatten (env : ℤ → ℕ → WriteAttempt) (m : ModbusPLC) (a : ℤ) :
    (turnTries env m a).flatten = (writeTurn env m a).2 := by
  by_cases h : Pending m a
  · rw [turnTries, if_pos h, writeTries_flatten, writeTurn_pending h]
  · rw [turnTries, if_neg h, writeTurn_idle h, List.flatten_nil]

/-- The tries make up all the calls. -/
theorem turnsTries_flatten (env : ℤ → ℕ → WriteAttempt) (as : List ℤ) (m : ModbusPLC) :
    (turnsTries env as m).flatMap (fun t => t.2.flatten) = (writeTurns env as m).2 := by
  induction as generalizing m with
  | nil => rfl
  | cons a as ih => rw [turnsTries, List.flatMap_cons, turnTries_flatten, ih, writeTurns]

/-- A try ends in an acknowledgement or an error, and counts as one attempt. -/
theorem tryWrite_ends (e : WriteAttempt) (a : ℤ) (m : ModbusPLC) (hrc : m.rc = 0 ∨ m.rc = -1) :
    ((tryWrite e a m).1.rc = 1 ∨ (tryWrite e a m).1.rc = -1) ∧
    (tryWrite e a m).1.attempts = m.attempts ∧ (tryWrite e a m).1.att = m.att + 1 := by
  obtain ⟨-, hatt, -, hset⟩ := mbConnect_frame e.toLink { m with att := m.att + 1 }
  have hrc' := mbConnect_rc e.toLink { m with att := m.att + 1 }
  simp only [setup, Prod.mk.injEq] at hatt hset hrc'
  unfold tryWrite
  dsimp only
  generalize mbConnect e.toLink { m with att := m.att + 1 } = c at *
  split_ifs with h
  · unfold writeReg
    split_ifs
    · exact ⟨Or.inl rfl, hset.1, hatt⟩
    · exact ⟨Or.inr rfl, hset.1, hatt⟩
  · exact ⟨Or.inr (by dsimp only; omega), hset.1, hatt⟩

/-- The inner loop stops at an acknowledgement or makes all the tries that are left. -/
theorem writeLoop_ends (env : ℕ → WriteAttempt) (a : ℤ) (fuel : ℕ) (m : ModbusPLC)
    (hrc : m.rc = 0 ∨ m.rc = -1) (hfuel : fuel = (m.attempts - m.att).toNat) :
    (writeLoop env a fuel m).1.attempts = m.attempts ∧
    ((writeLoop env a fuel m).1.rc = 1 ∨
      (writeLoop env a fuel m).1.rc = (if fuel = 0 then m.rc else -1) ∧
      (writeTries env a fuel m).length = fuel) := by
  induction fuel generalizing m with
  | zero => exact ⟨rfl, Or.inr ⟨rfl, rfl⟩⟩
  | succ fuel ih =>
      have hgo : m.att < m.attempts ∧ m.rc ≤ 0 := by omega
      obtain ⟨hend, hattempts, hatt⟩ := tryWrite_ends (env m.att.toNat) a m hrc
      unfold writeLoop writeTries
      rw [if_pos hgo, if_pos hgo]
      dsimp only
      generalize tryWrite (env m.att.toNat) a m = r at *
      rcases hend with hone | hneg
      · rw [writeLoop_stop env a fuel hone]
        exact ⟨hattempts, Or.inl hone⟩
      · obtain ⟨hsame, hrest⟩ := ih r.1 (Or.inr hneg) (by omega)
        refine ⟨hsame.trans hattempts, hrest.imp_right fun hfail => ⟨?_, ?_⟩⟩
        · rw [hfail.1, hneg, ite_self, if_neg (Nat.succ_ne_zero fuel)]
        · rw [List.length_cons, hfail.2]

theorem ackedWrites_flatten {ts : List (List Call)} (h : ackedWrites ts.flatten = []) :
    ∀ t ∈ ts, ackedWrites t = [] := by
  intro t ht
  have hsub : (ackedWrites t).Sublist (ackedWrites ts.flatten) :=
    (List.sublist_flatten_of_mem ht).filterMap _
  exact List.sublist_nil.mp (h ▸ hsub)

/-- The update went out, once, and is no longer pending. -/
def Acknowledged (a : ℤ) (m : ModbusPLC) (r : ModbusPLC × List Call) : Prop :=
  (r.1.regs.val a).data.rupdate = 0 ∧
  writesTo a (ackedWrites r.2) = [(m.regs.val a).data.rvalue]

/-- The update is as pending as before, after `attempts` tries without acknowledgement. -/
def GivenUp (a : ℤ) (m : ModbusPLC) (r : ModbusPLC × List Call) (tries : List (List Call)) : Prop :=
  (r.1.regs.val a).data.rupdate = (m.regs.val a).data.rupdate ∧
  writesTo a (ackedWrites r.2) = [] ∧
  tries.length = m.attempts.toNat ∧ ∀ t ∈ tries, ackedWrites t = []

/-- How the turn of a pending register ends. -/
theorem writeTurn_ends {m : ModbusPLC} {a : ℤ} (h : Pending m a) (hatt : 1 ≤ m.attempts)
    (env : ℤ → ℕ → WriteAttempt) : (writeTurn env m a).1.attempts = m.attempts ∧
      ((Acknowledged a m (writeTurn env m a) ∧ (writeTurn env m a).1.rcWrite = m.rcWrite) ∨
      (GivenUp a m (writeTurn env m a) (turnTries env m a) ∧
        (writeTurn env m a).1.rcWrite = m.rcWrite - 1)) := by
  have hflat := writeTries_flatten (env a) a m.attempts.toNat { m with rc := 0, att := 0 }
  obtain ⟨hattempts, hends⟩ := writeLoop_ends (env a) a m.attempts.toNat
    { m with rc := 0, att := 0 } (Or.inl rfl) (by simp)
  obtain ⟨-, hrw, -, hres⟩ := writeLoop_outcome (env a) a m.attempts.toNat
    { m with rc := 0, att := 0 } (Or.inl rfl)
  have hfuel : m.attempts.toNat ≠ 0 := by omega
  rw [writeTurn_pending h, turnTries, if_pos h]
  dsimp only at hattempts hends hrw hres ⊢
  generalize writeLoop (env a) a m.attempts.toNat { m with rc := 0, att := 0 } = r at *
  rw [if_neg hfuel] at hends
  rcases hends with hone | ⟨hneg, hlen⟩
  · obtain ⟨hreg, hack⟩ : r.1.regs.val a = accept (m.regs.val a) ∧
        ackedWrites r.2 = [((m.regs.val a).raddr, (m.regs.val a).data.rvalue)] := by
      rcases hres with ⟨-, hreg, hack⟩ | ⟨hzero, -⟩ | ⟨hneg, -⟩
      · exact ⟨hreg, hack⟩
      · omega
      · omega
    have hnot : r.1.rc ≠ -1 := by omega
    rw [if_neg hnot]
    refine ⟨hattempts, Or.inl ⟨⟨?_, ?_⟩, hrw⟩⟩
    · rw [hreg]
      rfl
    · simp [hack, m.placed a, writesTo]
  · obtain ⟨⟨n, hreg⟩, hack⟩ : Marked (m.regs.val a) (r.1.regs.val a) ∧ ackedWrites r.2 = [] := by
      rcases hres with ⟨hone, -⟩ | ⟨hzero, -⟩ | ⟨-, hreg, hack⟩
      · omega
      · omega
      · exact ⟨hreg, hack⟩
    rw [if_pos hneg]
    refine ⟨hattempts, Or.inr ⟨⟨?_, ?_, hlen, ackedWrites_flatten (hflat ▸ hack)⟩, ?_⟩⟩
    · simp [hreg]
    · rw [hack]
      rfl
    · dsimp only
      rw [hrw]

/-- Every write request among the calls is for one of the registers `as` that is pending,
with its value. -/
def WritesPending (as : List ℤ) (m : ModbusPLC) (cs : List Call) : Prop :=
  ∀ addr value acked, Call.write addr value acked ∈ cs →
    addr ∈ as ∧ Pending m addr ∧ value = (m.regs.val addr).data.rvalue

theorem mbConnect_noWrite (l : Link) (m : ModbusPLC) (addr : ℤ) (value : Word) (acked : Bool) :
    Call.write addr value acked ∉ (mbConnect l m).2 := by
  unfold mbConnect
  dsimp only
  split_ifs <;> simp

theorem writeReg_calls (e : WriteAttempt) (a : ℤ) (m : ModbusPLC) :
    (writeReg e a m).2 = [.write a (m.regs.val a).data.rvalue e.acked] := by
  unfold writeReg
  dsimp only
  rw [m.placed a]
  split_ifs <;> rfl

theorem tryWrite_writes {e : WriteAttempt} {a : ℤ} {m : ModbusPLC} {addr : ℤ} {value : Word}
    {acked : Bool} (h : Call.write addr value acked ∈ (tryWrite e a m).2) :
    addr = a ∧ value = (m.regs.val a).data.rvalue := by
  obtain ⟨hregs, -, -, -⟩ := mbConnect_frame e.toLink { m with att := m.att + 1 }
  have hnone := mbConnect_noWrite e.toLink { m with att := m.att + 1 } addr value acked
  unfold tryWrite at h
  dsimp only at h hregs
  generalize mbConnect e.toLink { m with att := m.att + 1 } = c at *
  split_ifs at h with hrc
  · rcases List.mem_append.mp h with h | h
    · exact absurd h hnone
    · rw [writeReg_calls, hregs, List.mem_singleton, Call.write.injEq] at h
      exact ⟨h.1, h.2.1⟩
  · exact absurd h hnone

theorem writeLoop_writes {env : ℕ → WriteAttempt} {a : ℤ} {fuel : ℕ} {m : ModbusPLC}
    (hrc : m.rc = 0 ∨ m.rc = -1) {addr : ℤ} {value : Word} {acked : Bool}
    (h : Call.write addr value acked ∈ (writeLoop env a fuel m).2) :
    addr = a ∧ value = (m.regs.val a).data.rvalue := by
  induction fuel generalizing m with
  | zero => exact absurd h List.not_mem_nil
  | succ fuel ih =>
      unfold writeLoop at h
      split_ifs at h with hgo
      · dsimp only at h
        rcases List.mem_append.mp h with h | h
        · exact tryWrite_writes h
        · obtain ⟨hend, -, -⟩ := tryWrite_ends (env m.att.toNat) a m hrc
          have hres := (tryWrite_outcome (env m.att.toNat) a m hrc).result
          generalize tryWrite (env m.att.toNat) a m = r at *
          rcases hend with hone | hneg
          · rw [writeLoop_stop env a fuel hone] at h
            exact absurd h List.not_mem_nil
          · obtain ⟨haddr, hvalue⟩ := ih (Or.inr hneg) h
            have hsame : (r.1.regs.val a).data.rvalue = (m.regs.val a).data.rvalue := by
              rcases hres with ⟨-, hreg, -⟩ | ⟨-, hreg, -⟩ | ⟨-, ⟨n, hreg⟩, -⟩
              · rw [hreg]
                rfl
              · rw [hreg]
              · rw [hreg]
            exact ⟨haddr, hvalue.trans hsame⟩
      · exact absurd h List.not_mem_nil

theorem writeTurn_writes (env : ℤ → ℕ → WriteAttempt) (m : ModbusPLC) (a : ℤ) :
    WritesPending [a] m (writeTurn env m a).2 := by
  intro addr value acked h
  by_cases hp : Pending m a
  · rw [writeTurn_pending hp] at h
    obtain ⟨rfl, hvalue⟩ := writeLoop_writes (Or.inl rfl) h
    exact ⟨List.mem_singleton_self addr, hp, hvalue⟩
  · rw [writeTurn_idle hp] at h
    exact absurd h List.not_mem_nil

/-- What holds of a part of a write-out that serves the registers `as`. -/
structure Accounted (as : List ℤ) (m : ModbusPLC) (r : ModbusPLC × List Call)
    (tries : List (ℤ × List (List Call))) : Prop where
  ends : ∀ t ∈ tries, Pending m t.1 → Acknowledged t.1 m r ∨ GivenUp t.1 m r t.2
  writes : WritesPending as m r.2
  count : r.1.rcWrite = m.rcWrite - (as.countP fun a => Pending r.1 a : ℕ)

theorem pending_congr {m m' : ModbusPLC} {a : ℤ} (h : m'.regs.val a = m.regs.val a) :
    Pending m' a ↔ Pending m a := by
  rw [Pending, h, Pending]

theorem Acknowledged.not_pending {a : ℤ} {m : ModbusPLC} {r : ModbusPLC × List Call}
    (h : Acknowledged a m r) : ¬ Pending r.1 a := fun hp => hp.2 h.1

/-- What one turn adds to the return value. -/
theorem writeTurn_count {m : ModbusPLC} (hatt : 1 ≤ m.attempts) (env : ℤ → ℕ → WriteAttempt)
    (a : ℤ) : (writeTurn env m a).1.attempts = m.attempts ∧ (writeTurn env m a).1.rcWrite =
      m.rcWrite - if Pending (writeTurn env m a).1 a then 1 else 0 := by
  by_cases hp : Pending m a
  · obtain ⟨hattempts, ⟨hack, hrw⟩ | ⟨hgiven, hrw⟩⟩ := writeTurn_ends hp hatt env
    · rw [if_neg hack.not_pending, sub_zero]
      exact ⟨hattempts, hrw⟩
    · have hmode : ((writeTurn env m a).1.regs.val a).data.rmode = (m.regs.val a).data.rmode := by
        rcases (writeTurn_outcome env m a).served a (List.mem_singleton_self a) with
          ⟨-, -, hval, -⟩ | ⟨⟨n, hval⟩, -⟩
        · rw [hval]
          rfl
        · rw [hval]
      have hstill : Pending (writeTurn env m a).1 a := by
        rw [Pending, hmode, hgiven.1]
        exact hp
      rw [if_pos hstill]
      exact ⟨hattempts, hrw⟩
  · rw [writeTurn_idle hp, if_neg hp, sub_zero]
    exact ⟨rfl, rfl⟩

/-- Calls for other registers after a turn do not change how it ended. -/
theorem ends_append {m : ModbusPLC} {a : ℤ} {r t : ModbusPLC × List Call} {tries : List (List Call)}
    (hval : t.1.regs.val a = r.1.regs.val a) (hnone : writesTo a (ackedWrites t.2) = [])
    (h : Acknowledged a m r ∨ GivenUp a m r tries) :
    Acknowledged a m (t.1, r.2 ++ t.2) ∨ GivenUp a m (t.1, r.2 ++ t.2) tries := by
  simp only [Acknowledged, GivenUp, ackedWrites_append, writesTo_append, hval, hnone,
    List.append_nil] at h ⊢
  exact h

/-- Nor do calls for other registers before it. -/
theorem ends_of_later {m : ModbusPLC} {a : ℤ} {r t : ModbusPLC × List Call}
    {tries : List (List Call)} (hattempts : r.1.attempts = m.attempts)
    (hval : r.1.regs.val a = m.regs.val a) (hnone : writesTo a (ackedWrites r.2) = [])
    (h : Acknowledged a r.1 t ∨ GivenUp a r.1 t tries) :
    Acknowledged a m (t.1, r.2 ++ t.2) ∨ GivenUp a m (t.1, r.2 ++ t.2) tries := by
  simp only [Acknowledged, GivenUp, ackedWrites_append, writesTo_append, hval, hnone,
    List.nil_append, hattempts] at h ⊢
  exact h

theorem WritesPending.append {m m' : ModbusPLC} {a : ℤ} {as : List ℤ} {cs ds : List Call}
    (h : WritesPending [a] m cs) (h' : WritesPending as m' ds)
    (hval : ∀ b ∈ as, m'.regs.val b = m.regs.val b) : WritesPending (a :: as) m (cs ++ ds) := by
  intro addr value acked hmem
  rcases List.mem_append.mp hmem with hmem | hmem
  · obtain ⟨haddr, hrest⟩ := h addr value acked hmem
    rw [List.mem_singleton.mp haddr] at hrest ⊢
    exact ⟨List.mem_cons_self, hrest⟩
  · obtain ⟨haddr, hp, hvalue⟩ := h' addr value acked hmem
    have hsame := hval addr haddr
    exact ⟨List.mem_cons_of_mem a haddr, (pending_congr hsame).mp hp, hsame ▸ hvalue⟩

theorem writeTurns_accounted (env : ℤ → ℕ → WriteAttempt) {as : List ℤ} (hnd : as.Nodup)
    {m : ModbusPLC} (hatt : 1 ≤ m.attempts) :
    Accounted as m (writeTurns env as m) (turnsTries env as m) := by
  induction as generalizing m with
  | nil => exact ⟨fun t ht => absurd ht List.not_mem_nil, fun _ _ _ h => absurd h List.not_mem_nil,
      by simp [writeTurns]⟩
  | cons a as ih =>
      obtain ⟨hnotin, hnd'⟩ := List.nodup_cons.mp hnd
      obtain ⟨hattempts, hcount⟩ := writeTurn_count hatt env a
      have hends : Pending m a → Acknowledged a m (writeTurn env m a) ∨
          GivenUp a m (writeTurn env m a) (turnTries env m a) := fun hp =>
        (writeTurn_ends hp hatt env).2.imp And.left And.left
      have hwrites := writeTurn_writes env m a
      have hothers : ∀ b ∈ as, (writeTurn env m a).1.regs.val b = m.regs.val b ∧
          writesTo b (ackedWrites (writeTurn env m a).2) = [] := by
        intro b hb
        exact (writeTurn_outcome env m a).others b fun h => hnotin (List.mem_singleton.mp h ▸ hb)
      obtain ⟨hval, hnone⟩ := (writeTurns_outcome env as (writeTurn env m a).1 hnd').others a hnotin
      have hrest := ih hnd' (m := (writeTurn env m a).1) (hattempts ▸ hatt)
      unfold writeTurns turnsTries
      dsimp only
      generalize writeTurn env m a = r at *
      generalize writeTurns env as r.1 = t at *
      refine ⟨fun b hb hp => ?_, hwrites.append hrest.writes fun b hb => (hothers b hb).1, ?_⟩
      · rcases List.mem_cons.mp hb with rfl | hb
        · exact ends_append hval hnone (hends hp)
        · have hbas : b.1 ∈ as := by
            rw [← turnsTries_keys env as r.1]
            exact List.mem_map_of_mem hb
          obtain ⟨hbval, hbnone⟩ := hothers b.1 hbas
          exact ends_of_later hattempts hbval hbnone (hrest.ends b hb ((pending_congr hbval).mpr hp))
      · rw [hrest.count, hcount, List.countP_cons]
        simp only [pending_congr hval, decide_eq_true_eq]
        split_ifs <;> push_cast <;> omega

/-- The tries of `write_master` for each of its registers. -/
def masterTries (env : ℤ → ℕ → WriteAttempt) (m : ModbusPLC) : List (ℤ × List (List Call)) :=
  turnsTries env m.regs.keys { m with rcWrite := 0 }

theorem exists_masterTries (env : ℤ → ℕ → WriteAttempt) {m : ModbusPLC} {a : ℤ}
    (h : a ∈ m.regs.keys) : ∃ tries, (a, tries) ∈ masterTries env m := by
  rw [← turnsTries_keys env m.regs.keys { m with rcWrite := 0 }] at h
  obtain ⟨⟨b, tries⟩, hmem, rfl⟩ := List.mem_map.mp h
  exact ⟨tries, hmem⟩

/-- After a write-out with any outcomes of the calls, which are those of the tries, every
pending register has either been acknowledged or has used up its attempts, nothing else
was written, no value has changed and the return value counts the registers that are
still pending. -/
theorem writeMaster_accounted (env : ℤ → ℕ → WriteAttempt) (m : ModbusPLC) (h : 1 ≤ m.attempts) :
    (masterTries env m).flatMap (fun t => t.2.flatten) = (writeMaster env m).2 ∧
    (∀ a ∈ m.regs.keys, Pending m a → ∃ tries, (a, tries) ∈ masterTries env m ∧
      Xor (Acknowledged a m (writeMaster env m)) (GivenUp a m (writeMaster env m) tries)) ∧
    WritesPending m.regs.keys m (writeMaster env m).2 ∧
    (∀ a, ((writeMaster env m).1.regs.val a).data.rvalue = (m.regs.val a).data.rvalue) ∧
    (writeMaster env m).1.rcWrite =
      -(m.regs.keys.countP fun a => Pending (writeMaster env m).1 a : ℕ) := by
  have hall : Accounted m.regs.keys { m with rcWrite := 0 } (writeMaster env m) (masterTries env m) :=
    writeTurns_accounted env m.regs.nodup h
  refine ⟨turnsTries_flatten env m.regs.keys { m with rcWrite := 0 }, fun a ha hp => ?_,
    hall.writes, fun a => (writeMaster_data env m a).1, ?_⟩
  · obtain ⟨tries, hmem⟩ := exists_masterTries env ha
    refine ⟨tries, hmem, ?_⟩
    rcases hall.ends (a, tries) hmem hp with hack | hgiven
    · exact Or.inl ⟨hack, fun hgiven => hp.2 (hgiven.1.symm.trans hack.1)⟩
    · exact Or.inr ⟨hgiven, fun hack => hp.2 (hgiven.1.symm.trans hack.1)⟩
  · rw [hall.count, zero_sub]

/-- No connection at first, then no acknowledgement, then one. -/
def lateWrites (_ : ℤ) (i : ℕ) : WriteAttempt := ⟨⟨true, i ≠ 0⟩, i = 2⟩

theorem writeMaster_twoRegs :
    (masterTries lateWrites twoRegs).flatMap (fun t => t.2.flatten) =
      (writeMaster lateWrites twoRegs).2 ∧
    (∀ a ∈ twoRegs.regs.keys, Pending twoRegs a → ∃ tries,
      (a, tries) ∈ masterTries lateWrites twoRegs ∧
      Xor (Acknowledged a twoRegs (writeMaster lateWrites twoRegs))
        (GivenUp a twoRegs (writeMaster lateWrites twoRegs) tries)) ∧
    WritesPending twoRegs.regs.keys twoRegs (writeMaster lateWrites twoRegs).2 ∧
    (∀ a, ((writeMaster lateWrites twoRegs).1.regs.val a).data.rvalue =
      (twoRegs.regs.val a).data.rvalue) ∧
    (writeMaster lateWrites twoRegs).1.rcWrite =
      -(twoRegs.regs.keys.countP fun a => Pending (writeMaster lateWrites twoRegs).1 a : ℕ) :=
  writeMaster_accounted lateWrites twoRegs (by decide)

end RwModbus.Master
