import RwModbus.Registers

/-!
# Master mode: connecting, polling and writing out

`mbplc_master.cpp` and `init_regs` as the code computes them. Every libmodbus
call takes its result from an environment indexed by the attempt (and, for
writes, by the register). The calls that were actually made are returned beside
the new state; they are ghost data and never read back.
-/
namespace RwModbus.Master
open Numeric Registers

/-- What `modbus_new_tcp` and `modbus_connect` answer if they are called. -/
structure Link where
  allocated : Bool
  connected : Bool
deriving DecidableEq, Repr

/-- A read attempt; `reply` is the result of `modbus_read_registers`. -/
structure ReadAttempt extends Link where
  reply : ℤ
deriving DecidableEq, Repr

/-- A write attempt; `modbus_write_register` answers 1 if acknowledged, else -1. -/
structure WriteAttempt extends Link where
  acked : Bool
deriving DecidableEq, Repr

inductive Call where
  | connect (ok : Bool)
  | read (first count reply : ℤ)
  | write (addr : ℤ) (value : Word) (acked : Bool)
deriving DecidableEq, Repr

/-- Bounds of a register map, as the first loop of `init_regs` widens them. -/
def widen (b : ℤ × ℤ) (a : ℤ) : ℤ × ℤ :=
  (if a < b.1 then a else b.1, if b.2 < a then a else b.2)

theorem widen_le {b : ℤ × ℤ} (h : b.1 ≤ b.2) (a : ℤ) : (widen b a).1 ≤ (widen b a).2 := by
  simp only [widen]
  split_ifs <;> omega

theorem foldl_widen_le (as : List ℤ) {b : ℤ × ℤ} (h : b.1 ≤ b.2) :
    (as.foldl widen b).1 ≤ (as.foldl widen b).2 := by
  induction as generalizing b with
  | nil => exact h
  | cons a as ih => exact ih (widen_le h a)

/-- `init_regs`. The full names and modes are set, the values start at 777 and
each register points to the one at the next address, if there is one. -/
def initRegs (m : ModbusPLC) : ModbusPLC :=
  let b := (m.regs.keys.map fun a => (m.regs.val a).raddr).foldl widen (m.regMin, m.regMax)
  { m with
    regMin := b.1
    regMax := b.2
    bounds := foldl_widen_le _ m.bounds
    regs := m.regs.mapVals fun _ R => { R with
      rfullname := m.strDevName ++ '.' :: R.strRname
      rNext := if R.raddr + 1 ∈ m.regs.keys then some (R.raddr + 1) else none
      data := { R.data with
        rmode := if R.strMode = ['r', 'w'] then 1 else 0
        rvalue := 777 } }
    placed := placed_mapVals m fun _ _ => rfl }

theorem initRegs_rNext {m : ModbusPLC} {a b : ℤ}
    (h : ((initRegs m).regs.val a).rNext = some b) : b = a + 1 := by
  simp only [initRegs, KeyedMap.mapVals_val, m.placed] at h
  split_ifs at h
  exact (Option.some.inj h).symm

/-- `mb_ctx`: drop the old context and allocate a new one. -/
def mbCtx (l : Link) (m : ModbusPLC) : ModbusPLC :=
  if m.tcpPort = 0 then { m with rc := 0, ctx := false }
  else if l.allocated then { m with rc := 0, ctx := true }
  else { m with rc := -1, ctx := false }

/-- `mb_connect`. With a live context and no errors it returns the member `rc`
as it finds it. `modbus_connect` refuses a null context. -/
def mbConnect (l : Link) (m : ModbusPLC) : ModbusPLC × List Call :=
  if m.mb.errors ≠ 0 ∨ m.ctx = false then
    let m := mbCtx l m
    if m.ctx && l.connected then ({ m with rc := 0 }, [.connect true])
    else
      ({ m with
        rc := -1
        ctx := false
        mb := { m.mb with errors := m.mb.errors + 1, errorsCn := m.mb.errorsCn + 1 } },
        [.connect false])
  else (m, [])

def nbRegs (m : ModbusPLC) : ℤ := m.regMax - m.regMin + 1

theorem nbRegs_pos (m : ModbusPLC) : 0 < nbRegs m := by
  have := m.bounds
  unfold nbRegs
  omega

/-- What a successful poll does to a register: one with a pending write is left
alone, any other takes the device's word. -/
def takePoll (mbregs : ℤ → Word) (regMin : ℤ) (R : Mbreg) : Mbreg :=
  if R.data.rmode = 0 ∨ R.data.rupdate = 0 then
    { R with data := { R.data with rvalue := mbregs (R.raddr - regMin) } }
  else R

@[simp] theorem takePoll_raddr (mbregs : ℤ → Word) (regMin : ℤ) (R : Mbreg) :
    (takePoll mbregs regMin R).raddr = R.raddr := by
  unfold takePoll
  split_ifs <;> rfl

/-- `read_allregs`, from a device holding `device a` at address `a`. -/
def readAllregs (device : ℤ → Word) (e : ReadAttempt) (m : ModbusPLC) :
    ModbusPLC × List Call :=
  let mbregs := fun k => device (m.regMin + k)
  if e.reply = nbRegs m then
    ({ m with
      rc := e.reply
      mb := { m.mb with errors := 0 }
      regs := m.regs.mapVals fun _ => takePoll mbregs m.regMin
      placed := placed_mapVals m fun _ => takePoll_raddr mbregs m.regMin },
      [.read m.regMin (nbRegs m) e.reply])
  else
    ({ m with
      rc := if e.reply = -1 then -1 else -2
      mb := { m.mb with errors := m.mb.errors + 1, errorsRd := m.mb.errorsRd + 1 } },
      [.read m.regMin (nbRegs m) e.reply])

/-- The body of the loop in `read_master`. -/
def tryRead (device : ℤ → Word) (e : ReadAttempt) (m : ModbusPLC) : ModbusPLC × List Call :=
  let c := mbConnect e.toLink { m with att := m.att + 1 }
  if c.1.rc = 0 then
    let r := readAllregs device e c.1
    (r.1, c.2 ++ r.2)
  else ({ c.1 with mb := { c.1.mb with errors := c.1.mb.errors + 1 } }, c.2)

/-- The loop of `read_master`; the fuel counts the attempts that are left. -/
def readLoop (device : ℤ → Word) (env : ℕ → ReadAttempt) :
    ℕ → ModbusPLC → ModbusPLC × List Call
  | 0, m => (m, [])
  | fuel + 1, m =>
      if m.att < m.attempts ∧ m.rc ≤ 0 then
        let r := tryRead device (env m.att.toNat) m
        let s := readLoop device env fuel r.1
        (s.1, r.2 ++ s.2)
      else (m, [])

/-- `read_master`. Its return value is the final `rc`. -/
def readMaster (device : ℤ → Word) (env : ℕ → ReadAttempt) (m : ModbusPLC) :
    ModbusPLC × List Call :=
  let r := readLoop device env m.attempts.toNat { m with rc := 0, att := 0 }
  let m := r.1
  ({ m with
    mb := { m.mb with status := m.rc }
    regs := m.regs.mapVals fun _ R => { R with data := { R.data with rerrors := m.mb.errors } }
    placed := placed_mapVals m fun _ _ => rfl },
    r.2)

/-- `write_reg` on the register with key `a`. -/
def writeReg (e : WriteAttempt) (a : ℤ) (m : ModbusPLC) : ModbusPLC × List Call :=
  let R := m.regs.val a
  let call := [Call.write R.raddr R.data.rvalue e.acked]
  if e.acked then
    ({ m with
      rc := 1
      mb := { m.mb with errors := 0 }
      regs := m.regs.modify a fun R =>
        { R with data := { R.data with rupdate := 0, rerrors := 0 } }
      placed := placed_modify m a fun _ => rfl }, call)
  else
    let errors := m.mb.errors + 1
    ({ m with
      rc := -1
      mb := { m.mb with errors := errors, errorsWr := m.mb.errorsWr + 1 }
      regs := m.regs.modify a fun R =>
        { R with data := { R.data with rerrors := errors } }
      placed := placed_modify m a fun _ => rfl }, call)

def tryWrite (e : WriteAttempt) (a : ℤ) (m : ModbusPLC) : ModbusPLC × List Call :=
  let c := mbConnect e.toLink { m with att := m.att + 1 }
  if c.1.rc = 0 then
    let r := writeReg e a c.1
    (r.1, c.2 ++ r.2)
  else ({ c.1 with mb := { c.1.mb with errors := c.1.mb.errors + 1 } }, c.2)

def writeLoop (env : ℕ → WriteAttempt) (a : ℤ) : ℕ → ModbusPLC → ModbusPLC × List Call
  | 0, m => (m, [])
  | fuel + 1, m =>
      if m.att < m.attempts ∧ m.rc ≤ 0 then
        let r := tryWrite (env m.att.toNat) a m
        let s := writeLoop env a fuel r.1
        (s.1, r.2 ++ s.2)
      else (m, [])

/-- One register's turn in `write_master`. -/
def writeTurn (env : ℤ → ℕ → WriteAttempt) (m : ModbusPLC) (a : ℤ) : ModbusPLC × List Call :=
  let rd := (m.regs.val a).data
  if rd.rmode ≠ 0 ∧ rd.rupdate ≠ 0 then
    let r := writeLoop (env a) a m.attempts.toNat { m with rc := 0, att := 0 }
    (if r.1.rc = -1 then { r.1 with rcWrite := r.1.rcWrite - 1 } else r.1, r.2)
  else (m, [])

/-- The outer loop of `write_master` over the given keys. -/
def writeTurns (env : ℤ → ℕ → WriteAttempt) : List ℤ → ModbusPLC → ModbusPLC × List Call
  | [], m => (m, [])
  | a :: as, m =>
      let r := writeTurn env m a
      let s := writeTurns env as r.1
      (s.1, r.2 ++ s.2)

/-- `write_master`. Its return value is the final `rcWrite`. -/
def writeMaster (env : ℤ → ℕ → WriteAttempt) (m : ModbusPLC) : ModbusPLC × List Call :=
  writeTurns env m.regs.keys { m with rcWrite := 0 }

def failedConnects (cs : List Call) : ℕ := cs.count (.connect false)

@[simp] theorem failedConnects_append (cs ds : List Call) :
    failedConnects (cs ++ ds) = failedConnects cs + failedConnects ds := List.count_append

/-- The part of the object no request changes. -/
def setup (m : ModbusPLC) : ℤ × ℤ × ℤ := (m.attempts, m.regMin, m.regMax)

theorem mbCtx_frame (l : Link) (m : ModbusPLC) :
    (mbCtx l m).regs = m.regs ∧ (mbCtx l m).mb = m.mb ∧ (mbCtx l m).att = m.att ∧
      (mbCtx l m).rcWrite = m.rcWrite ∧ setup (mbCtx l m) = setup m := by
  unfold mbCtx
  split_ifs <;> exact ⟨rfl, rfl, rfl, rfl, rfl⟩

theorem mbConnect_frame (l : Link) (m : ModbusPLC) :
    (mbConnect l m).1.regs = m.regs ∧ (mbConnect l m).1.att = m.att ∧
      (mbConnect l m).1.rcWrite = m.rcWrite ∧ setup (mbConnect l m).1 = setup m := by
  obtain ⟨hregs, -, hatt, hrw, hset⟩ := mbCtx_frame l m
  unfold mbConnect
  split_ifs with h
  · dsimp only
    split_ifs <;> exact ⟨hregs, hatt, hrw, hset⟩
  · exact ⟨rfl, rfl, rfl, rfl⟩

/-- A failed connect bumps the counter once; otherwise it is untouched. -/
theorem mbConnect_errors (l : Link) (m : ModbusPLC) :
    (mbConnect l m).1.mb.errors = m.mb.errors + BitVec.ofNat 16 (failedConnects (mbConnect l m).2) := by
  have hmb := (mbCtx_frame l m).2.1
  unfold mbConnect
  split_ifs with h
  · dsimp only
    split_ifs <;> simp [failedConnects, hmb]
  · simp [failedConnects]

theorem mbConnect_rc (l : Link) (m : ModbusPLC) :
    (mbConnect l m).1.rc = m.rc ∨ (mbConnect l m).1.rc = 0 ∨ (mbConnect l m).1.rc = -1 := by
  unfold mbConnect
  split_ifs with h
  · dsimp only
    split_ifs <;> simp
  · simp

/-- The two ways a poll of `n` attempts can end. -/
def PollOutcome (device : ℤ → Word) (n : ℕ) (m : ModbusPLC) (r : ModbusPLC × List Call) : Prop :=
  (0 < r.1.rc ∧ r.1.mb.errors = 0 ∧
    r.1.regs = m.regs.mapVals fun _ => takePoll (fun k => device (m.regMin + k)) m.regMin) ∨
  (r.1.rc ≤ 0 ∧ r.1.regs = m.regs ∧
    r.1.mb.errors = m.mb.errors + BitVec.ofNat 16 (n + failedConnects r.2))

theorem tryRead_setup (device : ℤ → Word) (e : ReadAttempt) (m : ModbusPLC) :
    setup (tryRead device e m).1 = setup m ∧ (tryRead device e m).1.att = m.att + 1 := by
  obtain ⟨-, hatt, -, hset⟩ := mbConnect_frame e.toLink { m with att := m.att + 1 }
  unfold tryRead
  dsimp only
  split_ifs with h
  · unfold readAllregs
    dsimp only
    split_ifs <;> exact ⟨hset, hatt⟩
  · exact ⟨hset, hatt⟩

theorem tryRead_outcome (device : ℤ → Word) (e : ReadAttempt) (m : ModbusPLC) (hrc : m.rc ≤ 0) :
    PollOutcome device 1 m (tryRead device e m) := by
  obtain ⟨hregs, -, -, hset⟩ := mbConnect_frame e.toLink { m with att := m.att + 1 }
  have herr := mbConnect_errors e.toLink { m with att := m.att + 1 }
  have hrc' := mbConnect_rc e.toLink { m with att := m.att + 1 }
  simp only [setup, Prod.mk.injEq] at hregs herr hrc' hset
  unfold tryRead
  dsimp only
  generalize mbConnect e.toLink { m with att := m.att + 1 } = c at *
  by_cases h : c.1.rc = 0
  · rw [if_pos h]
    by_cases hreply : e.reply = nbRegs c.1
    · -- the only successful exit: the reply covers the whole block
      have hpos := nbRegs_pos c.1
      rw [readAllregs, if_pos hreply]
      exact Or.inl ⟨hreply ▸ hpos, rfl, by simp only [hregs, hset]⟩
    · rw [readAllregs, if_neg hreply]
      refine Or.inr ⟨?_, hregs, ?_⟩
      · dsimp only
        split_ifs <;> decide
      · simp only [herr, failedConnects_append, BitVec.ofNat_add]
        simp only [failedConnects, List.count_singleton]
        simp
        ac_rfl
  · rw [if_neg h]
    refine Or.inr ⟨?_, hregs, ?_⟩
    · dsimp only
      omega
    · simp only [herr, BitVec.ofNat_add]
      ac_rfl

/-- A success ends the loop. -/
theorem readLoop_stop (device : ℤ → Word) (env : ℕ → ReadAttempt) (fuel : ℕ) {m : ModbusPLC}
    (h : 0 < m.rc) : readLoop device env fuel m = (m, []) := by
  cases fuel with
  | zero => rfl
  | succ fuel => exact if_neg (by omega)

theorem readLoop_spec (device : ℤ → Word) (env : ℕ → ReadAttempt) (fuel : ℕ) (m : ModbusPLC)
    (hrc : m.rc ≤ 0) :
    setup (readLoop device env fuel m).1 = setup m ∧
      PollOutcome device (min fuel (m.attempts - m.att).toNat) m (readLoop device env fuel m) := by
  induction fuel generalizing m with
  | zero => exact ⟨rfl, Or.inr ⟨hrc, rfl, by simp [readLoop, failedConnects]⟩⟩
  | succ fuel ih =>
      unfold readLoop
      split_ifs with h
      · obtain ⟨hset, hatt⟩ := tryRead_setup device (env m.att.toNat) m
        have hout := tryRead_outcome device (env m.att.toNat) m hrc
        generalize tryRead device (env m.att.toNat) m = r at *
        simp only [setup, Prod.mk.injEq] at hset
        dsimp only
        rcases hout with ⟨hpos, herr, hregs⟩ | ⟨hneg, hregs, herr⟩
        · rw [readLoop_stop device env fuel hpos]
          exact ⟨by simp only [setup, hset], Or.inl ⟨hpos, herr, hregs⟩⟩
        · obtain ⟨hset', hout'⟩ := ih r.1 hneg
          refine ⟨by rw [hset']; simp only [setup, hset], ?_⟩
          rcases hout' with ⟨hpos', herr', hregs'⟩ | ⟨hneg', hregs', herr'⟩
          · refine Or.inl ⟨hpos', herr', ?_⟩
            rw [hregs', hregs, hset.2.1]
          · refine Or.inr ⟨hneg', by rw [hregs', hregs], ?_⟩
            have hk : min (fuel + 1) (m.attempts - m.att).toNat =
                1 + min fuel (r.1.attempts - r.1.att).toNat := by
              rw [hset.1, hatt]
              omega
            rw [herr', herr, hk]
            simp only [failedConnects_append, BitVec.ofNat_add]
            ac_rfl
      · refine ⟨rfl, Or.inr ⟨hrc, rfl, ?_⟩⟩
        have hk : min (fuel + 1) (m.attempts - m.att).toNat = 0 := by omega
        simp [hk, failedConnects]

/-- A poll that returns a positive value has reset every register's error count
and copied the device's words to all registers but those with a pending write. -/
theorem readMaster_ok {device : ℤ → Word} {env : ℕ → ReadAttempt} {m : ModbusPLC}
    (h : 0 < (readMaster device env m).1.rc) (a : ℤ) :
    (readMaster device env m).1.regs.val a =
      let R := takePoll (fun k => device (m.regMin + k)) m.regMin (m.regs.val a)
      { R with data := { R.data with rerrors := 0 } } := by
  obtain ⟨-, hout⟩ := readLoop_spec device env m.attempts.toNat
    { m with rc := 0, att := 0 } le_rfl
  rcases hout with ⟨-, herr, hregs⟩ | ⟨hneg, -, -⟩
  · simp only [readMaster, KeyedMap.mapVals_val, herr, hregs]
  · exact absurd h (not_lt.mpr hneg)

/-- A poll that fails leaves every value, flag and mode alone; each register's
error count is the counter after one bump per attempt and one per failed connect. -/
theorem readMaster_failed {device : ℤ → Word} {env : ℕ → ReadAttempt} {m : ModbusPLC}
    (h : (readMaster device env m).1.rc ≤ 0) (a : ℤ) :
    (readMaster device env m).1.regs.val a =
      { m.regs.val a with data := { (m.regs.val a).data with
        rerrors := m.mb.errors + BitVec.ofNat 16
          (m.attempts.toNat + failedConnects (readMaster device env m).2) } } := by
  obtain ⟨-, hout⟩ := readLoop_spec device env m.attempts.toNat
    { m with rc := 0, att := 0 } le_rfl
  rcases hout with ⟨hpos, -, -⟩ | ⟨-, hregs, herr⟩
  · exact absurd h (not_le.mpr hpos)
  · simp only [readMaster, KeyedMap.mapVals_val, herr, hregs]
    simp

theorem readMaster_rmode (device : ℤ → Word) (env : ℕ → ReadAttempt) (m : ModbusPLC) (a : ℤ) :
    ((readMaster device env m).1.regs.val a).data.rmode = (m.regs.val a).data.rmode := by
  rcases lt_or_ge 0 (readMaster device env m).1.rc with h | h
  · rw [readMaster_ok h]
    dsimp only [takePoll]
    split_ifs <;> rfl
  · rw [readMaster_failed h]

@[simp] theorem readMaster_keys (device : ℤ → Word) (env : ℕ → ReadAttempt) (m : ModbusPLC) :
    (readMaster device env m).1.regs.keys = m.regs.keys := by
  obtain ⟨-, hout⟩ := readLoop_spec device env m.attempts.toNat
    { m with rc := 0, att := 0 } le_rfl
  rcases hout with ⟨-, -, hregs⟩ | ⟨-, hregs, -⟩ <;> simp [readMaster, hregs]

/-- The register writes that the device acknowledged, in order. -/
def ackedWrites (cs : List Call) : List (ℤ × Word) :=
  cs.filterMap fun
    | .write addr value true => some (addr, value)
    | _ => none

@[simp] theorem ackedWrites_append (cs ds : List Call) :
    ackedWrites (cs ++ ds) = ackedWrites cs ++ ackedWrites ds := List.filterMap_append

/-- The device's words after acknowledged writes. -/
def applyWrites (device : ℤ → Word) (ws : List (ℤ × Word)) : ℤ → Word :=
  ws.foldl (fun d w => Function.update d w.1 w.2) device

def accept (R : Mbreg) : Mbreg := { R with data := { R.data with rupdate := 0, rerrors := 0 } }

/-- Recording a failure: only the error count may change. -/
def Marked (R R' : Mbreg) : Prop := ∃ n, R' = { R with data := { R.data with rerrors := n } }

theorem Marked.refl (R : Mbreg) : Marked R R := ⟨R.data.rerrors, rfl⟩

theorem Marked.trans {R S T : Mbreg} (h : Marked R S) (h' : Marked S T) : Marked R T := by
  obtain ⟨n, rfl⟩ := h
  obtain ⟨k, rfl⟩ := h'
  exact ⟨k, rfl⟩

/-- How the attempts to write register `a` can end: acknowledged once, not made
at all, or all failed. No other register is touched. -/
structure WriteOutcome (a : ℤ) (m : ModbusPLC) (r : ModbusPLC × List Call) : Prop where
  keys : r.1.regs.keys = m.regs.keys
  rcWrite : r.1.rcWrite = m.rcWrite
  others : ∀ b, b ≠ a → r.1.regs.val b = m.regs.val b
  result : (r.1.rc = 1 ∧ r.1.regs.val a = accept (m.regs.val a) ∧
      ackedWrites r.2 = [((m.regs.val a).raddr, (m.regs.val a).data.rvalue)]) ∨
    (r.1.rc = m.rc ∧ r.1.regs.val a = m.regs.val a ∧ ackedWrites r.2 = []) ∨
    (r.1.rc = -1 ∧ Marked (m.regs.val a) (r.1.regs.val a) ∧ ackedWrites r.2 = [])

theorem ackedWrites_mbConnect (l : Link) (m : ModbusPLC) :
    ackedWrites (mbConnect l m).2 = [] := by
  unfold mbConnect
  dsimp only
  split_ifs <;> rfl

theorem tryWrite_outcome (e : WriteAttempt) (a : ℤ) (m : ModbusPLC)
    (hrc : m.rc = 0 ∨ m.rc = -1) : WriteOutcome a m (tryWrite e a m) := by
  obtain ⟨hregs, -, hrw, -⟩ := mbConnect_frame e.toLink { m with att := m.att + 1 }
  have hrc' := mbConnect_rc e.toLink { m with att := m.att + 1 }
  have hcalls := ackedWrites_mbConnect e.toLink { m with att := m.att + 1 }
  simp only at hregs hrw hrc'
  unfold tryWrite
  dsimp only
  generalize mbConnect e.toLink { m with att := m.att + 1 } = c at *
  by_cases h : c.1.rc = 0
  · rw [if_pos h, writeReg]
    rcases hacked : e.acked with _ | _
    · refine ⟨by simp [hregs], hrw, fun b hb => ?_, Or.inr (Or.inr ⟨rfl, ?_, ?_⟩)⟩
      · simp [hregs, KeyedMap.modify_val_of_ne _ hb]
      · exact ⟨c.1.mb.errors + 1, by simp [hregs]⟩
      · rw [ackedWrites_append, hcalls]
        rfl
    · refine ⟨by simp [hregs], hrw, fun b hb => ?_, Or.inl ⟨rfl, ?_, ?_⟩⟩
      · simp [hregs, KeyedMap.modify_val_of_ne _ hb]
      · simp [hregs, accept]
      · rw [ackedWrites_append, hcalls, ← hregs]
        rfl
  · rw [if_neg h]
    refine ⟨by rw [hregs], hrw, fun b _ => by rw [hregs], Or.inr (Or.inr ⟨?_, ?_, hcalls⟩)⟩
    · dsimp only
      omega
    · rw [hregs]
      exact Marked.refl _

/-- An acknowledgement ends the loop. -/
theorem writeLoop_stop (env : ℕ → WriteAttempt) (a : ℤ) (fuel : ℕ) {m : ModbusPLC}
    (h : m.rc = 1) : writeLoop env a fuel m = (m, []) := by
  cases fuel with
  | zero => rfl
  | succ fuel => exact if_neg (by omega)

theorem writeLoop_outcome (env : ℕ → WriteAttempt) (a : ℤ) (fuel : ℕ) (m : ModbusPLC)
    (hrc : m.rc = 0 ∨ m.rc = -1) : WriteOutcome a m (writeLoop env a fuel m) := by
  induction fuel generalizing m with
  | zero => exact ⟨rfl, rfl, fun _ _ => rfl, Or.inr (Or.inl ⟨rfl, rfl, rfl⟩)⟩
  | succ fuel ih =>
      unfold writeLoop
      split_ifs with h
      · obtain ⟨hkeys, hrw, hothers, hres⟩ := tryWrite_outcome (env m.att.toNat) a m hrc
        generalize tryWrite (env m.att.toNat) a m = r at *
        dsimp only
        rcases hres with ⟨hone, hreg, hack⟩ | hfail
        · rw [writeLoop_stop env a fuel hone]
          exact ⟨hkeys, hrw, hothers, Or.inl ⟨hone, hreg, by rw [List.append_nil, hack]⟩⟩
        · have hr : r.1.rc = 0 ∨ r.1.rc = -1 := by
            rcases hfail with ⟨hsame, -, -⟩ | ⟨hneg, -, -⟩ <;> omega
          have hmark : Marked (m.regs.val a) (r.1.regs.val a) := by
            rcases hfail with ⟨-, hreg, -⟩ | ⟨-, hreg, -⟩
            · rw [hreg]
              exact Marked.refl _
            · exact hreg
          have hnone : ackedWrites r.2 = [] := by
            rcases hfail with ⟨-, -, hack⟩ | ⟨-, -, hack⟩ <;> exact hack
          obtain ⟨hkeys', hrw', hothers', hres'⟩ := ih r.1 hr
          refine ⟨hkeys'.trans hkeys, hrw'.trans hrw,
            fun b hb => (hothers' b hb).trans (hothers b hb), ?_⟩
          simp only [ackedWrites_append, hnone, List.nil_append]
          rcases hres' with ⟨hone, hreg, hack⟩ | ⟨hsame, hreg, hack⟩ | ⟨hneg, hreg, hack⟩
          · obtain ⟨n, hn⟩ := hmark
            exact Or.inl ⟨hone, by rw [hreg, hn]; rfl, by rw [hack, hn]⟩
          · rcases hfail with ⟨hsame', hreg', -⟩ | ⟨hneg', -, -⟩
            · exact Or.inr (Or.inl ⟨hsame.trans hsame', hreg.trans hreg', hack⟩)
            · exact Or.inr (Or.inr ⟨hsame.trans hneg', hreg ▸ hmark, hack⟩)
          · exact Or.inr (Or.inr ⟨hneg, hmark.trans hreg, hack⟩)
      · exact ⟨rfl, rfl, fun _ _ => rfl, Or.inr (Or.inl ⟨rfl, rfl, rfl⟩)⟩

def writesTo (a : ℤ) (ws : List (ℤ × Word)) : List Word :=
  ws.filterMap fun w => if w.1 = a then some w.2 else none

@[simp] theorem writesTo_append (a : ℤ) (ws vs : List (ℤ × Word)) :
    writesTo a (ws ++ vs) = writesTo a ws ++ writesTo a vs := List.filterMap_append

theorem applyWrites_apply (device : ℤ → Word) (ws : List (ℤ × Word)) (a : ℤ) :
    applyWrites device ws a = (writesTo a ws).getLastD (device a) := by
  induction ws generalizing device with
  | nil => rfl
  | cons w ws ih =>
      have htail := ih (Function.update device w.1 w.2)
      simp only [applyWrites, List.foldl_cons] at htail ⊢
      rw [htail]
      by_cases h : w.1 = a
      · subst h
        have hcons : writesTo w.1 (w :: ws) = w.2 :: writesTo w.1 ws := by simp [writesTo]
        rw [Function.update_self, hcons, List.getLastD_cons]
      · simp [writesTo, h, Function.update_of_ne (Ne.symm h)]

/-- What a write-out has done to register `a`: its pending update went out and
was cleared, or nothing went out; then it is unchanged unless a failure was
counted in `rcWrite`. -/
def Served (a : ℤ) (m : ModbusPLC) (r : ModbusPLC × List Call) : Prop :=
  ((m.regs.val a).data.rmode ≠ 0 ∧ (m.regs.val a).data.rupdate ≠ 0 ∧
    r.1.regs.val a = accept (m.regs.val a) ∧
    writesTo a (ackedWrites r.2) = [(m.regs.val a).data.rvalue]) ∨
  (Marked (m.regs.val a) (r.1.regs.val a) ∧
    (r.1.rcWrite = m.rcWrite → r.1.regs.val a = m.regs.val a) ∧
    writesTo a (ackedWrites r.2) = [])

/-- What holds of every part of a write-out that serves the registers `as`. -/
structure TurnsOutcome (as : List ℤ) (m : ModbusPLC) (r : ModbusPLC × List Call) : Prop where
  keys : r.1.regs.keys = m.regs.keys
  rcWrite : r.1.rcWrite ≤ m.rcWrite
  others : ∀ b, b ∉ as → r.1.regs.val b = m.regs.val b ∧ writesTo b (ackedWrites r.2) = []
  served : ∀ a ∈ as, Served a m r

theorem writeTurn_outcome (env : ℤ → ℕ → WriteAttempt) (m : ModbusPLC) (a : ℤ) :
    TurnsOutcome [a] m (writeTurn env m a) := by
  unfold writeTurn
  dsimp only
  by_cases hpend : (m.regs.val a).data.rmode ≠ 0 ∧ (m.regs.val a).data.rupdate ≠ 0
  · rw [if_pos hpend]
    obtain ⟨hkeys, hrw, hothers, hres⟩ := writeLoop_outcome (env a) a m.attempts.toNat
      { m with rc := 0, att := 0 } (Or.inl rfl)
    generalize writeLoop (env a) a m.attempts.toNat { m with rc := 0, att := 0 } = r at *
    simp only at hkeys hrw hothers hres
    rcases hres with ⟨hone, hreg, hack⟩ | ⟨hzero, hreg, hack⟩ | ⟨hneg, hreg, hack⟩
    · rw [if_neg (by omega)]
      rw [m.placed a] at hack
      refine ⟨hkeys, hrw.le, fun b hb => ?_, fun b hb => ?_⟩
      · rw [List.mem_singleton] at hb
        exact ⟨hothers b hb, by simp [hack, writesTo, Ne.symm hb]⟩
      · rw [List.mem_singleton.mp hb]
        exact Or.inl ⟨hpend.1, hpend.2, hreg, by simp [hack, writesTo]⟩
    · rw [if_neg (by omega)]
      refine ⟨hkeys, hrw.le, fun b hb => ?_, fun b hb => ?_⟩
      · rw [List.mem_singleton] at hb
        exact ⟨hothers b hb, by rw [hack]; rfl⟩
      · rw [List.mem_singleton.mp hb]
        exact Or.inr ⟨hreg ▸ Marked.refl _, fun _ => hreg, by rw [hack]; rfl⟩
    · rw [if_pos hneg]
      refine ⟨hkeys, by dsimp only; omega, fun b hb => ?_, fun b hb => ?_⟩
      · rw [List.mem_singleton] at hb
        exact ⟨hothers b hb, by rw [hack]; rfl⟩
      · rw [List.mem_singleton.mp hb]
        exact Or.inr ⟨hreg, fun h => by dsimp only at h; omega, by rw [hack]; rfl⟩
  · rw [if_neg hpend]
    exact ⟨rfl, le_rfl, fun _ _ => ⟨rfl, rfl⟩,
      fun _ _ => Or.inr ⟨Marked.refl _, fun _ => rfl, rfl⟩⟩

theorem writeTurns_outcome (env : ℤ → ℕ → WriteAttempt) (as : List ℤ) (m : ModbusPLC)
    (hnd : as.Nodup) : TurnsOutcome as m (writeTurns env as m) := by
  induction as generalizing m with
  | nil => exact ⟨rfl, le_rfl, fun _ _ => ⟨rfl, rfl⟩, fun _ ha => absurd ha List.not_mem_nil⟩
  | cons a as ih =>
      obtain ⟨hnotin, hnd'⟩ := List.nodup_cons.mp hnd
      obtain ⟨hkeys, hle, hothers, hserved⟩ := writeTurn_outcome env m a
      obtain ⟨hkeys', hle', hothers', hserved'⟩ := ih (writeTurn env m a).1 hnd'
      unfold writeTurns
      dsimp only
      generalize writeTurn env m a = r at *
      generalize writeTurns env as r.1 = t at *
      refine ⟨hkeys'.trans hkeys, hle'.trans hle, fun b hb => ?_, fun b hb => ?_⟩
      · rw [List.mem_cons, not_or] at hb
        obtain ⟨hval, hw⟩ := hothers b (by simpa using hb.1)
        obtain ⟨hval', hw'⟩ := hothers' b hb.2
        exact ⟨hval'.trans hval, by simp [hw, hw']⟩
      · rcases List.mem_cons.mp hb with rfl | hb
        · -- the register's own turn comes first and the rest leaves it alone
          obtain ⟨hval', hw'⟩ := hothers' b hnotin
          have hserved := hserved b List.mem_cons_self
          simp only [Served, ackedWrites_append, writesTo_append, hval', hw',
            List.append_nil] at hserved ⊢
          exact hserved.imp_right fun h => ⟨h.1, fun heq => h.2.1 (by omega), h.2.2⟩
        · have hne : b ≠ a := fun h => hnotin (h ▸ hb)
          obtain ⟨hval, hw⟩ := hothers b (by simpa using hne)
          have hserved' := hserved' b hb
          simp only [Served, ackedWrites_append, writesTo_append, hval, hw,
            List.nil_append] at hserved' ⊢
          exact hserved'.imp_right fun h => ⟨h.1, fun heq => h.2.1 (by omega), h.2.2⟩

theorem writeMaster_outcome (env : ℤ → ℕ → WriteAttempt) (m : ModbusPLC) :
    TurnsOutcome m.regs.keys { m with rcWrite := 0 } (writeMaster env m) :=
  writeTurns_outcome env m.regs.keys { m with rcWrite := 0 } m.regs.nodup

theorem writeMaster_data (env : ℤ → ℕ → WriteAttempt) (m : ModbusPLC) (a : ℤ) :
    ((writeMaster env m).1.regs.val a).data.rvalue = (m.regs.val a).data.rvalue ∧
      ((writeMaster env m).1.regs.val a).data.rmode = (m.regs.val a).data.rmode := by
  have hout := writeMaster_outcome env m
  by_cases ha : a ∈ m.regs.keys
  · rcases hout.served a ha with ⟨-, -, hval, -⟩ | ⟨⟨k, hval⟩, -⟩
    · rw [hval]
      exact ⟨rfl, rfl⟩
    · rw [hval]
      exact ⟨rfl, rfl⟩
  · rw [(hout.others a ha).1]
    exact ⟨rfl, rfl⟩

end RwModbus.Master
