import RwModbus.Library.Runs
import RwModbus.Master

/-!
# What a poll leaves in the error counts

A run of one master object is any sequence of polls and write-outs with any
outcomes. A failed poll copies the counter to every register after bumping it
once per attempt and once per failed connect; the counter has sixteen bits, so
in a long outage it comes round to zero and the registers look good again.
-/
namespace RwModbus.PollMarks
open Numeric Registers Master

/-- What the tasks of one device do, with the outcomes of the calls. -/
inductive Event where
  | poll (device : ℤ → Word) (env : ℕ → ReadAttempt)
  | writeOut (env : ℤ → ℕ → WriteAttempt)

def step (m : ModbusPLC) : Event → ModbusPLC
  | .poll device env => (readMaster device env m).1
  | .writeOut env => (writeMaster env m).1

/-- A poll marks the registers: bad if it fails, good if it succeeds. -/
def Marks (m : ModbusPLC) : Event → Prop
  | .poll device env =>
      let m' := (readMaster device env m).1
      (m'.rc ≤ 0 → ∀ a ∈ m'.regs.keys, 0 < (m'.regs.val a).data.rerrors) ∧
        (0 < m'.rc → ∀ a ∈ m'.regs.keys, (m'.regs.val a).data.rerrors = 0)
  | .writeOut _ => True

/-- What an attempt of a poll finds: the counter, whether there is a context, and
whether no attempt of the same poll came before it. -/
structure Found where
  errors : BitVec 16
  ctx : Bool
  first : Bool

def Found.reconnects (f : Found) : Bool := f.errors != 0 || !f.ctx

/-- Whether a reconnect goes through; a device without a port gets no context. -/
def links (port : ℤ) (l : Link) : Bool := port != 0 && l.allocated && l.connected

def refuses (port : ℤ) (l : Link) (f : Found) : Bool := f.reconnects && !links port l

/-- Whether the attempt gets as far as asking for the registers. Without a
reconnect it goes by the `rc` that the attempt before it left. -/
def reads (port : ℤ) (l : Link) (f : Found) : Bool :=
  if f.reconnects then links port l else f.first

/-- What an attempt without a complete answer leaves to the next one. -/
def Found.next (port : ℤ) (l : Link) (f : Found) : Found where
  errors := f.errors + BitVec.ofNat 16 (1 + (refuses port l f).toNat)
  ctx := !refuses port l f
  first := false

/-- One of `n` attempts, counted from the `i`-th, gets a complete answer. -/
def answered (port nb : ℤ) (env : ℕ → ReadAttempt) : ℕ → ℕ → Found → Bool
  | 0, _, _ => false
  | n + 1, i, f =>
      (reads port (env i).toLink f && (env i).reply == nb) ||
        answered port nb env n (i + 1) (f.next port (env i).toLink)

/-- The connects refused in `n` attempts without a complete answer. -/
def refused (port : ℤ) (env : ℕ → ReadAttempt) : ℕ → ℕ → Found → ℕ
  | 0, _, _ => 0
  | n + 1, i, f =>
      (refuses port (env i).toLink f).toNat +
        refused port env n (i + 1) (f.next port (env i).toLink)

/-- A poll without a complete answer counts once for each attempt and once more
for each refused connect, and does not bring the counter back to zero. -/
def NoWrap (m : ModbusPLC) : Event → Prop
  | .poll _ env =>
      let f : Found := ⟨m.mb.errors, m.ctx, true⟩
      let n := m.attempts.toNat
      answered m.tcpPort (nbRegs m) env n 0 f = true ∨ m.regs.keys = [] ∨
        (m.mb.errors.toNat + n + refused m.tcpPort env n 0 f) % 2 ^ 16 ≠ 0
  | .writeOut _ => True

def found (m : ModbusPLC) : Found := ⟨m.mb.errors, m.ctx, m.rc = 0⟩

theorem mbCtx_result (l : Link) (m : ModbusPLC) :
    ((mbCtx l m).ctx && l.connected) = links m.tcpPort l ∧ (mbCtx l m).tcpPort = m.tcpPort := by
  unfold mbCtx links
  by_cases hport : m.tcpPort = 0
  · simp [hport]
  · cases hnew : l.allocated <;> simp [hport]

/-- What `mb_connect` does, in the terms of `found m`. -/
structure Connected (l : Link) (m : ModbusPLC) (c : ModbusPLC × List Call) : Prop where
  rc : c.1.rc = 0 ∨ c.1.rc < 0
  reads : c.1.rc = 0 ↔ reads m.tcpPort l (found m) = true
  errors : c.1.mb.errors = m.mb.errors + BitVec.ofNat 16 (refuses m.tcpPort l (found m)).toNat
  ctx : c.1.ctx = !refuses m.tcpPort l (found m)
  refused : failedConnects c.2 = (refuses m.tcpPort l (found m)).toNat
  port : c.1.tcpPort = m.tcpPort

theorem mbConnect_connected (l : Link) (m : ModbusPLC) (hrc : m.rc ≤ 0) :
    Connected l m (mbConnect l m) := by
  obtain ⟨hlinks, hport⟩ := mbCtx_result l m
  have hmb := (mbCtx_frame l m).2.1
  unfold mbConnect
  by_cases hre : m.mb.errors ≠ 0 ∨ m.ctx = false
  · have hrecon : (found m).reconnects = true := by
      simpa [found, Found.reconnects] using hre
    rw [if_pos hre]
    cases hup : links m.tcpPort l with
    | true =>
        have hctx : (mbCtx l m).ctx = true := (Bool.and_eq_true_iff.mp (hlinks.trans hup)).1
        rw [hup] at hlinks
        dsimp only
        rw [if_pos hlinks]
        constructor <;> simp [reads, refuses, hrecon, hup, hmb, hctx, hport, failedConnects]
    | false =>
        rw [hup] at hlinks
        dsimp only
        rw [if_neg (by simp [hlinks])]
        constructor <;> simp [reads, refuses, hrecon, hup, hmb, hport, failedConnects]
  · have hrecon : (found m).reconnects = false := by
      simpa [found, Found.reconnects] using hre
    have hctx : m.ctx = true := by simpa using (not_or.mp hre).2
    rw [if_neg hre]
    have hfirst : (found m).first = decide (m.rc = 0) := rfl
    constructor <;> simp [reads, refuses, hrecon, hctx, hfirst, failedConnects]
    omega

theorem refuses_of_reads {port : ℤ} {l : Link} {f : Found} (h : reads port l f = true) :
    refuses port l f = false := by
  unfold reads at h
  unfold refuses
  split_ifs at h with hrecon
  · simp [h]
  · simp [hrecon]

theorem readAllregs_found (device : ℤ → Word) (e : ReadAttempt) (m : ModbusPLC) :
    (0 < (readAllregs device e m).1.rc ↔ e.reply = nbRegs m) ∧
    ((readAllregs device e m).1.rc ≤ 0 →
      found (readAllregs device e m).1 = ⟨m.mb.errors + 1, m.ctx, false⟩) ∧
    failedConnects (readAllregs device e m).2 = 0 ∧
    (readAllregs device e m).1.tcpPort = m.tcpPort := by
  have hpos := nbRegs_pos m
  unfold readAllregs
  dsimp only
  split_ifs with hreply hrefuse
  · exact ⟨by simp [hreply, hpos], fun h => absurd h (by simp [hreply, hpos]), rfl, rfl⟩
  · exact ⟨by simp [hreply], fun _ => rfl, rfl, rfl⟩
  · exact ⟨by simp [hreply], fun _ => rfl, rfl, rfl⟩

/-- An attempt ends the poll if it gets a complete answer; otherwise it leaves
what `Found.next` says. -/
structure Tried (e : ReadAttempt) (m : ModbusPLC) (r : ModbusPLC × List Call) : Prop where
  complete : 0 < r.1.rc ↔ (reads m.tcpPort e.toLink (found m) && e.reply == nbRegs m) = true
  next : r.1.rc ≤ 0 → found r.1 = (found m).next m.tcpPort e.toLink
  refused : failedConnects r.2 = (refuses m.tcpPort e.toLink (found m)).toNat
  port : r.1.tcpPort = m.tcpPort

theorem tryRead_tried (device : ℤ → Word) (e : ReadAttempt) (m : ModbusPLC) (hrc : m.rc ≤ 0) :
    Tried e m (tryRead device e m) := by
  have hconn := mbConnect_connected e.toLink { m with att := m.att + 1 } hrc
  have hset := (mbConnect_frame e.toLink { m with att := m.att + 1 }).2.2.2
  unfold tryRead
  dsimp only
  generalize mbConnect e.toLink { m with att := m.att + 1 } = c at *
  have hnb : nbRegs c.1 = nbRegs m := by
    simp only [setup, Prod.mk.injEq] at hset
    simp only [nbRegs, hset]
  obtain ⟨hrc', hreads, herr, hctx, hrefused, hport⟩ : Connected e.toLink m c :=
    ⟨hconn.rc, hconn.reads, hconn.errors, hconn.ctx, hconn.refused, hconn.port⟩
  by_cases hzero : c.1.rc = 0
  · obtain ⟨hok, hleft, hcalls, hport'⟩ := readAllregs_found device e c.1
    have hyes := hreads.mp hzero
    have hno := refuses_of_reads hyes
    rw [if_pos hzero]
    constructor
    · rw [hok, hnb, hyes, Bool.true_and, beq_iff_eq]
    · intro hneg
      rw [hleft hneg, herr, hctx, hno, Found.next, hno]
      exact congrArg (fun n => Found.mk n true false) (by simp [found])
    · rw [failedConnects_append, hrefused, hcalls, Nat.add_zero]
    · exact hport'.trans hport
  · have hneg : c.1.rc < 0 := hrc'.resolve_left hzero
    have hno : reads m.tcpPort e.toLink (found m) = false := by
      simpa using mt hreads.mpr hzero
    rw [if_neg hzero]
    constructor
    · simp [hno, hneg.le]
    · intro _
      simp only [found, Found.next, herr, hctx, hzero, decide_false, BitVec.ofNat_add]
      exact congrArg (fun n => Found.mk n _ false) (by ac_rfl)
    · exact hrefused
    · exact hport

/-- The loop of a poll succeeds exactly if an attempt gets a complete answer; if
none does, it meets as many refused connects as `refused` counts. -/
theorem readLoop_answered (device : ℤ → Word) (env : ℕ → ReadAttempt) (fuel i : ℕ)
    (m : ModbusPLC) (hrc : m.rc ≤ 0) (hatt : m.att = i) (hfuel : fuel = (m.attempts - m.att).toNat) :
    (0 < (readLoop device env fuel m).1.rc ↔
      answered m.tcpPort (nbRegs m) env fuel i (found m) = true) ∧
    ((readLoop device env fuel m).1.rc ≤ 0 →
      failedConnects (readLoop device env fuel m).2 =
        refused m.tcpPort env fuel i (found m)) := by
  induction fuel generalizing i m with
  | zero => exact ⟨by simp [readLoop, answered, hrc], fun _ => rfl⟩
  | succ fuel ih =>
      obtain ⟨hset, hatt'⟩ := tryRead_setup device (env m.att.toNat) m
      have htried := tryRead_tried device (env m.att.toNat) m hrc
      have hi : m.att.toNat = i := by omega
      rw [readLoop, if_pos ⟨by omega, hrc⟩, answered, refused]
      rw [hi] at hset hatt' htried ⊢
      dsimp only
      generalize tryRead device (env i) m = r at *
      obtain ⟨hcomplete, hnext, hrefused, hport⟩ := htried
      have hnb : nbRegs r.1 = nbRegs m := by
        simp only [setup, Prod.mk.injEq] at hset
        simp only [nbRegs, hset]
      have hattempts : r.1.attempts = m.attempts := congrArg Prod.fst hset
      by_cases hpos : 0 < r.1.rc
      · rw [readLoop_stop device env fuel hpos, hcomplete.mp hpos]
        exact ⟨by simp [hpos], fun h => absurd hpos (not_lt.mpr h)⟩
      · have hneg := not_lt.mp hpos
        obtain ⟨hrest, hcount⟩ := ih (i + 1) r.1 hneg (by omega) (by omega)
        rw [hport, hnext hneg, hnb] at hrest
        rw [hport, hnext hneg] at hcount
        rw [hcomplete, Bool.not_eq_true] at hpos
        rw [hpos, Bool.false_or]
        refine ⟨hrest, fun h => ?_⟩
        rw [failedConnects_append, hrefused, hcount h]

theorem readMaster_answered (device : ℤ → Word) (env : ℕ → ReadAttempt) (m : ModbusPLC) :
    (0 < (readMaster device env m).1.rc ↔
      answered m.tcpPort (nbRegs m) env m.attempts.toNat 0 ⟨m.mb.errors, m.ctx, true⟩ = true) ∧
    ((readMaster device env m).1.rc ≤ 0 →
      failedConnects (readMaster device env m).2 =
        refused m.tcpPort env m.attempts.toNat 0 ⟨m.mb.errors, m.ctx, true⟩) := by
  exact readLoop_answered device env m.attempts.toNat 0 { m with rc := 0, att := 0 } le_rfl rfl
    (by rw [Int.sub_zero])

theorem counter_pos_iff (c : BitVec 16) (n : ℕ) :
    0 < c + BitVec.ofNat 16 n ↔ (c.toNat + n) % 2 ^ 16 ≠ 0 := by
  rw [BitVec.lt_def, BitVec.toNat_add, BitVec.toNat_ofNat, Nat.add_mod_mod]
  exact Nat.pos_iff_ne_zero

theorem marks_iff_noWrap (m : ModbusPLC) (e : Event) : Marks m e ↔ NoWrap m e := by
  cases e with
  | writeOut env => exact Iff.rfl
  | poll device env =>
      obtain ⟨hanswered, hrefused⟩ := readMaster_answered device env m
      unfold Marks NoWrap
      dsimp only
      rw [readMaster_keys, ← hanswered]
      by_cases hpos : 0 < (readMaster device env m).1.rc
      · have hgood : ∀ a, ((readMaster device env m).1.regs.val a).data.rerrors = 0 := by
          intro a
          rw [readMaster_ok hpos]
        simp [hpos, hgood]
      · have hneg := not_lt.mp hpos
        have hcount : ∀ a, (0 < ((readMaster device env m).1.regs.val a).data.rerrors) ↔
            (m.mb.errors.toNat + m.attempts.toNat + refused m.tcpPort env m.attempts.toNat 0
              ⟨m.mb.errors, m.ctx, true⟩) % 2 ^ 16 ≠ 0 := by
          intro a
          rw [readMaster_failed hneg, hrefused hneg, Nat.add_assoc]
          exact counter_pos_iff m.mb.errors _
        simp only [hcount, hpos, hneg, true_implies, false_implies, and_true, false_or]
        rcases hkeys : m.regs.keys with _ | ⟨a, as⟩
        · simp
        · exact ⟨fun h => Or.inr (h a List.mem_cons_self),
            fun h b _ => h.resolve_left (List.cons_ne_nil a as)⟩

/-- In a run, every poll marks the registers exactly if no failed poll on a
device with registers brings the counter back to zero. -/
theorem along_marks_iff (m : ModbusPLC) (es : List Event) :
    Runs.Along step Marks m es ↔ Runs.Along step NoWrap m es := by
  induction es generalizing m with
  | nil => exact Iff.rfl
  | cons e es ih => exact and_congr (marks_iff_noWrap m e) (ih _)

def lonePlc : ModbusPLC where
  strDevName := ['P']
  tcpPort := 502
  attempts := 1
  bounds := bounds_zero
  regs := .singleton 0 fun a => { raddr := a }
  placed := fun _ => rfl

def outage : Event := .poll (fun _ => 0) fun _ => ⟨⟨true, false⟩, -1⟩

theorem step_outage (m : ModbusPLC) (hatt : m.attempts = 1) (hctx : m.ctx = false) :
    (step m outage).mb.errors = m.mb.errors + 2 ∧ (step m outage).attempts = 1 ∧
      (step m outage).ctx = false ∧ (step m outage).rc = -1 ∧
      (step m outage).regs.keys = m.regs.keys := by
  refine ⟨?_, ?_, ?_, ?_, readMaster_keys _ _ m⟩
  all_goals
    by_cases hport : m.tcpPort = 0 <;>
      simp [step, outage, readMaster, readLoop, tryRead, mbConnect, mbCtx, hatt, hctx, hport,
        BitVec.add_assoc]

theorem run_outage (k : ℕ) :
    let m := Runs.run step lonePlc (List.replicate k outage)
    m.mb.errors = BitVec.ofNat 16 (2 * k) ∧ m.attempts = 1 ∧ m.ctx = false ∧
      m.regs.keys = [0] := by
  induction k with
  | zero => exact ⟨rfl, rfl, rfl, rfl⟩
  | succ k ih =>
      obtain ⟨herr, hatt, hctx, hkeys⟩ := ih
      have hstep := step_outage _ hatt hctx
      rw [List.replicate_succ', Runs.run_append]
      simp only [Runs.run_cons, Runs.run_nil]
      refine ⟨?_, hstep.2.1, hstep.2.2.1, hstep.2.2.2.2.trans hkeys⟩
      rw [hstep.1, herr, Nat.mul_succ, BitVec.ofNat_add]
      rfl

def Fresh (m : ModbusPLC) : Prop := m.mb = {} ∧ m.ctx = false

/-- The last of 32768 failed polls leaves the register without errors. -/
theorem marks_fails_after_outage :
    ¬ ∀ m, Fresh m → 1 ≤ m.attempts → ∀ es, Runs.Along step Marks m es := by
  intro h
  have hrun := h lonePlc ⟨rfl, rfl⟩ le_rfl (List.replicate 32767 outage ++ [outage])
  have hlast := (Runs.along_append.mp hrun).2.1
  obtain ⟨herr, hatt, hctx, hkeys⟩ := run_outage 32767
  have hstep := step_outage _ hatt hctx
  generalize Runs.run step lonePlc (List.replicate 32767 outage) = m at *
  have hmark : 0 < (step m outage).mb.errors :=
    hlast.1 (hstep.2.2.2.1.trans_le (by decide)) 0
      (by rw [readMaster_keys, hkeys]; exact List.mem_singleton_self 0)
  rw [hstep.1, herr] at hmark
  revert hmark
  decide

end RwModbus.PollMarks
