import RwModbus.Library.Runs
import RwModbus.Registers

/-!
# The slave's sockets

`handle_slave` and what it calls. Each call takes the answers of libmodbus and of the
kernel from an environment; the registers that a client reads or writes, and which
descriptors the kernel holds open, are left out. A descriptor of -1 is `none`. An
`fd_set` has room for the descriptors below `FD_SETSIZE` and `FD_SET` checks nothing, so
the sets here stand for the code's while all descriptors are below it.
-/
namespace RwModbus.Slave
open Registers Runs

/-- The answers in one call; there is at most one `accept`, and one `modbus_receive` for
each socket. -/
structure Answers where
  allocated : Bool
  mapped : Bool
  listened : Option ℕ
  selected : Bool
  ready : ℕ → Bool
  accepted : Option ℕ
  received : ℕ → ℤ

def fdSetSize : ℕ := 1024

/-- The kernel's new descriptors have room in an `fd_set`. -/
def Answers.Fits (e : Answers) : Prop :=
  (∀ fd ∈ e.listened, fd < fdSetSize) ∧ ∀ fd ∈ e.accepted, fd < fdSetSize

/-- `ModbusPLC_c` in slave mode. `ctx` and `mbm` tell whether these exist, and
`lockMux` whether it is held. -/
structure ModbusSlave where
  tcpPort : ℤ
  ctx : Bool := false
  mbm : Bool := false
  mb : Plcdata := {}
  rc : ℤ := -1
  serverSocket : Option ℕ := none
  refset : Finset ℕ
  fdmax : ℤ
  lockMux : Bool := false

namespace ModbusSlave

def mbDeinit (m : ModbusSlave) : ModbusSlave :=
  { m with serverSocket := none, mbm := false, ctx := false }

def mbCtx (e : Answers) (m : ModbusSlave) : ModbusSlave :=
  let m := mbDeinit { m with rc := 0 }
  if m.tcpPort ≠ 0 then
    let m := { m with ctx := e.allocated }
    if m.ctx = false then { m with rc := -1 } else m
  else m

def renewMapping (e : Answers) (m : ModbusSlave) : ModbusSlave :=
  let m := { m with rc := 0, mbm := e.mapped }
  if m.mbm = false then
    { m with
      ctx := false
      mb := { m.mb with errors := m.mb.errors + 1, errorsCn := m.mb.errorsCn + 1 }
      rc := -1 }
  else m

/-- `renew_listen`; `modbus_tcp_listen` refuses a null context. -/
def renewListen (e : Answers) (m : ModbusSlave) : ModbusSlave :=
  let m := { m with rc := 0, serverSocket := if m.ctx then e.listened else none }
  match m.serverSocket with
  | none =>
      { m with
        ctx := false
        mb := { m.mb with errors := m.mb.errors + 1, errorsRd := m.mb.errorsRd + 1 }
        rc := -1 }
  | some fd => { m with refset := {fd}, fdmax := fd }

def checkSlave (e : Answers) (m : ModbusSlave) : ModbusSlave :=
  let m := { m with rc := 0 }
  if m.mb.errors ≠ 0 ∨ m.ctx = false then
    let m := mbCtx e m
    let m := if m.rc ≠ -1 then renewMapping e m else m
    if m.rc ≠ -1 then renewListen e m else m
  else m

def newClient (e : Answers) (m : ModbusSlave) : ModbusSlave :=
  match e.accepted with
  | none => { m with mb := { m.mb with errorsWr := m.mb.errorsWr + 1 } }
  | some newfd =>
      { m with refset := insert newfd m.refset, fdmax := if m.fdmax < newfd then newfd else m.fdmax }

def workClient (e : Answers) (fd : ℕ) (m : ModbusSlave) : ModbusSlave :=
  let m := { m with rc := e.received fd }
  if m.rc = -1 then
    { m with refset := m.refset.erase fd, fdmax := if (fd : ℤ) = m.fdmax then m.fdmax - 1 else m.fdmax }
  else m

/-- The branch taken for a socket that is set in `rdset`. -/
def serve (e : Answers) (fd : ℕ) (m : ModbusSlave) : ModbusSlave :=
  if m.serverSocket = some fd then newClient e m else workClient e fd m

@[simp] theorem newClient_serverSocket (e : Answers) (m : ModbusSlave) :
    (newClient e m).serverSocket = m.serverSocket := by
  unfold newClient
  split <;> rfl

@[simp] theorem workClient_serverSocket (e : Answers) (fd : ℕ) (m : ModbusSlave) :
    (workClient e fd m).serverSocket = m.serverSocket := by
  unfold workClient
  dsimp only
  split_ifs <;> rfl

@[simp] theorem serve_serverSocket (e : Answers) (fd : ℕ) (m : ModbusSlave) :
    (serve e fd m).serverSocket = m.serverSocket := by
  unfold serve
  split_ifs <;> simp

theorem workClient_fdmax (e : Answers) (fd : ℕ) (m : ModbusSlave) :
    (workClient e fd m).fdmax ≤ m.fdmax := by
  unfold workClient
  dsimp only
  split_ifs <;> dsimp only <;> omega

/-- Whether the loop has still to meet the server socket, where `fdmax` may rise. -/
def serverAhead (fd : ℕ) (m : ModbusSlave) : ℕ :=
  match m.serverSocket with
  | some s => if fd ≤ s then 1 else 0
  | none => 0

theorem serverAhead_succ (fd : ℕ) (m : ModbusSlave) : serverAhead (fd + 1) m ≤ serverAhead fd m := by
  unfold serverAhead
  cases m.serverSocket with
  | none => exact le_rfl
  | some s =>
      dsimp only
      split_ifs <;> omega

theorem serverAhead_serve (e : Answers) (fd : ℕ) (m : ModbusSlave) :
    serverAhead (fd + 1) (serve e fd m) < serverAhead fd m ∨
    serverAhead (fd + 1) (serve e fd m) ≤ serverAhead fd m ∧ (serve e fd m).fdmax ≤ m.fdmax := by
  by_cases h : m.serverSocket = some fd
  · exact Or.inl (by simp [serverAhead, h])
  · refine Or.inr ⟨?_, ?_⟩
    · rw [serverAhead, serve_serverSocket]
      exact serverAhead_succ fd m
    · rw [serve, if_neg h]
      exact workClient_fdmax e fd m

/-- The loop over `master_socket`, from `fd` on, with the sockets that it serves. -/
def serveLoop (e : Answers) (rdset : Finset ℕ) (fd : ℕ) (m : ModbusSlave) :
    ModbusSlave × List ℕ :=
  if (fd : ℤ) ≤ m.fdmax then
    if fd ∉ rdset then serveLoop e rdset (fd + 1) m
    else
      let r := serveLoop e rdset (fd + 1) (serve e fd m)
      (r.1, fd :: r.2)
  else (m, [])
termination_by (serverAhead fd m, (m.fdmax + 1 - fd).toNat)
decreasing_by
  · have hahead := serverAhead_succ fd m
    rw [Prod.lex_def]
    dsimp only
    omega
  · have hahead := serverAhead_serve e fd m
    rw [Prod.lex_def]
    dsimp only
    omega

/-- What a call leaves. `rdset` and `served` are ghost data. -/
structure Outcome where
  slave : ModbusSlave
  ret : ℤ
  rdset : Finset ℕ
  served : List ℕ

/-- The sockets that `select` reports, of those below `fdmax + 1` that it is asked about. -/
def selectReady (e : Answers) (m : ModbusSlave) : Finset ℕ :=
  m.refset.filter fun fd => e.ready fd ∧ (fd : ℤ) < m.fdmax + 1

/-- `handle_slave` once it has the mutex. -/
def handleLocked (e : Answers) (m : ModbusSlave) : Outcome :=
  let m := checkSlave e m
  if m.rc = -1 then ⟨m, m.rc, ∅, []⟩
  else
    let m := { m with mb := { m.mb with errors := 0 } }
    if e.selected then
      let r := serveLoop e (selectReady e m) 0 m
      ⟨{ r.1 with lockMux := false }, r.1.fdmax, selectReady e m, r.2⟩
    else
      let m := { m with mb := { m.mb with errors := m.mb.errors + 1 }, rc := -1 }
      ⟨m, m.rc, ∅, []⟩

/-- `handle_slave`; a call that finds the mutex held does not return. -/
def handleSlave (e : Answers) (m : ModbusSlave) : Option Outcome :=
  if m.lockMux then none else some (handleLocked e { m with lockMux := true })

/-- A new object; the constructor sets neither `refset` nor `fdmax`. -/
def newSlave (port : ℤ) (refset : Finset ℕ) (fdmax : ℤ) : ModbusSlave where
  tcpPort := port
  refset := refset
  fdmax := fdmax

/-- A new context is needed. -/
def Lost (m : ModbusSlave) : Prop := m.mb.errors ≠ 0 ∨ m.ctx = false

instance (m : ModbusSlave) : Decidable (Lost m) := inferInstanceAs (Decidable (_ ∨ _))

/-- A context, a mapping and a server socket can be had. -/
def Renews (e : Answers) (m : ModbusSlave) : Prop :=
  m.tcpPort ≠ 0 ∧ e.allocated = true ∧ e.mapped = true ∧ e.listened ≠ none

instance (e : Answers) (m : ModbusSlave) : Decidable (Renews e m) :=
  inferInstanceAs (Decidable (_ ∧ _))

/-- The server socket is in `refset`, and nothing in it is above `fdmax`. -/
def SocketsOk (m : ModbusSlave) : Prop :=
  (∃ s, m.serverSocket = some s ∧ s ∈ m.refset) ∧ ∀ fd ∈ m.refset, (fd : ℤ) ≤ m.fdmax

/-- What `check_slave` leaves. -/
structure Checked (e : Answers) (m m' : ModbusSlave) : Prop where
  lockMux : m'.lockMux = m.lockMux
  failed : m'.rc = -1 ↔ Lost m ∧ ¬ Renews e m
  noCtx : m'.rc = -1 → m'.ctx = false
  kept : ¬ Lost m → m' = { m with rc := 0 }
  renewed : Lost m → m'.rc ≠ -1 → SocketsOk m' ∧ ∃ fd ∈ e.listened, m'.fdmax = fd

theorem renewListen_checked (e : Answers) (m : ModbusSlave) :
    (renewListen e m).lockMux = m.lockMux ∧
    ((renewListen e m).rc = -1 ↔ ¬ (m.ctx = true ∧ e.listened ≠ none)) ∧
    ((renewListen e m).rc = -1 → (renewListen e m).ctx = false) ∧
    ((renewListen e m).rc ≠ -1 → SocketsOk (renewListen e m) ∧
      ∃ fd ∈ e.listened, (renewListen e m).fdmax = fd) := by
  cases hctx : m.ctx with
  | false => simp [renewListen, hctx]
  | true =>
      cases hfd : e.listened with
      | none => simp [renewListen, hctx, hfd]
      | some fd => simp [renewListen, hctx, hfd, SocketsOk]

/-- The three steps of a renewal. With port 0 there is no context, but also no error
until nothing can listen. -/
theorem checkSlave_lost {m : ModbusSlave} (h : Lost m) (e : Answers) : checkSlave e m =
    if m.tcpPort ≠ 0 ∧ e.allocated = false then { mbDeinit m with rc := -1 }
    else if e.mapped = false then
      { mbDeinit m with
        mb := { m.mb with errors := m.mb.errors + 1, errorsCn := m.mb.errorsCn + 1 }
        rc := -1 }
    else renewListen e { mbDeinit m with rc := 0, ctx := decide (m.tcpPort ≠ 0), mbm := true } := by
  have hcheck : checkSlave e m =
      (let m := mbCtx e { m with rc := 0 }
       let m := if m.rc ≠ -1 then renewMapping e m else m
       if m.rc ≠ -1 then renewListen e m else m) := if_pos h
  rw [hcheck]
  by_cases hport : m.tcpPort = 0 <;> cases hnew : e.allocated <;> cases hmap : e.mapped <;>
    simp [mbCtx, mbDeinit, renewMapping, hport, hnew, hmap]

theorem checkSlave_checked (e : Answers) (m : ModbusSlave) : Checked e m (checkSlave e m) := by
  by_cases hlost : Lost m
  · rw [checkSlave_lost hlost]
    split_ifs with hnew hmap
    · have hnot : ¬ Renews e m := fun h => Bool.false_ne_true (hnew.2.symm.trans h.2.1)
      exact ⟨rfl, iff_of_true rfl ⟨hlost, hnot⟩, fun _ => rfl, fun h => absurd hlost h,
        fun _ h => absurd rfl h⟩
    · have hnot : ¬ Renews e m := fun h => Bool.false_ne_true (hmap.symm.trans h.2.2.1)
      exact ⟨rfl, iff_of_true rfl ⟨hlost, hnot⟩, fun _ => rfl, fun h => absurd hlost h,
        fun _ h => absurd rfl h⟩
    · obtain ⟨hlock, hrc, hctx, hsockets⟩ := renewListen_checked e
        { mbDeinit m with rc := 0, ctx := decide (m.tcpPort ≠ 0), mbm := true }
      have hrenews : decide (m.tcpPort ≠ 0) = true ∧ e.listened ≠ none ↔ Renews e m := by
        rw [decide_eq_true_iff]
        exact ⟨fun h => ⟨h.1, by simpa [h.1] using hnew, by simpa using hmap, h.2⟩,
          fun h => ⟨h.1, h.2.2.2⟩⟩
      refine ⟨hlock, hrc.trans ?_, hctx, fun h => absurd hlost h, fun _ => hsockets⟩
      rw [hrenews, and_iff_right hlost]
  · have hkept : checkSlave e m = { m with rc := 0 } := if_neg hlost
    have hrc : (0 : ℤ) ≠ -1 := by decide
    rw [hkept]
    exact ⟨rfl, iff_of_false hrc fun h => hlost h.1, fun h => absurd h hrc, fun _ => rfl,
      fun h => absurd h hlost⟩

/-- A call returns and leaves the mutex free. -/
def Released (m : ModbusSlave) (e : Answers) : Prop :=
  ∃ r, handleSlave e m = some r ∧ r.slave.lockMux = false

/-- If a new context is needed all steps of the renewal succeed, and so does `select`. -/
def Answered (m : ModbusSlave) (e : Answers) : Prop :=
  (Lost m → Renews e m) ∧ e.selected = true

instance (m : ModbusSlave) (e : Answers) : Decidable (Answered m e) :=
  inferInstanceAs (Decidable (_ ∧ _))

/-- The object after a call; one that does not return leaves it to its holder. -/
def call (m : ModbusSlave) (e : Answers) : ModbusSlave :=
  match handleSlave e m with
  | some r => r.slave
  | none => m

theorem handleLocked_lockMux {m : ModbusSlave} (h : m.lockMux = true) (e : Answers) :
    (handleLocked e m).slave.lockMux = false ↔ Answered m e := by
  have hcheck := checkSlave_checked e m
  have hheld : (checkSlave e m).lockMux = true := hcheck.lockMux.trans h
  have hok : (Lost m → Renews e m) ↔ (checkSlave e m).rc ≠ -1 := by
    rw [Ne, hcheck.failed, not_and, not_not]
  rw [Answered, hok, handleLocked]
  dsimp only
  by_cases hrc : (checkSlave e m).rc = -1
  · simp [hrc, hheld]
  · cases hsel : e.selected <;> simp [hrc, hheld]

theorem released_iff {m : ModbusSlave} (h : m.lockMux = false) (e : Answers) :
    Released m e ↔ Answered m e := by
  have hcall : handleSlave e m = some (handleLocked e { m with lockMux := true }) := by
    simp [handleSlave, h]
  have hlock := handleLocked_lockMux (m := { m with lockMux := true }) rfl e
  rw [Released, hcall]
  constructor
  · rintro ⟨r, hr, hfree⟩
    obtain rfl := Option.some.inj hr
    exact hlock.mp hfree
  · exact fun ha => ⟨_, rfl, hlock.mpr ha⟩

/-- Every call of a sequence returns and leaves the mutex free exactly if every call gets
the answers it needs. -/
theorem along_released_iff (port : ℤ) (refset : Finset ℕ) (fdmax : ℤ) (es : List Answers) :
    Along call Released (newSlave port refset fdmax) es ↔
      Along call Answered (newSlave port refset fdmax) es := by
  refine along_iff (I := fun m => m.lockMux = false) (fun m e h => released_iff h e) ?_ es rfl
  intro m e h ha
  obtain ⟨r, hr, hfree⟩ := (released_iff h e).mpr ha
  rw [call, hr]
  exact hfree

/-- The port is taken: nothing listens, and the second call waits for ever. -/
theorem along_released_fails : ¬ ∀ (port : ℤ) (refset : Finset ℕ) (fdmax : ℤ) (es : List Answers),
    Along call Released (newSlave port refset fdmax) es := by
  intro h
  have hfirst := (h 502 ∅ 0 [⟨true, true, none, true, fun _ => false, none, fun _ => 0⟩]).1
  exact absurd ((released_iff rfl _).mp hfirst) (by decide)

/-- All descriptors up to `fdmax` have room in an `fd_set`. -/
def InRange (m : ModbusSlave) : Prop := m.fdmax < fdSetSize

/-- The loop has come to `fd`; what was reported from there on is still in `refset`. -/
structure Serving (rdset : Finset ℕ) (fd : ℕ) (m : ModbusSlave) : Prop where
  sockets : SocketsOk m
  inRange : InRange m
  pending : ∀ d ∈ rdset, fd ≤ d → d ∈ m.refset

theorem Serving.skip {rdset : Finset ℕ} {fd : ℕ} {m : ModbusSlave} (h : Serving rdset fd m) :
    Serving rdset (fd + 1) m :=
  ⟨h.sockets, h.inRange, fun d hd hle => h.pending d hd (by omega)⟩

theorem Serving.newClient {rdset : Finset ℕ} {fd : ℕ} {m : ModbusSlave} (h : Serving rdset fd m)
    {e : Answers} (hfits : e.Fits) : Serving rdset (fd + 1) (newClient e m) := by
  obtain ⟨⟨⟨s, hs, hmem⟩, hmax⟩, hrange, hpending⟩ := h.skip
  unfold ModbusSlave.newClient
  cases hnew : e.accepted with
  | none => exact ⟨⟨⟨s, hs, hmem⟩, hmax⟩, hrange, hpending⟩
  | some newfd =>
      have hfd : newfd < fdSetSize := hfits.2 newfd hnew
      refine ⟨⟨⟨s, hs, Finset.mem_insert_of_mem hmem⟩, fun d hd => ?_⟩, ?_,
        fun d hd hle => Finset.mem_insert_of_mem (hpending d hd hle)⟩
      · dsimp only
        rcases Finset.mem_insert.mp hd with rfl | hd
        · split_ifs <;> omega
        · have := hmax d hd
          split_ifs <;> omega
      · unfold InRange at hrange ⊢
        dsimp only
        split_ifs <;> omega

/-- Closing the last socket lowers `fdmax`; the server socket is another. -/
theorem Serving.workClient {rdset : Finset ℕ} {fd : ℕ} {m : ModbusSlave}
    (h : Serving rdset fd m) (hne : m.serverSocket ≠ some fd) (e : Answers) :
    Serving rdset (fd + 1) (workClient e fd m) := by
  have hlow := workClient_fdmax e fd m
  obtain ⟨⟨⟨s, hs, hmem⟩, hmax⟩, hrange, hpending⟩ := h.skip
  have hserver : s ≠ fd := fun heq => hne (heq ▸ hs)
  have hrange' : InRange (ModbusSlave.workClient e fd m) := lt_of_le_of_lt hlow hrange
  unfold ModbusSlave.workClient at hrange' ⊢
  dsimp only at hrange' ⊢
  split_ifs at hrange' ⊢ with hrc htop
  · refine ⟨⟨⟨s, hs, Finset.mem_erase.mpr ⟨hserver, hmem⟩⟩, fun d hd => ?_⟩, hrange',
      fun d hd hle => ?_⟩
    · obtain ⟨hd, hdm⟩ := Finset.mem_erase.mp hd
      have := hmax d hdm
      dsimp only
      omega
    · exact Finset.mem_erase.mpr ⟨by omega, hpending d hd hle⟩
  · refine ⟨⟨⟨s, hs, Finset.mem_erase.mpr ⟨hserver, hmem⟩⟩, fun d hd => ?_⟩, hrange',
      fun d hd hle => ?_⟩
    · exact hmax d (Finset.mem_of_mem_erase hd)
    · exact Finset.mem_erase.mpr ⟨by omega, hpending d hd hle⟩
  · exact ⟨⟨⟨s, hs, hmem⟩, hmax⟩, hrange', hpending⟩

theorem Serving.serve {rdset : Finset ℕ} {fd : ℕ} {m : ModbusSlave} (h : Serving rdset fd m)
    {e : Answers} (hfits : e.Fits) : Serving rdset (fd + 1) (serve e fd m) := by
  unfold ModbusSlave.serve
  split_ifs with hserver
  · exact h.newClient hfits
  · exact h.workClient hserver e

/-- The loop serves every reported socket that it has still to come to, once. -/
theorem Serving.loop {e : Answers} (hfits : e.Fits) {rdset : Finset ℕ} {fd : ℕ} {m : ModbusSlave}
    (h : Serving rdset fd m) :
    (SocketsOk (serveLoop e rdset fd m).1 ∧ InRange (serveLoop e rdset fd m).1) ∧
      ∀ d, (serveLoop e rdset fd m).2.count d = if d ∈ rdset ∧ fd ≤ d then 1 else 0 := by
  fun_induction serveLoop e rdset fd m with
  | case1 fd m hle hnot ih =>
      obtain ⟨hsockets, hcount⟩ := ih h.skip
      refine ⟨hsockets, fun d => ?_⟩
      rw [hcount]
      by_cases hd : d = fd
      · subst hd
        rw [if_neg fun hc => hnot hc.1, if_neg fun hc => hnot hc.1]
      · have hfrom : fd + 1 ≤ d ↔ fd ≤ d := by omega
        simp only [hfrom]
  | case2 fd m hle hready r ih =>
      obtain ⟨hsockets, hcount⟩ := ih (h.serve hfits)
      refine ⟨hsockets, fun d => ?_⟩
      rw [List.count_cons, hcount]
      by_cases hd : d = fd
      · subst hd
        have hlate : ¬ d + 1 ≤ d := by omega
        simp [hlate, not_not.mp hready]
      · have hfrom : fd + 1 ≤ d ↔ fd ≤ d := by omega
        simp [hfrom, Ne.symm hd]
  | case3 fd m hgt =>
      refine ⟨⟨h.sockets, h.inRange⟩, fun d => ?_⟩
      have hnone : ¬ (d ∈ rdset ∧ fd ≤ d) := by
        rintro ⟨hd, hle⟩
        have := h.sockets.2 d (h.pending d hd hle)
        omega
      rw [if_neg hnone]
      rfl

/-- While there is a context, the sockets are in order. -/
def CtxOk (m : ModbusSlave) : Prop := m.ctx = true → SocketsOk m ∧ InRange m

theorem checkSlave_sockets {m : ModbusSlave} (h : CtxOk m) {e : Answers} (hfits : e.Fits)
    (hrc : (checkSlave e m).rc ≠ -1) :
    SocketsOk (checkSlave e m) ∧ InRange (checkSlave e m) := by
  have hcheck := checkSlave_checked e m
  by_cases hlost : Lost m
  · obtain ⟨hsockets, fd, hfd, hmax⟩ := hcheck.renewed hlost hrc
    have hlt := hfits.1 fd hfd
    refine ⟨hsockets, ?_⟩
    unfold InRange
    omega
  · rw [hcheck.kept hlost]
    exact h (Bool.of_not_eq_false (not_or.mp hlost).2)

/-- After a call whose `check_slave` succeeds the sockets are in order and within an
`fd_set`, and every call serves each socket that `select` reports once and no other. -/
def Served (m : ModbusSlave) (e : Answers) : Prop :=
  ((checkSlave e m).rc ≠ -1 →
    SocketsOk (handleLocked e m).slave ∧ InRange (handleLocked e m).slave) ∧
  ∀ fd, (handleLocked e m).served.count fd = if fd ∈ (handleLocked e m).rdset then 1 else 0

theorem handleLocked_served {m : ModbusSlave} (h : CtxOk m) {e : Answers} (hfits : e.Fits) :
    Served m e ∧ CtxOk (handleLocked e m).slave := by
  have hcheck := checkSlave_checked e m
  unfold Served handleLocked
  dsimp only
  by_cases hrc : (checkSlave e m).rc = -1
  · rw [if_pos hrc]
    refine ⟨⟨fun hn => absurd hrc hn, fun _ => rfl⟩, fun hctx => ?_⟩
    exact absurd hctx (by simp [hcheck.noCtx hrc])
  have hok := checkSlave_sockets h hfits hrc
  rw [if_neg hrc]
  by_cases hsel : e.selected = true
  · rw [if_pos hsel]
    generalize hm : { checkSlave e m with mb := { (checkSlave e m).mb with errors := 0 } } = m₁
    have hready : SocketsOk m₁ ∧ InRange m₁ := by
      rw [← hm]
      exact hok
    have hstart : Serving (selectReady e m₁) 0 m₁ :=
      ⟨hready.1, hready.2, fun d hd _ => Finset.mem_of_mem_filter d hd⟩
    obtain ⟨hsockets, hcount⟩ := hstart.loop hfits
    exact ⟨⟨fun _ => hsockets, fun fd => by simpa using hcount fd⟩, fun _ => hsockets⟩
  · rw [if_neg hsel]
    exact ⟨⟨fun _ => hok, fun _ => rfl⟩, fun _ => hok⟩

/-- The object after a call that is given the mutex. -/
def callLocked (m : ModbusSlave) (e : Answers) : ModbusSlave := (handleLocked e m).slave

/-- In every sequence of calls in which the new descriptors have room in an `fd_set`. -/
theorem along_served (port : ℤ) (refset : Finset ℕ) (fdmax : ℤ) (es : List Answers)
    (hfits : ∀ e ∈ es, e.Fits) : Along callLocked Served (newSlave port refset fdmax) es := by
  have hall : Along callLocked (fun _ _ => True) (newSlave port refset fdmax) es :=
    along_of_forall (fun _ _ => trivial) _ es
  exact (hall.and_mem hfits).imp (I := CtxOk) (fun _ _ h hok => (handleLocked_served h hok.2).1)
    (fun _ _ h hok => (handleLocked_served h hok.2).2) fun h => absurd h Bool.false_ne_true

/-- A client connects, is served, and leaves while the next one comes. -/
theorem oneClient_served : Along callLocked Served (newSlave 502 ∅ 0)
    [⟨true, true, some 3, true, fun fd => fd = 3, some 4, fun _ => 0⟩,
      ⟨true, true, none, true, fun fd => fd = 4, none, fun _ => 12⟩,
      ⟨true, true, none, true, fun _ => true, some 5, fun _ => -1⟩] :=
  along_served 502 ∅ 0 _ (by simp [Answers.Fits, fdSetSize])

/-- A call that gets no context leaves no server socket. -/
theorem along_served_fails : ¬ ∀ (port : ℤ) (refset : Finset ℕ) (fdmax : ℤ) (es : List Answers),
    (∀ e ∈ es, e.Fits) → Along callLocked (fun m e => SocketsOk (handleLocked e m).slave ∧
      ∀ fd, (handleLocked e m).served.count fd = if fd ∈ (handleLocked e m).rdset then 1 else 0)
      (newSlave port refset fdmax) es := by
  intro h
  obtain ⟨⟨⟨s, hs, -⟩, -⟩, -⟩ :=
    (h 502 ∅ 0 [⟨false, true, some 3, true, fun _ => false, none, fun _ => 0⟩]
      (by simp [Answers.Fits, fdSetSize])).1
  have hnone : (none : Option ℕ) = some s := hs
  exact absurd hnone (by simp)

end ModbusSlave
end RwModbus.Slave
