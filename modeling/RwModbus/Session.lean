import RwModbus.System

/-!
# The connection to a device

The calls that polls and write-outs make, in the order in which they make them.
A connection is up after a successful connect and as long as every request on it
is served. `errors` is how a PLC object remembers that, in 16 bits.
-/
namespace RwModbus.Session
open Numeric Registers Reg Opc Refresh Master Sys

/-- What the calls so far tell about the connection. `unserved` counts the calls
that failed since the last request that was served, connects twice. -/
structure Line where
  up : Bool := false
  unserved : ℕ := 0
deriving DecidableEq, Repr

def Line.lost (l : Line) (k : ℕ) : Line := ⟨false, l.unserved + k⟩

def advance (l : Line) : Call → Line
  | .connect ok => if ok then { l with up := true } else l.lost 2
  | .read _ count reply => if reply = count then ⟨true, 0⟩ else l.lost 1
  | .write _ _ acked => if acked then ⟨true, 0⟩ else l.lost 1

/-- A connect is made when the connection is down, and a request when it is up. -/
def InOrder (l : Line) : Call → Prop
  | .connect _ => l.up = false
  | .read _ _ _ | .write _ _ _ => l.up = true

instance (l : Line) (c : Call) : Decidable (InOrder l c) := by
  cases c <;> exact inferInstanceAs (Decidable (_ = _))

/-- The count of `unserved` fits into `errors`. -/
def Fits (l : Line) (c : Call) : Prop := (advance l c).unserved < 2 ^ 16

instance (l : Line) (c : Call) : Decidable (Fits l c) := inferInstanceAs (Decidable (_ < _))

/-- The PLC object knows how its connection is. -/
structure InSync (l : Line) (m : ModbusPLC) : Prop where
  errors : m.mb.errors.toNat = l.unserved
  up : l.up = true ↔ m.ctx = true ∧ l.unserved = 0

/-- Calls in order, from one object to the next. -/
structure Kept (l : Line) (m' : ModbusPLC) (cs : List Call) : Prop where
  inOrder : Runs.Along advance InOrder l cs
  inSync : InSync (Runs.run advance l cs) m'

variable {l : Line} {m m' : ModbusPLC} {cs ds : List Call}

theorem InSync.congr (h : InSync l m) (hctx : m'.ctx = m.ctx)
    (herr : m'.mb.errors = m.mb.errors) : InSync l m' := by
  refine ⟨?_, ?_⟩
  · rw [herr]
    exact h.errors
  · rw [hctx]
    exact h.up

theorem Kept.nil (h : InSync l m) : Kept l m [] := ⟨trivial, h⟩

theorem Kept.append (h : Kept l m cs) (h' : Kept (Runs.run advance l cs) m' ds) :
    Kept l m' (cs ++ ds) := by
  refine ⟨Runs.along_append.mpr ⟨h.inOrder, h'.inOrder⟩, ?_⟩
  rw [Runs.run_append]
  exact h'.inSync

theorem Kept.congr (h : Kept l m cs) (hctx : m'.ctx = m.ctx)
    (herr : m'.mb.errors = m.mb.errors) : Kept l m' cs := ⟨h.inOrder, h.inSync.congr hctx herr⟩

theorem toNat_errors_add {w : Word} {n k : ℕ} (hw : w.toNat = n) (hn : n + k < 2 ^ 16) :
    (w + BitVec.ofNat 16 k).toNat = n + k := by
  rw [BitVec.toNat_add, BitVec.toNat_ofNat, hw]
  omega

/-- An attempt keeps the connection if it is up, and dials otherwise. -/
theorem mbConnect_cases (h : InSync l m) (hrc : l.up = true → m.rc = 0) (k : Link) :
    (l.up = true ∧ mbConnect k m = (m, []) ∧ m.rc = 0) ∨
    (l.up = false ∧ (mbConnect k m).2 = [.connect true] ∧ (mbConnect k m).1.rc = 0 ∧
      (mbConnect k m).1.ctx = true ∧ (mbConnect k m).1.mb = m.mb) ∨
    (l.up = false ∧ (mbConnect k m).2 = [.connect false] ∧ (mbConnect k m).1.rc = -1 ∧
      (mbConnect k m).1.ctx = false ∧ (mbConnect k m).1.mb.errors = m.mb.errors + 1) := by
  have hmb := (mbCtx_frame k m).2.1
  cases hup : l.up with
  | true =>
      have hctx := h.up.mp hup
      have herr : m.mb.errors = 0 := by
        apply BitVec.eq_of_toNat_eq
        rw [h.errors, hctx.2]
        rfl
      refine Or.inl ⟨rfl, if_neg ?_, hrc hup⟩
      simp [herr, hctx.1]
  | false =>
      have hdown : m.mb.errors ≠ 0 ∨ m.ctx = false := by
        by_contra hno
        rw [not_or, not_not, Bool.not_eq_false] at hno
        have hun : l.unserved = 0 := by
          rw [← h.errors, hno.1]
          rfl
        rw [h.up.mpr ⟨hno.2, hun⟩] at hup
        exact Bool.noConfusion hup
      right
      unfold mbConnect
      rw [if_pos hdown]
      dsimp only
      split_ifs with hok
      · left
        rw [Bool.and_eq_true] at hok
        exact ⟨rfl, rfl, rfl, hok.1, hmb⟩
      · right
        exact ⟨rfl, rfl, rfl, rfl, by rw [hmb]⟩

/-- A dial that fails. -/
theorem Kept.lost (h : InSync l m) (hup : l.up = false) (hctx : m'.ctx = false)
    (herr : m'.mb.errors = m.mb.errors + 1 + 1)
    (hfits : Runs.Along advance Fits l [.connect false]) : Kept l m' [.connect false] := by
  have hle : l.unserved + 2 < 2 ^ 16 := hfits.1
  have htwo : m.mb.errors + 1 + 1 = m.mb.errors + BitVec.ofNat 16 2 := by
    rw [add_assoc]
    rfl
  refine ⟨⟨hup, trivial⟩, ?_, ?_⟩
  · rw [herr, htwo]
    exact toNat_errors_add h.errors hle
  · constructor
    · exact fun hfalse => Bool.noConfusion hfalse
    · exact fun hc => absurd hc.1 (hctx ▸ Bool.false_ne_true)

/-- The request at the end of an attempt. -/
structure Request (c : Call) (served : Bool) (m m' : ModbusPLC) : Prop where
  line : ∀ l, advance l c = if served then ⟨true, 0⟩ else l.lost 1
  inOrder : ∀ l, InOrder l c ↔ l.up = true
  ctx : m'.ctx = m.ctx
  errors : m'.mb.errors = if served then 0 else m.mb.errors + 1

/-- A request on a connection that is up, whatever `errors` remembers. -/
theorem Request.kept {c : Call} {served : Bool} (hr : Request c served m m')
    (hup : l.up = true) (hctx : m.ctx = true) (herr : m.mb.errors.toNat = l.unserved)
    (hfits : Runs.Along advance Fits l [c]) : Kept l m' [c] := by
  refine ⟨⟨(hr.inOrder l).mpr hup, trivial⟩, ?_⟩
  rw [Runs.run_cons, Runs.run_nil, hr.line]
  cases served with
  | true =>
      refine ⟨?_, ?_⟩
      · rw [hr.errors]
        rfl
      · exact ⟨fun _ => ⟨hr.ctx.trans hctx, rfl⟩, fun _ => rfl⟩
  | false =>
      have hle : l.unserved + 1 < 2 ^ 16 := by
        have hfit : (advance l c).unserved < 2 ^ 16 := hfits.1
        rw [hr.line] at hfit
        exact hfit
      refine ⟨?_, ?_⟩
      · rw [hr.errors]
        exact toNat_errors_add herr hle
      · constructor
        · exact fun hfalse => Bool.noConfusion hfalse
        · exact fun hc => absurd hc.2 (Nat.succ_ne_zero l.unserved)

theorem readAllregs_request (device : ℤ → Word) (e : ReadAttempt) (m : ModbusPLC) :
    (readAllregs device e m).2 = [.read m.regMin (nbRegs m) e.reply] ∧
    Request (.read m.regMin (nbRegs m) e.reply) (e.reply = nbRegs m) m (readAllregs device e m).1 ∧
    (0 < (readAllregs device e m).1.rc ↔ e.reply = nbRegs m) := by
  have hpos := nbRegs_pos m
  unfold readAllregs
  dsimp only
  split_ifs with hreply hone
  · exact ⟨rfl, ⟨fun l => by simp [advance, hreply], fun l => Iff.rfl, rfl, by simp [hreply]⟩,
      by simp only [hreply, hpos]⟩
  · exact ⟨rfl, ⟨fun l => by simp [advance, hreply], fun l => Iff.rfl, rfl, by simp [hreply]⟩,
      by simp [hreply]⟩
  · exact ⟨rfl, ⟨fun l => by simp [advance, hreply], fun l => Iff.rfl, rfl, by simp [hreply]⟩,
      by simp [hreply]⟩

theorem writeReg_request (e : WriteAttempt) (a : ℤ) (m : ModbusPLC) :
    (writeReg e a m).2 = [.write (m.regs.val a).raddr (m.regs.val a).data.rvalue e.acked] ∧
    Request (.write (m.regs.val a).raddr (m.regs.val a).data.rvalue e.acked) e.acked m
      (writeReg e a m).1 ∧
    (0 < (writeReg e a m).1.rc ↔ e.acked = true) := by
  unfold writeReg
  dsimp only
  split_ifs with hack
  · exact ⟨rfl, ⟨fun l => by simp [advance, hack], fun l => Iff.rfl, rfl, by simp [hack]⟩,
      by simp [hack]⟩
  · exact ⟨rfl, ⟨fun l => by simp [advance, hack], fun l => Iff.rfl, rfl, by simp [hack]⟩,
      by simp [hack]⟩

/-- The body of both loops: connect, and make the request if that went well. -/
def attempt (k : Link) (request : ModbusPLC → ModbusPLC × List Call) (m : ModbusPLC) :
    ModbusPLC × List Call :=
  let c := mbConnect k { m with att := m.att + 1 }
  if c.1.rc = 0 then
    let r := request c.1
    (r.1, c.2 ++ r.2)
  else ({ c.1 with mb := { c.1.mb with errors := c.1.mb.errors + 1 } }, c.2)

theorem tryRead_attempt (device : ℤ → Word) (e : ReadAttempt) (m : ModbusPLC) :
    tryRead device e m = attempt e.toLink (readAllregs device e) m := rfl

theorem tryWrite_attempt (e : WriteAttempt) (a : ℤ) (m : ModbusPLC) :
    tryWrite e a m = attempt e.toLink (writeReg e a) m := rfl

/-- A request that is served makes `rc` positive. -/
def Asks (request : ModbusPLC → ModbusPLC × List Call) : Prop :=
  ∀ m, ∃ c served, (request m).2 = [c] ∧ Request c served m (request m).1 ∧
    (served = true → 0 < (request m).1.rc)

theorem readAllregs_asks (device : ℤ → Word) (e : ReadAttempt) : Asks (readAllregs device e) := by
  intro m
  obtain ⟨hcalls, hreq, hrc⟩ := readAllregs_request device e m
  exact ⟨_, _, hcalls, hreq, fun h => hrc.mpr (of_decide_eq_true h)⟩

theorem writeReg_asks (e : WriteAttempt) (a : ℤ) : Asks (writeReg e a) := by
  intro m
  obtain ⟨hcalls, hreq, hrc⟩ := writeReg_request e a m
  exact ⟨_, _, hcalls, hreq, hrc.mpr⟩

/-- What is kept between attempts: after one that left the connection up there is no other. -/
structure Going (l : Line) (m : ModbusPLC) (r : ModbusPLC × List Call) : Prop
    extends Kept l r.1 r.2 where
  done : (Runs.run advance l r.2).up = true → 0 ≤ r.1.rc

theorem attempt_going {request : ModbusPLC → ModbusPLC × List Call} (hreq : Asks request)
    (h : InSync l m) (hrc : l.up = true → m.rc = 0) (k : Link)
    (hfits : Runs.Along advance Fits l (attempt k request m).2) :
    Going l m (attempt k request m) := by
  have hcases := mbConnect_cases (m := { m with att := m.att + 1 }) ⟨h.errors, h.up⟩ hrc k
  unfold attempt at hfits ⊢
  dsimp only at hfits ⊢
  generalize mbConnect k { m with att := m.att + 1 } = c at *
  obtain ⟨call, served, hcall, hr, hserved⟩ := hreq c.1
  have hlast : ∀ l', (Runs.run advance l' [call]).up = true → 0 ≤ (request c.1).1.rc := by
    intro l' hup
    rw [Runs.run_cons, Runs.run_nil, hr.line] at hup
    cases served with
    | true => exact (hserved rfl).le
    | false => exact Bool.noConfusion hup
  rcases hcases with ⟨hup, rfl, hc⟩ | ⟨hdown, hcalls, hc, hctx, hmb⟩ | ⟨hdown, hcalls, hc, hctx, herr⟩
  · -- the connection is up and used as it is
    rw [if_pos hc, hcall] at hfits ⊢
    exact ⟨hr.kept hup (h.up.mp hup).1 h.errors hfits, hlast l⟩
  · -- a new connection; `errors` still tells of the old one
    rw [if_pos hc, hcall, hcalls] at hfits ⊢
    have hfit := Runs.along_append.mp hfits
    have hkept := hr.kept (l := { l with up := true }) rfl hctx (by rw [hmb]; exact h.errors) hfit.2
    exact ⟨⟨⟨hdown, hkept.inOrder⟩, hkept.inSync⟩, hlast _⟩
  · have hc0 : ¬ c.1.rc = 0 := by
      rw [hc]
      decide
    rw [if_neg hc0, hcalls] at hfits ⊢
    refine ⟨Kept.lost h hdown hctx ?_ hfits, fun hup => Bool.noConfusion hup⟩
    exact congrArg (· + 1) herr

theorem readLoop_going (device : ℤ → Word) (env : ℕ → ReadAttempt) (fuel : ℕ) (l : Line)
    (m : ModbusPLC) (h : InSync l m) (hrc : l.up = true → 0 ≤ m.rc)
    (hfits : Runs.Along advance Fits l (readLoop device env fuel m).2) :
    Going l m (readLoop device env fuel m) := by
  induction fuel generalizing l m with
  | zero => exact ⟨.nil h, hrc⟩
  | succ fuel ih =>
      unfold readLoop at hfits ⊢
      split_ifs at hfits ⊢ with hgo
      · rw [tryRead_attempt] at hfits ⊢
        dsimp only at hfits ⊢
        have hfit := Runs.along_append.mp hfits
        have hfirst := attempt_going (readAllregs_asks device (env m.att.toNat)) h
          (fun hup => le_antisymm hgo.2 (hrc hup)) (env m.att.toNat).toLink hfit.1
        have hrest := ih _ _ hfirst.inSync hfirst.done hfit.2
        refine ⟨hfirst.toKept.append hrest.toKept, ?_⟩
        rw [Runs.run_append]
        exact hrest.done
      · exact ⟨.nil h, hrc⟩

theorem writeLoop_going (env : ℕ → WriteAttempt) (a : ℤ) (fuel : ℕ) (l : Line) (m : ModbusPLC)
    (h : InSync l m) (hrc : l.up = true → 0 ≤ m.rc)
    (hfits : Runs.Along advance Fits l (writeLoop env a fuel m).2) :
    Going l m (writeLoop env a fuel m) := by
  induction fuel generalizing l m with
  | zero => exact ⟨.nil h, hrc⟩
  | succ fuel ih =>
      unfold writeLoop at hfits ⊢
      split_ifs at hfits ⊢ with hgo
      · rw [tryWrite_attempt] at hfits ⊢
        dsimp only at hfits ⊢
        have hfit := Runs.along_append.mp hfits
        have hfirst := attempt_going (writeReg_asks (env m.att.toNat) a) h
          (fun hup => le_antisymm hgo.2 (hrc hup)) (env m.att.toNat).toLink hfit.1
        have hrest := ih _ _ hfirst.inSync hfirst.done hfit.2
        refine ⟨hfirst.toKept.append hrest.toKept, ?_⟩
        rw [Runs.run_append]
        exact hrest.done
      · exact ⟨.nil h, hrc⟩

theorem readMaster_kept (device : ℤ → Word) (env : ℕ → ReadAttempt) (h : InSync l m)
    (hfits : Runs.Along advance Fits l (readMaster device env m).2) :
    Kept l (readMaster device env m).1 (readMaster device env m).2 := by
  have hgo := readLoop_going device env m.attempts.toNat l { m with rc := 0, att := 0 }
    ⟨h.errors, h.up⟩ (fun _ => le_rfl) hfits
  exact hgo.toKept.congr rfl rfl

theorem writeTurn_kept (env : ℤ → ℕ → WriteAttempt) (a : ℤ) (h : InSync l m)
    (hfits : Runs.Along advance Fits l (writeTurn env m a).2) :
    Kept l (writeTurn env m a).1 (writeTurn env m a).2 := by
  unfold writeTurn at hfits ⊢
  dsimp only at hfits ⊢
  split_ifs at hfits ⊢
  · exact (writeLoop_going (env a) a _ l { m with rc := 0, att := 0 } ⟨h.errors, h.up⟩
      (fun _ => le_rfl) hfits).toKept.congr rfl rfl
  · exact (writeLoop_going (env a) a _ l { m with rc := 0, att := 0 } ⟨h.errors, h.up⟩
      (fun _ => le_rfl) hfits).toKept
  · exact .nil h

theorem writeTurns_kept (env : ℤ → ℕ → WriteAttempt) (as : List ℤ) (l : Line) (m : ModbusPLC)
    (h : InSync l m) (hfits : Runs.Along advance Fits l (writeTurns env as m).2) :
    Kept l (writeTurns env as m).1 (writeTurns env as m).2 := by
  induction as generalizing l m with
  | nil => exact .nil h
  | cons a as ih =>
      unfold writeTurns at hfits ⊢
      dsimp only at hfits ⊢
      have hfit := Runs.along_append.mp hfits
      have hfirst := writeTurn_kept env a h hfit.1
      exact hfirst.append (ih _ _ hfirst.inSync hfit.2)

theorem writeMaster_kept (env : ℤ → ℕ → WriteAttempt) (h : InSync l m)
    (hfits : Runs.Along advance Fits l (writeMaster env m).2) :
    Kept l (writeMaster env m).1 (writeMaster env m).2 :=
  writeTurns_kept env m.regs.keys l { m with rcWrite := 0 } ⟨h.errors, h.up⟩ hfits

/-- A pass writes to the registers of a PLC object and to nothing else of it. -/
theorem setPlcValue_line (v : NumericU) (d : RegDef) (plcs : PlcVec) (i : ℕ) :
    (d.setPlcValue v plcs i).ctx = (plcs i).ctx ∧ (d.setPlcValue v plcs i).mb = (plcs i).mb := by
  unfold RegDef.setPlcValue
  generalize List.range d.prop.rsize = ks
  induction ks generalizing plcs with
  | nil => exact ⟨rfl, rfl⟩
  | cons k ks ih =>
      have hword : (d.setPlcReg (v.mb64u k) k plcs i).ctx = (plcs i).ctx ∧
          (d.setPlcReg (v.mb64u k) k plcs i).mb = (plcs i).mb := by
        unfold RegDef.setPlcReg
        cases d.source k with
        | none => exact ⟨rfl, rfl⟩
        | some p =>
            by_cases hi : i = p.plc
            · subst hi
              simp [PlcVec.store]
            · simp [PlcVec.store, Function.update_of_ne hi]
      have hrest := ih (d.setPlcReg (v.mb64u k) k plcs)
      exact ⟨hrest.1.trans hword.1, hrest.2.trans hword.2⟩

theorem refresh_line (data : ReadData) (t : Turn) (i : ℕ) :
    ((t.refresh data).1.plcs i).ctx = (t.plcs i).ctx ∧
      ((t.refresh data).1.plcs i).mb = (t.plcs i).mb := by
  unfold Turn.refresh
  dsimp only
  split_ifs
  · exact ⟨rfl, rfl⟩
  · rw [Turn.refreshModbus_plcs]
    split_ifs
    · exact setPlcValue_line t.opcVal t.rm.toRegDef t.plcs i
    · exact ⟨rfl, rfl⟩

theorem pass_line (data : ReadData) (g : Gateway) (i : ℕ) :
    ((g.taskRegsRefresh data).1.plcs i).ctx = (g.plcs i).ctx ∧
      ((g.taskRegsRefresh data).1.plcs i).mb = (g.plcs i).mb := by
  unfold Gateway.taskRegsRefresh
  generalize g.regmap.keys = ns
  induction ns generalizing g with
  | nil => exact ⟨rfl, rfl⟩
  | cons n ns ih =>
      have hround := refresh_line data (g.turn n) i
      have hrest := ih (g.refreshEntry data n).1
      exact ⟨hrest.1.trans hround.1, hrest.2.trans hround.2⟩

/-- The calls to device `i` in a step. -/
def callsTo (i : ℕ) (s : System) : Event → List Call
  | .poll k env => if k = i then (readMaster (s.devices k) env (s.gateway.plcs k)).2 else []
  | .writeOut k env => if k = i then (writeMaster env (s.gateway.plcs k)).2 else []
  | _ => []

/-- The calls to device `i` in a run. -/
def trace (i : ℕ) : System → List Event → List Call
  | _, [] => []
  | s, e :: es => callsTo i s e ++ trace i (step s e) es

variable {i : ℕ} {s : System}

theorem step_kept (h : InSync l (s.gateway.plcs i)) (e : Event)
    (hfits : Runs.Along advance Fits l (callsTo i s e)) :
    Kept l ((step s e).gateway.plcs i) (callsTo i s e) := by
  cases e with
  | poll k env =>
      by_cases hk : k = i
      · subst hk
        simp only [callsTo, if_true, step, setPlc, Function.update_self] at hfits ⊢
        exact readMaster_kept _ env h hfits
      · simp only [callsTo, if_neg hk, step, setPlc, Function.update_of_ne (Ne.symm hk)]
        exact .nil h
  | writeOut k env =>
      by_cases hk : k = i
      · subst hk
        simp only [callsTo, if_true, step, setPlc, Function.update_self] at hfits ⊢
        exact writeMaster_kept env h hfits
      · simp only [callsTo, if_neg hk, step, setPlc, Function.update_of_ne (Ne.symm hk)]
        exact .nil h
  | pass data =>
      obtain ⟨hctx, hmb⟩ := pass_line data s.gateway i
      exact .nil (h.congr hctx (congrArg Plcdata.errors hmb))
  | clientWrite t x => exact .nil h
  | writeValue t x data => exact .nil h
  | refreshAll data => exact .nil h

/-- In every run in which the count of failures fits into `errors`, the gateway asks a
device on a connection that is up, and connects when there is none. -/
theorem sessions_in_order (h : InSync l (s.gateway.plcs i)) (es : List Event)
    (hfits : Runs.Along advance Fits l (trace i s es)) :
    Runs.Along advance InOrder l (trace i s es) ∧
      InSync (Runs.run advance l (trace i s es)) ((Runs.run step s es).gateway.plcs i) := by
  have hkept : Kept l ((Runs.run step s es).gateway.plcs i) (trace i s es) := by
    induction es generalizing l s with
    | nil => exact .nil h
    | cons e es ih =>
        have hfit := Runs.along_append.mp hfits
        have hstep := step_kept h e hfit.1
        exact hstep.append (ih hstep.inSync hfit.2)
  exact ⟨hkept.inOrder, hkept.inSync⟩

/-- A device of three attempts with one word to be written. -/
def asked : System where
  gateway :=
    { small {} (smallEntry 1 0 {}) { uaType := .uint16 } with
      plcs := fun _ => { smallPlc { rmode := 1, rupdate := 1 } with attempts := 3 } }
  devices := fun _ _ => 5

/-- The first connect fails, the second reply is short, and the write is not acknowledged. -/
def troubled : List Event :=
  [.poll 0 fun k => ⟨⟨true, k ≠ 0⟩, if k = 1 then 2 else 1⟩,
   .writeOut 0 fun _ k => ⟨⟨true, true⟩, k = 1⟩]

theorem trace_asked : trace 0 asked troubled =
    [.connect false, .connect true, .read 0 1 2, .connect true, .read 0 1 1,
     .write 0 0 false, .connect true, .write 0 0 true] := by decide +kernel

theorem asked_in_order :
    Runs.Along advance InOrder {} (trace 0 asked troubled) ∧
      InSync (Runs.run advance {} (trace 0 asked troubled))
        ((Runs.run step asked troubled).gateway.plcs 0) := by
  apply sessions_in_order
  · exact ⟨rfl, by decide⟩
  · rw [trace_asked]
    decide

end RwModbus.Session
