import RwModbus.Library.Runs
import RwModbus.Master

/-!
# A write request in flight

One writable register and its device, with `write_reg` split into sending the
request and processing the acknowledgement. `set_reg` may come between, a poll
may not, since both transfers hold the object's lock. The acknowledgement clears
`rupdate` without looking at the value it acknowledges.
-/
namespace RwModbus.InFlight
open Numeric Registers Master

/-- The register's data, its device and the value on its way to it. `unsent` is
the last value stored by `set_reg`, until a request carrying it is acknowledged. -/
structure Line where
  R : Mbreg
  device : Word
  inFlight : Option Word := none
  unsent : Option Word := none
deriving DecidableEq, Repr

inductive Event where
  | setReg (v : Word)
  | send
  | ack
  | poll
deriving DecidableEq, Repr

def step (s : Line) : Event → Line
  | .setReg v =>
      let r := Registers.setReg v s.R.data
      { s with
        R := { s.R with data := r.1 }
        unsent := if r.2 = 1 then some v else s.unsent }
  | .send =>
      if s.R.data.rmode ≠ 0 ∧ s.R.data.rupdate ≠ 0 ∧ s.inFlight = none then
        { s with inFlight := some s.R.data.rvalue }
      else s
  | .ack =>
      match s.inFlight with
      | some v =>
          { R := accept s.R
            device := v
            inFlight := none
            unsent := if s.unsent = some v then none else s.unsent }
      | none => s
  | .poll =>
      if s.inFlight = none then { s with R := takePoll (fun _ => s.device) 0 s.R } else s

/-- An undisturbed send and acknowledgement is an acknowledged `write_reg`. -/
theorem send_ack_eq_writeReg {e : WriteAttempt} (he : e.acked = true) {a : ℤ} {m : ModbusPLC}
    (hmode : (m.regs.val a).data.rmode ≠ 0) (hupdate : (m.regs.val a).data.rupdate ≠ 0)
    (device : Word) :
    let s := step (step { R := m.regs.val a, device := device } .send) .ack
    (writeReg e a m).1.regs.val a = s.R ∧
      ackedWrites (writeReg e a m).2 = [((m.regs.val a).raddr, s.device)] := by
  simp [step, hmode, hupdate, writeReg, he, ackedWrites, accept]

/-- No update is lost: without a pending update the device holds the register's
value, and a stored value is there until it has been acknowledged. -/
structure Safe (s : Line) : Prop where
  synced : s.R.data.rupdate = 0 → s.R.data.rvalue = s.device
  kept : ∀ v, s.unsent = some v → s.R.data.rvalue = v

/-- A writable register that is safe and has nothing in flight. -/
structure Start (s : Line) : Prop extends Safe s where
  rmode : s.R.data.rmode = 1
  idle : s.inFlight = none

/-- An acknowledgement arrives while the register still holds the value that
the request carried. -/
def AckMatches (s : Line) : Event → Prop
  | .ack => ∀ v, s.inFlight = some v → s.R.data.rvalue = v
  | _ => True

structure Inv (s : Line) : Prop extends Safe s where
  rmode : s.R.data.rmode = 1
  pending : ∀ v, s.inFlight = some v → s.R.data.rupdate ≠ 0

theorem Start.inv {s : Line} (h : Start s) : Inv s :=
  { h with pending := fun v hv => by simp [h.idle] at hv }

theorem Inv.setReg {s : Line} (h : Inv s) (v : Word) : Inv (step s (.setReg v)) := by
  by_cases hv : s.R.data.rvalue = v
  · -- nothing to do: the value is there already
    have hsame : Registers.setReg v s.R.data = (s.R.data, 0) := by simp [Registers.setReg, h.rmode, hv]
    simp only [step, hsame]
    exact ⟨⟨h.synced, by simpa using h.kept⟩, h.rmode, h.pending⟩
  · have hstore : Registers.setReg v s.R.data =
        ({ s.R.data with rvalue := v, rupdate := 1 }, 1) := by simp [Registers.setReg, h.rmode, hv]
    simp only [step, hstore]
    exact ⟨⟨by simp, by simp⟩, h.rmode, by simp⟩

theorem Inv.send {s : Line} (h : Inv s) : Inv (step s .send) := by
  simp only [step]
  split_ifs with hc
  · exact ⟨⟨h.synced, h.kept⟩, h.rmode, fun _ _ => hc.2.1⟩
  · exact h

theorem Inv.poll {s : Line} (h : Inv s) : Inv (step s .poll) := by
  simp only [step]
  split_ifs with hidle
  · by_cases hu : s.R.data.rupdate = 0
    · -- the device's word is the register's own
      have hsame : takePoll (fun _ => s.device) 0 s.R = s.R := by
        rw [takePoll, if_pos (Or.inr hu), ← h.synced hu]
      rw [hsame]
      exact h
    · have hsame : takePoll (fun _ => s.device) 0 s.R = s.R := by
        simp [takePoll, h.rmode, hu]
      rw [hsame]
      exact h
  · exact h

theorem Inv.ack {s : Line} (h : Inv s) (hm : AckMatches s .ack) : Inv (step s .ack) := by
  rcases hf : s.inFlight with _ | v
  · simpa only [step, hf] using h
  · have hval : s.R.data.rvalue = v := hm v hf
    simp only [step, hf]
    refine ⟨⟨fun _ => hval, fun w hw => ?_⟩, h.rmode, by simp⟩
    split_ifs at hw
    exact h.kept w hw

theorem Inv.step {s : Line} (h : Inv s) (e : Event) (hm : AckMatches s e) :
    Inv (step s e) := by
  cases e with
  | setReg v => exact h.setReg v
  | send => exact h.send
  | ack => exact h.ack hm
  | poll => exact h.poll

/-- Clearing the flag for another value breaks the agreement at once. -/
theorem safe_step_iff {s : Line} (h : Inv s) (e : Event) :
    Safe (InFlight.step s e) ↔ AckMatches s e := by
  refine ⟨fun hs => ?_, fun hm => (h.step e hm).toSafe⟩
  cases e with
  | setReg v => trivial
  | send => trivial
  | poll => trivial
  | ack =>
      intro v hf
      have hsync := hs.synced
      simp only [InFlight.step, hf] at hsync
      exact hsync rfl

/-- In a run from a safe register, no update is lost exactly if every
acknowledgement finds the register holding the value it acknowledges. -/
theorem along_safe_iff {s : Line} (h : Start s) (es : List Event) :
    Runs.Along step (fun s e => Safe (step s e)) s es ↔ Runs.Along step AckMatches s es :=
  Runs.along_iff (fun _ e hs => safe_step_iff hs e) (fun _ e hs hm => hs.step e hm) es h.inv

def synced : Line := { R := { data := { rvalue := 5, rmode := 1 } }, device := 5 }

theorem synced_start : Start synced := ⟨⟨fun _ => rfl, fun _ h => nomatch h⟩, rfl, rfl⟩

theorem synced_along_safe :
    Runs.Along step (fun s e => Safe (step s e)) synced [.setReg 7, .send, .ack, .setReg 9] :=
  (along_safe_iff synced_start _).mpr ⟨trivial, trivial, fun _ h => Option.some.inj h, trivial,
    trivial⟩

/-- A new value between the request and its acknowledgement is not. -/
theorem synced_setReg_in_flight :
    ¬ ∀ s, Start s → ∀ es, Runs.Along step (fun s e => Safe (step s e)) s es := by
  intro h
  have hrun := h synced synced_start [.setReg 7, .send, .setReg 9, .ack]
  obtain ⟨-, -, -, hack, -⟩ := hrun
  have hsync := hack.synced
  revert hsync
  decide

end RwModbus.InFlight
