import RwModbus.Library.Traces
import RwModbus.System

/-!
# The order of the devices' tasks

Every device has a task of its own, and the server has its clients and its cache.
None of them sees another between two passes, so a schedule matters only as far
as a device, or the server, can tell it from another one.
-/
namespace RwModbus.Interleaving
open Numeric Registers Reg Opc Refresh Master Sys

/-- Who a step is about: the server or a device. A pass is about all. -/
inductive Party where
  | server
  | device (i : ℕ)
deriving DecidableEq, Repr

def party : Event → Option Party
  | .clientWrite _ _ | .writeValue _ _ _ | .refreshAll _ => some .server
  | .poll i _ | .writeOut i _ => some (.device i)
  | .pass _ => none

instance : Nonempty Party := ⟨.server⟩

/-- A step of a device: what becomes of its PLC object and of itself. -/
def deviceStep (e : Event) (m : ModbusPLC) (device : ℤ → Word) : ModbusPLC × (ℤ → Word) :=
  match e with
  | .poll _ env => ((readMaster device env m).1, device)
  | .writeOut _ env => ((writeMaster env m).1, applyWrites device (ackedWrites (writeMaster env m).2))
  | _ => (m, device)

/-- A step of the server. -/
def serverStep (e : Event) (o : OpcServer) : OpcServer :=
  match e with
  | .clientWrite n x => o.clientWrite n x
  | .writeValue n x data => o.writeValue data n x true
  | .refreshAll data => o.refreshAllValues data
  | _ => o

theorem step_device {e : Event} {i : ℕ} (h : party e = some (.device i)) (s : System) :
    step s e =
      { gateway := setPlc s.gateway i (deviceStep e (s.gateway.plcs i) (s.devices i)).1
        devices := Function.update s.devices i
          (deviceStep e (s.gateway.plcs i) (s.devices i)).2 } := by
  cases e with
  | poll j env =>
      obtain rfl : j = i := by simpa [party] using h
      simp [step, deviceStep]
  | writeOut j env =>
      obtain rfl : j = i := by simpa [party] using h
      simp [step, deviceStep]
  | clientWrite n x => simp [party] at h
  | writeValue n x data => simp [party] at h
  | refreshAll data => simp [party] at h
  | pass data => simp [party] at h

theorem step_server {e : Event} (h : party e = some .server) (s : System) :
    step s e = { s with gateway := { s.gateway with opcs := serverStep e s.gateway.opcs } } := by
  cases e with
  | clientWrite n x => rfl
  | writeValue n x data => rfl
  | refreshAll data => rfl
  | pass data => simp [party] at h
  | poll j env => simp [party] at h
  | writeOut j env => simp [party] at h

/-- Steps about different parties can be taken in either order. -/
theorem commutes : Traces.Commutes step party := by
  rintro s a b ⟨x, y, ha, hb, hne⟩
  cases x with
  | server =>
      cases y with
      | server => exact absurd rfl hne
      | device j => simp only [step_server ha, step_device hb, setPlc]
  | device i =>
      cases y with
      | server => simp only [step_device ha, step_server hb, setPlc]
      | device j =>
          have hij : i ≠ j := fun h => hne (congrArg Party.device h)
          simp only [step_device ha, step_device hb, setPlc, Function.update_of_ne hij,
            Function.update_of_ne hij.symm]
          rw [Function.update_comm hij, Function.update_comm hij]

/-- Two schedules in which the server and each device see their own steps and the
passes in the same order end in the same state. -/
theorem schedules_agree {es fs : List Event}
    (h : ∀ x, Traces.view party x es = Traces.view party x fs) (s : System) :
    Runs.run step s es = Runs.run step s fs := Traces.run_eq_of_views commutes h s

def twoDevices : System where
  gateway := small { rvalue := 5, rmode := 1 } (smallEntry 1 0 (.ofUi16 5))
    { uaType := .uint16, rawValue := .ofUi16 5, node := .ofUi16 5 }
  devices := fun _ _ => 5

def lost : Event := .poll 0 fun _ => ⟨⟨true, false⟩, -1⟩
def sent : Event := .writeOut 1 fun _ _ => ⟨⟨true, true⟩, true⟩
def asked : Event := .clientWrite ['/', 'v'] (.ofUi16 9)

theorem twoDevices_agree :
    Runs.run step twoDevices [lost, asked, sent, .pass fun _ => none, lost, sent] =
      Runs.run step twoDevices [sent, lost, asked, .pass fun _ => none, sent, lost] := by
  apply schedules_agree
  intro x
  cases x with
  | server => rfl
  | device i =>
      by_cases h0 : 0 = i
      · subst h0
        rfl
      · by_cases h1 : 1 = i
        · subst h1
          rfl
        · have hlost : Traces.concerns party (.device i) lost = false := by
            simp [Traces.concerns, party, lost, h0]
          have hsent : Traces.concerns party (.device i) sent = false := by
            simp [Traces.concerns, party, sent, h1]
          simp [Traces.view, List.filter_cons, hlost, hsent]

end RwModbus.Interleaving
