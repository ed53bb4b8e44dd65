import RwModbus.Library.Runs
import RwModbus.Master
import RwModbus.Refresh

/-!
# The running gateway

The gateway and its devices, with one label for each scheduled task, for a
client's write and for a write by the gateway's own tasks. A label carries what
the outside answers. A device changes through acknowledged writes alone.
-/
namespace RwModbus.Sys
open Numeric Registers Reg Opc Refresh Master

structure System where
  gateway : Gateway
  devices : ℕ → ℤ → Word

inductive Event where
  | clientWrite (s : Name) (x : NumericU)
  | writeValue (s : Name) (x : NumericU) (data : Option NumericU)
  | refreshAll (data : ReadData)
  | pass (data : ReadData)
  | poll (i : ℕ) (env : ℕ → ReadAttempt)
  | writeOut (i : ℕ) (env : ℤ → ℕ → WriteAttempt)

def setPlc (g : Gateway) (i : ℕ) (m : ModbusPLC) : Gateway :=
  { g with plcs := Function.update g.plcs i m }

def step (s : System) : Event → System
  | .clientWrite n x =>
      { s with gateway := { s.gateway with opcs := s.gateway.opcs.clientWrite n x } }
  | .writeValue n x data =>
      { s with gateway := { s.gateway with opcs := s.gateway.opcs.writeValue data n x true } }
  | .refreshAll data =>
      { s with gateway := { s.gateway with opcs := s.gateway.opcs.refreshAllValues data } }
  | .pass data => { s with gateway := (s.gateway.taskRegsRefresh data).1 }
  | .poll i env =>
      { s with gateway := setPlc s.gateway i (readMaster (s.devices i) env (s.gateway.plcs i)).1 }
  | .writeOut i env =>
      let r := writeMaster env (s.gateway.plcs i)
      { gateway := setPlc s.gateway i r.1
        devices := Function.update s.devices i (applyWrites (s.devices i) (ackedWrites r.2)) }

theorem setPlc_data (g : Gateway) (i : ℕ) (m : ModbusPLC) (q : RegPtr) :
    (setPlc g i m).plcs.data q =
      if q.plc = i then (m.regs.val q.raddr).data else g.plcs.data q := by
  by_cases h : q.plc = i
  · simp [setPlc, PlcVec.data, h]
  · simp [setPlc, PlcVec.data, h]

theorem setPlc_sameConfig {g : Gateway} {i : ℕ} {m : ModbusPLC}
    (hmode : ∀ a, (m.regs.val a).data.rmode = ((g.plcs i).regs.val a).data.rmode)
    (hkeys : m.regs.keys = (g.plcs i).regs.keys) : g.SameConfig (setPlc g i m) := by
  refine ⟨fun q => ?_, fun j => ?_, OpcServer.Touches.refl _ _, rfl, fun _ => rfl⟩
  · rw [setPlc_data]
    split_ifs with h
    · rw [hmode, ← h]
      rfl
    · rfl
  · by_cases h : j = i
    · subst h
      simp [setPlc, hkeys]
    · simp [setPlc, h]

theorem setOpcs_sameConfig {g : Gateway} {S : Set Name} {o : OpcServer}
    (h : OpcServer.Touches S g.opcs o) : g.SameConfig { g with opcs := o } :=
  ⟨fun _ => rfl, fun _ => rfl, h.mono (Set.subset_univ S), rfl, fun _ => rfl⟩

/-- No step changes the configuration. -/
theorem step_sameConfig (s : System) (e : Event) : s.gateway.SameConfig (step s e).gateway := by
  cases e with
  | clientWrite n x => exact setOpcs_sameConfig (OpcServer.clientWrite_touches n x _)
  | writeValue n x data => exact setOpcs_sameConfig (OpcServer.writeValue_touches data n x true _)
  | refreshAll data => exact setOpcs_sameConfig (OpcServer.refreshAllValues_touches data _)
  | pass data => exact (Gateway.taskRegsRefresh_frame data s.gateway).sameConfig
  | poll i env => exact setPlc_sameConfig (readMaster_rmode _ _ _) (readMaster_keys _ _ _)
  | writeOut i env =>
      exact setPlc_sameConfig (fun a => (writeMaster_data env _ a).2)
        (writeMaster_outcome env (s.gateway.plcs i)).keys

end RwModbus.Sys
