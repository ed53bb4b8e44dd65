import RwModbus.OneWord

/-!
# Whether a taken value survives the next pass

A pass that finds the PLC's word changed publishes it first and takes the
client's value afterwards. The published word is then what the next pass finds
in the cache, and it is written back over the client's value.
-/
namespace RwModbus.TwoPasses
open Numeric Registers Reg Opc Refresh OneWord

variable {g : Gateway} {n : Name} {p : RegPtr}

theorem rerrors_of_takes (h : Exposes g n p) {data : ReadData}
    (ht : (g.turnOf data n).takes = true) : (g.plcs.data p).rerrors = 0 := by
  have hat := h.atTurn data
  rw [← wordAt_rerrors data (n := n)]
  exact (plcErr_one hat.prop hat.source).mp (Turn.takes_iff.mp ht).2.2.1

/-- The entry's local value is its word and it records no errors. -/
def InStep (g : Gateway) (n : Name) (p : RegPtr) : Prop :=
  (g.regmap.val n).number = .ofUi16 (g.plcs.data p).rvalue ∧ (g.regmap.val n).varErrors = 0

instance : Decidable (InStep g n p) := inferInstanceAs (Decidable (_ ∧ _))

theorem publishes_iff_inStep (h : Sole g n p) (data : ReadData)
    (h0 : (g.plcs.data p).rerrors = 0) :
    (g.turnOf data n).publishes = true ↔ ¬ InStep g n p := by
  rw [h.publishes_iff data h0, h.wordAt_eq data, InStep, not_and_or, eq_comm]

theorem taken_var (h : Sole g n p) {data : ReadData} (ht : (g.turnOf data n).takes = true)
    (hwr : g.opcs.wrStatus (g.regmap.val n).strOpcname = statusGood) :
    ((g.taskRegsRefresh data).1.var n).uaStatus = statusGood ∧
      ((g.taskRegsRefresh data).1.var n).rawValue =
        if InStep g n p then (g.var n).rawValue else .ofUi16 (g.plcs.data p).rvalue := by
  have h0 := rerrors_of_takes h.toExposes ht
  have hpub := publishes_iff_inStep h data h0
  rw [h.pass_var data]
  by_cases hin : InStep g n p
  · have hno : ¬ (g.turnOf data n).publishes = true := fun hp => hpub.mp hp hin
    rw [if_neg fun hc => hno hc.2, if_pos hin]
    exact ⟨((h.takes_iff data h0).mp ht).2, rfl⟩
  · rw [if_pos ⟨h.kind, hpub.mpr hin⟩, OpcServer.writeVariable_accepted hwr, if_neg hin,
      h.plcErr data h0, h.plcVal data h0, h.wordAt_eq data]
    exact ⟨rfl, rfl⟩

/-- The next pass leaves the word and the local value at the taken value exactly
if the first did not publish, or if the PLC's word was that value already. -/
theorem taken_survives_iff (h : Sole g n p) (data data' : ReadData)
    (ht : (g.turnOf data n).takes = true)
    (hwr : g.opcs.wrStatus (g.regmap.val n).strOpcname = statusGood) :
    let g' := ((g.taskRegsRefresh data).1.taskRegsRefresh data').1
    ((g'.plcs.data p).rvalue = (g.var n).rawValue.ui16 ∧
        (g'.regmap.val n).number.ui16 = (g.var n).rawValue.ui16) ↔
      InStep g n p ∨ (g.plcs.data p).rvalue = (g.var n).rawValue.ui16 := by
  have h0 := rerrors_of_takes h.toExposes ht
  have hS : Sole (g.taskRegsRefresh data).1 n p :=
    h.of_config (Gateway.taskRegsRefresh_frame data g).sameConfig
  have hword := h.pass_data data
  have hlocal := h.pass_number data h0
  obtain ⟨hgood, hraw⟩ := taken_var h ht hwr
  rw [if_pos ht] at hword hlocal
  generalize (g.taskRegsRefresh data).1 = g₁ at *
  have hv : (g₁.plcs.data p).rvalue = (g.var n).rawValue.ui16 := by
    rw [hword, setReg_rvalue h.rmode]
  have h0' : (g₁.plcs.data p).rerrors = 0 := by rw [hword, setReg_rerrors, h0]
  have htake := hS.takes_iff data' h0'
  rw [hlocal] at htake
  dsimp only
  rw [hS.pass_data data', hS.pass_number data' h0', hS.wordAt_eq data', hv]
  by_cases hin : InStep g n p
  · -- nothing was published: the cache still holds the value
    have hno : ¬ (g₁.turnOf data' n).takes = true := by
      rw [htake, hraw, if_pos hin]
      exact fun hc => hc.1 rfl
    rw [if_neg hno, if_neg hno, hv]
    simp [hin]
  rw [if_neg hin] at hraw
  by_cases heq : NumericU.ofUi16 (g.plcs.data p).rvalue = (g.var n).rawValue
  · have hno : ¬ (g₁.turnOf data' n).takes = true := by
      rw [htake, hraw]
      exact fun hc => hc.1 heq
    rw [if_neg hno, if_neg hno, hv, ← heq]
    simp
  · -- the published word comes back
    have hyes : (g₁.turnOf data' n).takes = true := by
      rw [htake, hraw]
      exact ⟨heq, hgood⟩
    rw [if_pos hyes, if_pos hyes, setReg_rvalue hS.rmode, hraw]
    simp [hin]

theorem taken_survives_small :
    let g := small { rvalue := 5, rmode := 1 } (smallEntry 1 0 (.ofUi16 5))
      { uaType := .uint16, rawValue := .ofUi16 9, node := .ofUi16 9 }
    let g' := ((g.taskRegsRefresh fun _ => none).1.taskRegsRefresh fun _ => none).1
    (g'.plcs.data ⟨0, 0⟩).rvalue = 9 ∧ (g'.regmap.val ['v']).number.ui16 = 9 :=
  (taken_survives_iff (small_sole rfl rfl rfl) (fun _ => none) (fun _ => none) (by decide)
    (by decide)).mpr (Or.inl (by decide))

/-- A heartbeat word has moved from 5 to 6 when the client writes 0: the word is
6 again two passes later. -/
theorem taken_undone :
    ¬ ∀ (g : Gateway) (n : Name) (p : RegPtr) (data data' : ReadData), Sole g n p →
      (g.turnOf data n).takes = true →
      g.opcs.wrStatus (g.regmap.val n).strOpcname = statusGood →
      let g' := ((g.taskRegsRefresh data).1.taskRegsRefresh data').1
      (g'.plcs.data p).rvalue = (g.var n).rawValue.ui16 ∧
        (g'.regmap.val n).number.ui16 = (g.var n).rawValue.ui16 := by
  intro h
  have hlast := h
    (small { rvalue := 6, rmode := 1 } (smallEntry 1 0 (.ofUi16 5))
      { uaType := .uint16, rawValue := .ofUi16 0, node := .ofUi16 0 })
    ['v'] ⟨0, 0⟩ (fun _ => none) (fun _ => none) (small_sole rfl rfl rfl) (by decide) (by decide)
  revert hlast
  decide

end RwModbus.TwoPasses
