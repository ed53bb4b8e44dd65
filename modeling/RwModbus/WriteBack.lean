import RwModbus.Refresh

/-!
# What a taken value reaches

The write-back branch stores the client's value in the entry's local value
whatever the Modbus layer says. It is queued for the PLC exactly if each source
word exists and is itself writable.
-/
namespace RwModbus.WriteBack
open Numeric Registers Reg Opc Refresh

/-- Each source has its word of `v`, and asks for a write if that changed it. -/
def Queued (v : NumericU) (d : RegDef) (plcs plcs' : PlcVec) : Prop :=
  ∀ i < d.prop.rsize, ∃ p, d.source i = some p ∧ (plcs'.data p).rvalue = v.mb64u i ∧
    ((plcs'.data p).rvalue ≠ (plcs.data p).rvalue → (plcs'.data p).rupdate = 1)

/-- Some word of `v` finds no register or is refused by `set_reg`. -/
def Refused (v : NumericU) (d : RegDef) (plcs : PlcVec) : Prop :=
  ∃ i < d.prop.rsize, ∀ p, d.source i = some p → (setReg (v.mb64u i) (plcs.data p)).2 = -1

/-- Every source exists and is writable. -/
def Writable (d : RegDef) (plcs : PlcVec) : Prop :=
  ∀ i < d.prop.rsize, ∃ p, d.source i = some p ∧ (plcs.data p).rmode = 1

theorem refused_iff {v : NumericU} {d : RegDef} {plcs : PlcVec} :
    Refused v d plcs ↔ ¬ Writable d plcs := by
  simp only [Refused, Writable, setReg_ret, not_forall, not_exists, not_and, exists_prop, ne_eq]

theorem Writable.queued {d : RegDef} {plcs : PlcVec} (h : Writable d plcs) (v : NumericU) :
    Queued v d plcs (d.setPlcValue v plcs) := by
  intro i hi
  obtain ⟨p, hp, hmode⟩ := h i hi
  have hdata := RegDef.setPlcValue_data hi hp v plcs
  refine ⟨p, hp, ?_, fun hne => ?_⟩
  · rw [hdata, setReg_rvalue hmode]
  · rw [hdata] at hne ⊢
    exact setReg_rupdate hne

theorem writable_congr {d : RegDef} {P : Set RegPtr} {plcs plcs' : PlcVec}
    (h : PlcVec.Writes P plcs plcs') : Writable d plcs' ↔ Writable d plcs := by
  simp only [Writable, h.mode]

def afterRound (data : ReadData) (n : Name) (g : Gateway) : Gateway :=
  ((g.atTurn data n).refreshEntry data n).1

/-- A pass in which the entry takes the client's value: the value is queued, and
no refused value counts as accepted, exactly if every source is writable. -/
theorem takes_queued_iff {g : Gateway} {n : Name} (data : ReadData)
    (hk : (g.regmap.val n).kind ≠ .scada) (ht : (g.turnOf data n).takes = true) :
    (Queued (g.turnOf data n).opcVal (g.regmap.val n).toRegDef (g.turnOf data n).plcs
        (afterRound data n g).plcs ∧
      (Refused (g.turnOf data n).opcVal (g.regmap.val n).toRegDef (g.turnOf data n).plcs →
        ((afterRound data n g).regmap.val n).number ≠ (g.turnOf data n).opcVal)) ↔
      Writable (g.regmap.val n).toRegDef g.plcs := by
  have hf := Gateway.atTurn_frame data n g
  have hrm : (g.turnOf data n).rm = g.regmap.val n := hf.entries n fun h => h rfl
  have hk' : (g.turnOf data n).rm.kind ≠ .scada := by rw [hrm]; exact hk
  have hplcs : (afterRound data n g).plcs =
      (g.regmap.val n).setPlcValue (g.turnOf data n).opcVal (g.turnOf data n).plcs := by
    have hround : (afterRound data n g).plcs = ((g.turnOf data n).refresh data).1.plcs := rfl
    rw [hround, Turn.refresh_plcs hk', Turn.refreshModbus_plcs, if_pos ht, hrm]
  have hnumber : ((afterRound data n g).regmap.val n).number = (g.turnOf data n).opcVal := by
    have hround : (afterRound data n g).regmap.val n = ((g.turnOf data n).refresh data).1.rm :=
      Gateway.refreshEntry_val data n (g.atTurn data n)
    rw [hround, Turn.refresh_rm hk', Turn.refreshModbus_number hk', if_pos ht]
  have hmode : Writable (g.regmap.val n).toRegDef (g.turnOf data n).plcs ↔
      Writable (g.regmap.val n).toRegDef g.plcs := writable_congr hf.plcs
  rw [hplcs, hnumber, refused_iff, hmode]
  constructor
  · rintro ⟨-, haccept⟩
    by_contra hno
    exact haccept hno rfl
  · intro hw
    exact ⟨(hmode.mpr hw).queued _, fun hno => absurd hw hno⟩

/-- A writable entry that refers to a word of the given mode: the word and the
local value are 5, the client has written 9. -/
def refGateway (rmode : ℤ) : Gateway :=
  small { rvalue := 5, rmode := rmode } (smallRef { rvalue := 5, rmode := rmode } 1 0 (.ofUi16 5))
    { uaType := .uint16, rawValue := .ofUi16 9, node := .ofUi16 9 }

theorem takes_queued_writable :
    (Queued (((refGateway 1).turnOf (fun _ => none) ['v']).opcVal)
        ((refGateway 1).regmap.val ['v']).toRegDef
        ((refGateway 1).turnOf (fun _ => none) ['v']).plcs
        (afterRound (fun _ => none) ['v'] (refGateway 1)).plcs ∧
      (Refused (((refGateway 1).turnOf (fun _ => none) ['v']).opcVal)
          ((refGateway 1).regmap.val ['v']).toRegDef
          ((refGateway 1).turnOf (fun _ => none) ['v']).plcs →
        ((afterRound (fun _ => none) ['v'] (refGateway 1)).regmap.val ['v']).number ≠
          ((refGateway 1).turnOf (fun _ => none) ['v']).opcVal)) := by
  refine (takes_queued_iff (fun _ => none) (by decide) (by decide)).mpr fun i hi => ?_
  have hi : i < 1 := hi
  obtain rfl : i = 0 := by omega
  exact ⟨⟨0, 0⟩, by decide, by decide⟩

/-- With a read-only word the value is taken, refused and recorded as accepted. -/
theorem takes_refused :
    ¬ ∀ (g : Gateway) (n : Name) (data : ReadData), (g.regmap.val n).kind ≠ .scada →
      (g.turnOf data n).takes = true →
      Queued (g.turnOf data n).opcVal (g.regmap.val n).toRegDef (g.turnOf data n).plcs
          (afterRound data n g).plcs ∧
        (Refused (g.turnOf data n).opcVal (g.regmap.val n).toRegDef (g.turnOf data n).plcs →
          ((afterRound data n g).regmap.val n).number ≠ (g.turnOf data n).opcVal) := by
  intro h
  obtain ⟨hqueued, -⟩ := h (refGateway 0) ['v'] (fun _ => none) (by decide) (by decide)
  obtain ⟨p, hp, hval, -⟩ := hqueued 0 (by decide)
  obtain rfl : (⟨0, 0⟩ : RegPtr) = p := Option.some.inj hp
  revert hval
  decide

end RwModbus.WriteBack
