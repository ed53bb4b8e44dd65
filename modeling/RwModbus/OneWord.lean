import RwModbus.Refresh

/-!
# Writable one-word entries

A pass over an unsigned 16-bit entry that may write its one source word. The
results describe the entry's round by the word, the local value and the cache.
-/
namespace RwModbus.OneWord
open Numeric Registers Reg Opc Refresh

def typeU16 : RegProp := ⟨.uint16, 1, .sngl⟩

theorem kind_one {d : RegDef} {p : RegPtr} (hsrc : d.source 0 = some p) : d.kind ≠ .scada := by
  intro hk
  simp [RegDef.source, hk] at hsrc

section
variable {d : RegDef} {p : RegPtr} (hprop : d.prop = typeU16) (hsrc : d.source 0 = some p)
include hprop hsrc

theorem getPlcErrors_one (plcs : PlcVec) :
    d.getPlcErrors plcs = (plcs.data p).rerrors.toNat := by
  simp [RegDef.getPlcErrors, hprop, typeU16, hsrc]

theorem setPlcValue_one (v : NumericU) (plcs : PlcVec) :
    d.setPlcValue v plcs = plcs.store p (setReg v.ui16 (plcs.data p)).1 := by
  simp [RegDef.setPlcValue, hprop, typeU16, RegDef.setPlcReg, hsrc, List.range_succ]

end

section
variable {t : Turn} {p : RegPtr} (hprop : t.rm.prop = typeU16) (hsrc : t.rm.source 0 = some p)
include hprop hsrc

theorem plcErr_one : t.plcErr = false ↔ (t.plcs.data p).rerrors = 0 := by
  rw [Turn.plcErr_eq_false, getPlcErrors_one hprop hsrc, ← BitVec.toNat_inj]
  rfl

theorem plcVal_one (h : (t.plcs.data p).rerrors = 0) :
    t.plcVal = .ofUi16 (t.plcs.data p).rvalue := by
  rw [Turn.plcVal, RegC.getPlcValue_snd (kind_one hsrc),
    if_pos (Turn.plcErr_eq_false.mp ((plcErr_one hprop hsrc).mpr h))]
  simp [hprop, typeU16, RegC.meaning, RegC.freshWords, RegDef.word, hsrc, h]

end

/-- Entry `n` is writable, of type `u16`, has a variable of its own and the
writable register `p` as its source. -/
structure Exposes (g : Gateway) (n : Name) (p : RegPtr) : Prop extends g.OwnVariable n where
  prop : (g.regmap.val n).prop = typeU16
  source : (g.regmap.val n).source 0 = some p
  writable : (g.regmap.val n).varModeRw ≠ 0
  rmode : (g.plcs.data p).rmode = 1

section
variable {g g' : Gateway} {n : Name} {p : RegPtr}

theorem Exposes.of_config (h : Exposes g n p) (hc : g.SameConfig g') : Exposes g' n p := by
  refine ⟨h.toOwnVariable.of_config hc, ?_, ?_, ?_, ?_⟩
  · rw [hc.defs]
    exact h.prop
  · rw [hc.defs]
    exact h.source
  · rw [hc.defs]
    exact h.writable
  · rw [hc.mode]
    exact h.rmode

theorem Exposes.kind (h : Exposes g n p) : (g.regmap.val n).kind ≠ .scada :=
  kind_one h.source

theorem Exposes.words (h : Exposes g n p) : (g.var n).uaType.words = 1 := by
  have ht := h.uaType
  rw [h.prop, typeU16] at ht
  rw [← Option.some.inj ht]
  rfl

section
variable (h : Exposes g n p)
include h

theorem Exposes.round_data (data : ReadData) : ((g.turn n).refresh data).1.plcs.data p =
    if (g.turn n).takes = true then (setReg (g.var n).rawValue.ui16 (g.plcs.data p)).1
    else g.plcs.data p := by
  have hprop : (g.turn n).rm.prop = typeU16 := h.prop
  have hsrc : (g.turn n).rm.source 0 = some p := h.source
  rw [Turn.refresh_plcs h.kind, Turn.refreshModbus_plcs]
  split_ifs
  · rw [setPlcValue_one hprop hsrc, PlcVec.data_store_self, h.opcVal]
    rfl
  · rfl

variable (h0 : (g.plcs.data p).rerrors = 0)
include h0

theorem Exposes.round_plcErr : (g.turn n).plcErr = false :=
  (plcErr_one h.prop h.source).mpr h0

theorem Exposes.round_plcVal : (g.turn n).plcVal = .ofUi16 (g.plcs.data p).rvalue :=
  plcVal_one h.prop h.source h0

/-- A good variable is taken exactly if its cache differs from the local value. -/
theorem Exposes.round_takes_iff : (g.turn n).takes = true ↔
    (g.var n).rawValue ≠ (g.regmap.val n).number ∧ (g.var n).uaStatus = statusGood := by
  have hw : (g.turn n).rm.varModeRw ≠ 0 := h.writable
  rw [Turn.takes_iff, h.opcErr, Turn.isNewOpc, Turn.oldVal, h.opcVal, h.round_plcErr h0,
    differ_eq_true]
  exact ⟨fun hc => ⟨hc.2.1, hc.2.2.2⟩, fun hc => ⟨hw, hc.1, rfl, hc.2⟩⟩

/-- The PLC's word is published if it differs from the local value, or on
recovery from errors. -/
theorem Exposes.round_publishes_iff : (g.turn n).publishes = true ↔
    NumericU.ofUi16 (g.plcs.data p).rvalue ≠ (g.regmap.val n).number ∨
      (g.regmap.val n).varErrors ≠ 0 := by
  have hval : (g.turn n).rm = g.regmap.val n := rfl
  simp only [Turn.publishes, Turn.isNewPlc, Turn.oldVal, Turn.oldErr, h.round_plcErr h0,
    h.round_plcVal h0, hval]
  simp

theorem Exposes.round_number (data : ReadData) : ((g.turn n).refresh data).1.rm.number =
    if (g.turn n).takes = true then (g.var n).rawValue else .ofUi16 (g.plcs.data p).rvalue := by
  rw [Turn.refresh_rm h.kind, Turn.refreshModbus_number h.kind, h.round_plcVal h0, h.opcVal]

theorem Exposes.round_varErrors (data : ReadData) :
    ((g.turn n).refresh data).1.rm.varErrors = 0 := by
  rw [Turn.refresh_rm h.kind, Turn.refreshModbus_varErrors]
  exact Turn.plcErr_eq_false.mp (h.round_plcErr h0)

end

def wordAt (data : ReadData) (n : Name) (p : RegPtr) (g : Gateway) : Mbregdata :=
  (g.atTurn data n).plcs.data p

theorem wordAt_rerrors (data : ReadData) :
    (wordAt data n p g).rerrors = (g.plcs.data p).rerrors :=
  (Gateway.atTurn_frame data n g).plcs.errors p

variable (h : Exposes g n p) (data : ReadData)
include h

theorem Exposes.atTurn : Exposes (g.atTurn data n) n p :=
  h.of_config (Gateway.atTurn_frame data n g).sameConfig

theorem Exposes.atTurn_rm : (g.atTurn data n).regmap.val n = g.regmap.val n :=
  h.turnOf_rm data

variable (h0 : (g.plcs.data p).rerrors = 0)
include h0

theorem Exposes.plcErr : (g.turnOf data n).plcErr = false :=
  (h.atTurn data).round_plcErr ((wordAt_rerrors data).trans h0)

theorem Exposes.plcVal : (g.turnOf data n).plcVal = .ofUi16 (wordAt data n p g).rvalue :=
  (h.atTurn data).round_plcVal ((wordAt_rerrors data).trans h0)

theorem Exposes.takes_iff : (g.turnOf data n).takes = true ↔
    (g.var n).rawValue ≠ (g.regmap.val n).number ∧ (g.var n).uaStatus = statusGood := by
  rw [← h.atTurn_var data, ← h.atTurn_rm data]
  exact (h.atTurn data).round_takes_iff ((wordAt_rerrors data).trans h0)

theorem Exposes.publishes_iff : (g.turnOf data n).publishes = true ↔
    NumericU.ofUi16 (wordAt data n p g).rvalue ≠ (g.regmap.val n).number ∨
      (g.regmap.val n).varErrors ≠ 0 := by
  rw [← h.atTurn_rm data]
  exact (h.atTurn data).round_publishes_iff ((wordAt_rerrors data).trans h0)

theorem Exposes.pass_number : ((g.taskRegsRefresh data).1.regmap.val n).number =
    if (g.turnOf data n).takes = true then (g.var n).rawValue
    else .ofUi16 (wordAt data n p g).rvalue := by
  rw [h.pass_rm, ← h.atTurn_var data]
  exact (h.atTurn data).round_number ((wordAt_rerrors data).trans h0) data

theorem Exposes.pass_varErrors : ((g.taskRegsRefresh data).1.regmap.val n).varErrors = 0 := by
  rw [h.pass_rm]
  exact (h.atTurn data).round_varErrors ((wordAt_rerrors data).trans h0) data

end

/-- Entry `n` is the only one over register `p`. -/
structure Sole (g : Gateway) (n : Name) (p : RegPtr) : Prop extends Exposes g n p where
  alone : p ∉ g.otherSources n

section
variable {g g' : Gateway} {n : Name} {p : RegPtr}

theorem Sole.of_config (h : Sole g n p) (hc : g.SameConfig g') : Sole g' n p :=
  ⟨h.toExposes.of_config hc, by rw [hc.otherSources]; exact h.alone⟩

theorem Sole.wordAt_eq (h : Sole g n p) (data : ReadData) :
    wordAt data n p g = g.plcs.data p :=
  (Gateway.atTurn_frame data n g).plcs.others p h.alone

theorem Sole.pass_data (h : Sole g n p) (data : ReadData) :
    (g.taskRegsRefresh data).1.plcs.data p =
      if (g.turnOf data n).takes = true then (setReg (g.var n).rawValue.ui16 (g.plcs.data p)).1
      else g.plcs.data p := by
  rw [(Gateway.afterTurn_frame h.mem data).plcs.others p h.alone, ← h.wordAt_eq data,
    ← h.atTurn_var data]
  exact (h.atTurn data).round_data data

end

theorem small_sole {rd : Mbregdata} {e : ℕ} {number : NumericU} {v : UaVar}
    (hmode : rd.rmode = 1) (hvar : v.isVar = true) (htype : v.uaType = .uint16) :
    Sole (small rd (smallEntry 1 e number) v) ['v'] ⟨0, 0⟩ := by
  refine ⟨⟨small_ownVariable rfl hvar ?_, rfl, rfl, Int.one_ne_zero, hmode⟩, ?_⟩
  · rw [htype]
    rfl
  · rintro ⟨m, hm, hne, -⟩
    exact hne (List.mem_singleton.mp hm)

end RwModbus.OneWord
