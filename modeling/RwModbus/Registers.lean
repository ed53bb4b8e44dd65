import RwModbus.Library.KeyedMap
import RwModbus.Numeric

/-!
# Modbus registers and the PLC object

The data of `mbplc_datatype.h` and `mbplc_class.h` that master mode works with.
A pointer to a register is the index of its PLC in `PLCvec` and its key in that
PLC's map. Counters declared `uint16_t` wrap at `2 ^ 16`.
-/
namespace RwModbus.Registers
open Numeric

/-- `std::string`, as the list of its characters. -/
abbrev Name := List Char

instance (s : Name) (names : List Name) : Decidable (s ∈ names) :=
  inferInstanceAs (Decidable (s ∈ names))

structure Mbregdata where
  rvalue : Word := 0
  rerrors : BitVec 16 := 0
  rupdate : ℤ := 0
  rmode : ℤ := 0
deriving DecidableEq, Repr

/-- `mbreg_t`; `rNext` is the key of the register `r_next` points to. -/
structure Mbreg where
  raddr : ℤ := 0
  data : Mbregdata := {}
  rNext : Option ℤ := none
  strMode : Name := ['*']
  strRname : Name := ['-']
  rfullname : Name := []
  strRfolder : Name := []
deriving DecidableEq, Repr

/-- `plcdata_t`, less the time stamps. -/
structure Plcdata where
  status : ℤ := 0
  errors : BitVec 16 := 0
  errorsRd : BitVec 16 := 0
  errorsWr : BitVec 16 := 0
  errorsCn : BitVec 16 := 0
deriving DecidableEq, Repr

/-- `ModbusPLC_c` in master mode. `ctx` tells whether the libmodbus context
exists. The bounds start at zero and only ever move apart, and the loader puts
every register at the key that is its address. -/
structure ModbusPLC where
  strDevName : Name
  tcpPort : ℤ
  attempts : ℤ := 2
  regMin : ℤ := 0
  regMax : ℤ := 0
  bounds : regMin ≤ regMax
  mb : Plcdata := {}
  regs : KeyedMap ℤ Mbreg
  placed : ∀ a, (regs.val a).raddr = a
  ctx : Bool := false
  rc : ℤ := -1
  rcWrite : ℤ := -1
  att : ℤ := 0

theorem bounds_zero : (0 : ℤ) ≤ 0 := le_refl 0

theorem placed_modify (m : ModbusPLC) (k : ℤ) {f : Mbreg → Mbreg}
    (hf : ∀ R, (f R).raddr = R.raddr) (a : ℤ) : ((m.regs.modify k f).val a).raddr = a := by
  by_cases h : a = k <;> simp [KeyedMap.modify_val, h, hf, m.placed]

theorem placed_mapVals (m : ModbusPLC) {f : ℤ → Mbreg → Mbreg}
    (hf : ∀ a R, (f a R).raddr = R.raddr) (a : ℤ) : ((m.regs.mapVals f).val a).raddr = a := by
  simp [hf, m.placed]

/-- `ModbusPLC_c::set_reg(uint16_t, mbreg_t*)` on the register's data, with its
return value: stored (1), nothing to do (0), or refused (-1). -/
def setReg (rval : Word) (rd : Mbregdata) : Mbregdata × ℤ :=
  if rd.rmode = 1 then
    if rd.rvalue ≠ rval then ({ rd with rvalue := rval, rupdate := 1 }, 1) else (rd, 0)
  else (rd, -1)

@[simp] theorem setReg_rmode (v : Word) (rd : Mbregdata) : (setReg v rd).1.rmode = rd.rmode := by
  unfold setReg
  split_ifs <;> rfl

@[simp] theorem setReg_rerrors (v : Word) (rd : Mbregdata) :
    (setReg v rd).1.rerrors = rd.rerrors := by
  unfold setReg
  split_ifs <;> rfl

theorem setReg_rvalue {v : Word} {rd : Mbregdata} (h : rd.rmode = 1) :
    (setReg v rd).1.rvalue = v := by
  unfold setReg
  rw [if_pos h]
  split_ifs with hv
  · rfl
  · exact not_not.mp hv

theorem setReg_rupdate {v : Word} {rd : Mbregdata} (h : (setReg v rd).1.rvalue ≠ rd.rvalue) :
    (setReg v rd).1.rupdate = 1 := by
  unfold setReg at h ⊢
  split_ifs at h ⊢ <;> first | rfl | exact absurd rfl h

theorem setReg_ret (v : Word) (rd : Mbregdata) : (setReg v rd).2 = -1 ↔ rd.rmode ≠ 1 := by
  unfold setReg
  split_ifs with h <;> simp [h]

/-- A `mbreg_t*` into the register maps of `PLCvec`. -/
structure RegPtr where
  plc : ℕ
  raddr : ℤ
deriving DecidableEq, Repr

/-- `PLCvec`: its elements never move, so they are addressed by index. -/
abbrev PlcVec := ℕ → ModbusPLC

namespace PlcVec

def data (plcs : PlcVec) (p : RegPtr) : Mbregdata := ((plcs p.plc).regs.val p.raddr).data

def store (plcs : PlcVec) (p : RegPtr) (rd : Mbregdata) : PlcVec :=
  Function.update plcs p.plc { plcs p.plc with
    regs := (plcs p.plc).regs.modify p.raddr fun R => { R with data := rd }
    placed := placed_modify (plcs p.plc) p.raddr fun _ => rfl }

theorem data_store (plcs : PlcVec) (p q : RegPtr) (rd : Mbregdata) :
    (plcs.store p rd).data q = if q = p then rd else plcs.data q := by
  obtain ⟨i, a⟩ := p
  obtain ⟨j, b⟩ := q
  by_cases hi : j = i
  · subst hi
    by_cases ha : b = a <;> simp [data, store, KeyedMap.modify_val, ha]
  · simp [data, store, hi]

@[simp] theorem data_store_self (plcs : PlcVec) (p : RegPtr) (rd : Mbregdata) :
    (plcs.store p rd).data p = rd := by simp [data_store]

theorem data_store_of_ne (plcs : PlcVec) {p q : RegPtr} (h : q ≠ p) (rd : Mbregdata) :
    (plcs.store p rd).data q = plcs.data q := by simp [data_store, h]

/-- The second vector is the first but for values and update flags of the
registers in `P`; no request was made. -/
structure Writes (P : Set RegPtr) (plcs plcs' : PlcVec) : Prop where
  mode : ∀ q, (plcs'.data q).rmode = (plcs.data q).rmode
  errors : ∀ q, (plcs'.data q).rerrors = (plcs.data q).rerrors
  others : ∀ q, q ∉ P → plcs'.data q = plcs.data q
  keys : ∀ i, (plcs' i).regs.keys = (plcs i).regs.keys

theorem Writes.refl (P : Set RegPtr) (plcs : PlcVec) : Writes P plcs plcs :=
  ⟨fun _ => rfl, fun _ => rfl, fun _ _ => rfl, fun _ => rfl⟩

theorem Writes.trans {P : Set RegPtr} {p₁ p₂ p₃ : PlcVec} (h : Writes P p₁ p₂)
    (h' : Writes P p₂ p₃) : Writes P p₁ p₃ :=
  ⟨fun q => (h'.mode q).trans (h.mode q), fun q => (h'.errors q).trans (h.errors q),
    fun q hq => (h'.others q hq).trans (h.others q hq), fun i => (h'.keys i).trans (h.keys i)⟩

theorem Writes.mono {P Q : Set RegPtr} {plcs plcs' : PlcVec} (h : Writes P plcs plcs')
    (hPQ : P ⊆ Q) : Writes Q plcs plcs' :=
  ⟨h.mode, h.errors, fun q hq => h.others q fun hp => hq (hPQ hp), h.keys⟩

theorem store_setReg_writes (plcs : PlcVec) (p : RegPtr) (v : Word) :
    Writes {p} plcs (plcs.store p (setReg v (plcs.data p)).1) := by
  refine ⟨fun q => ?_, fun q => ?_, fun q hq => data_store_of_ne plcs hq _, fun i => ?_⟩
  · by_cases h : q = p <;> simp [data_store, h]
  · by_cases h : q = p <;> simp [data_store, h]
  · by_cases h : i = p.plc
    · subst h; simp [store]
    · simp [store, h]

end PlcVec

end RwModbus.Registers
