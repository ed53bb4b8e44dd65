import RwModbus.Heating

/-!
# The heating power

In process 4 `P_heat` adds a share of the greatest power to the least one. The
sum is narrowed to 16 bits before it is clamped from both sides.
-/
namespace RwModbus.Scada
open Numeric Registers Opc

/-- `(uint16_t)(PID0 * Pmax0 / 100)`. -/
def heatShare (pid pmax : Word) : Word :=
  BitVec.ofInt 16 ((BitVec.ofNat 32 (pid.toNat * pmax.toNat)).toInt.tdiv 100)

/-- `p_heat` after the sum and the two clamps. -/
def heatPower (pid pmax pmin : Word) : Word :=
  let sum := if 0 < pid then pmin + heatShare pid pmax else 0
  let raised := if 0 < sum ∧ sum < pmin then pmin else sum
  if pmax < raised then pmax else raised

section
variable (env : Env) (s : ScadaState)

def pidOf : Word := level env s.opcs "PID"

def pmaxOf : Word := level env s.opcs "P_MAX"

def pminOf : Word :=
  BitVec.ofInt 16 (Binary32.truncate (Binary32.mul (temperature env s.opcs "T_heat") (Binary32.ofInt 10)))

/-- The power that `P_heat` writes. -/
def heatWritten : Option Word := (lastWritten "P.heat" (pHeat env s).2).map NumericU.ui16

theorem heatPass_pHeat :
    (heatPass env s).2.vars.pHeat = heatPower (pidOf env s) (pmaxOf env s) (pminOf env s) := by
  have htheat := readFloat_leaves env "T_heat" s
  have hpid := readU16_leaves env "PID" (readFloat env "T_heat" s).2
  have hPID : level env (readFloat env "T_heat" s).2.opcs "PID" = pidOf env s :=
    level_congr htheat.opcs (by decide) (by decide) (.refl _ _)
  have hPMAX : level env (readU16 env "PID" (readFloat env "T_heat" s).2).2.opcs "P_MAX" =
      pmaxOf env s :=
    level_congr (htheat.trans hpid).opcs (by decide) (by decide) (.refl _ _)
  simp only [heatPass, bind_apply, setVars_apply, get_apply, mapVars_vars, readFloat_fst, readU16_fst,
    writeU16_vars, hPID, hPMAX]
  rfl

theorem heatWritten_eq (h : s.vars.process = 4) :
    heatWritten env s = some (heatPower (pidOf env s) (pmaxOf env s) (pminOf env s)) := by
  have h4 : (s.vars.process == 4) = true := by simpa using h
  simp only [heatWritten, pHeat, bind_apply, setVars_apply, get_apply, mapVars_vars, h4, onlyIf_true,
    heatPass_pHeat, lastWritten_writeU16]
  rfl

end

/-- The power in integers. -/
def heatFormula (pid pmax pmin : ℕ) : ℕ := if pid = 0 then 0 else min pmax (pmin + pid * pmax / 100)

theorem heatFormula_mono {pid pid' : ℕ} (h : pid' ≤ pid) (pmax pmin : ℕ) :
    heatFormula pid' pmax pmin ≤ heatFormula pid pmax pmin := by
  unfold heatFormula
  split_ifs with h0' h0
  · exact le_refl 0
  · exact Nat.zero_le _
  · omega
  · gcongr

/-- Every step of the sum keeps its integer. -/
structure SumExact (pid pmax pmin : Word) : Prop where
  product : (BitVec.ofNat 32 (pid.toNat * pmax.toNat)).toInt = pid.toNat * pmax.toNat
  share : (heatShare pid pmax).toNat = pid.toNat * pmax.toNat / 100
  sum : pid ≠ 0 → (pmin + heatShare pid pmax).toNat = pmin.toNat + pid.toNat * pmax.toNat / 100

theorem product_toInt {pid pmax : Word} (h : pid.toNat * pmax.toNat < 2 ^ 31) :
    (BitVec.ofNat 32 (pid.toNat * pmax.toNat)).toInt = pid.toNat * pmax.toNat := by
  rw [BitVec.toInt_eq_toNat_of_lt, BitVec.toNat_ofNat, Nat.mod_eq_of_lt (by omega)]
  · push_cast
    rfl
  · rw [BitVec.toNat_ofNat, Nat.mod_eq_of_lt (by omega)]
    omega

theorem heatShare_toNat {pid pmax : Word} (h : pid.toNat * pmax.toNat / 100 < 2 ^ 16) :
    (heatShare pid pmax).toNat = pid.toNat * pmax.toNat / 100 := by
  have hfits : pid.toNat * pmax.toNat < 2 ^ 31 := by omega
  have hproduct := product_toInt hfits
  have hquotient : ((pid.toNat : ℤ) * pmax.toNat).tdiv 100 = (pid.toNat * pmax.toNat / 100 : ℕ) := by
    rw [Int.ofNat_tdiv, Nat.cast_mul]
    rfl
  rw [heatShare, hproduct, hquotient, BitVec.toNat_ofInt]
  omega

theorem sumExact_iff (pid pmax pmin : Word) : SumExact pid pmax pmin ↔
    pid = 0 ∨ pmin.toNat + pid.toNat * pmax.toNat / 100 < 2 ^ 16 := by
  constructor
  · intro h
    by_cases hpid : pid = 0
    · exact .inl hpid
    · right
      rw [← h.sum hpid]
      exact BitVec.isLt _
  · intro h
    have hshare : pid.toNat * pmax.toNat / 100 < 2 ^ 16 := by
      obtain rfl | hsum := h
      · simp
      · omega
    have hexact := heatShare_toNat hshare
    constructor
    · exact product_toInt (by omega)
    · exact hexact
    · intro hpid
      have hsum := h.resolve_left hpid
      rw [BitVec.toNat_add, hexact, Nat.mod_eq_of_lt hsum]

theorem heatPower_le (pid pmax pmin : Word) : heatPower pid pmax pmin ≤ pmax := by
  unfold heatPower
  dsimp only
  split_ifs with _ _ hle hle hle hle <;> bv_omega

/-- An exact sum is at least `pmin`, so that the first clamp does nothing. -/
theorem heatPower_toNat {pid pmax pmin : Word} (h : SumExact pid pmax pmin) :
    (heatPower pid pmax pmin).toNat = heatFormula pid.toNat pmax.toNat pmin.toNat := by
  unfold heatPower heatFormula
  by_cases hpid : pid = 0
  · subst hpid
    simp
  · have hpos : 0 < pid := by bv_omega
    have hsum := h.sum hpid
    have hkept : ¬ pmin + heatShare pid pmax < pmin := by
      rw [BitVec.lt_def, hsum]
      omega
    have hpid' : pid.toNat ≠ 0 := by bv_omega
    simp only [hpos, if_true, hkept, and_false, if_false, hpid', BitVec.lt_def, hsum]
    split_ifs <;> omega

/-- `P_heat` writes the formula, so that the power is at most `P_MAX` and does not
fall with `PID`, and no step before it loses anything. -/
structure HeatExact (env : Env) (s : ScadaState) : Prop where
  written : (heatWritten env s).map BitVec.toNat =
    some (heatFormula (pidOf env s).toNat (pmaxOf env s).toNat (pminOf env s).toNat)
  bounded : ∀ p ∈ heatWritten env s, p ≤ pmaxOf env s
  rises : ∀ env' s', AlikeBut "PID" env env' s s' → pidOf env' s' ≤ pidOf env s →
    ∀ p ∈ heatWritten env s, ∀ p' ∈ heatWritten env' s', p' ≤ p
  exact : SumExact (pidOf env s) (pmaxOf env s) (pminOf env s)

section
variable {env env' : Env} {s s' : ScadaState}

theorem pmaxOf_congr (h : AlikeBut "PID" env env' s s') : pmaxOf env' s' = pmaxOf env s :=
  level_congr h.opcs (by decide) (by decide) (h.data _ (by decide))

theorem pminOf_congr (h : AlikeBut "PID" env env' s s') : pminOf env' s' = pminOf env s := by
  rw [pminOf, pminOf, temperature_congr h.opcs (by decide) (by decide) (h.data _ (by decide))]

theorem SumExact.anti {pid pid' pmax pmin : Word} (h : SumExact pid pmax pmin) (hle : pid' ≤ pid) :
    SumExact pid' pmax pmin := by
  rw [sumExact_iff] at h ⊢
  obtain rfl | hsum := h
  · left
    bv_omega
  · right
    have hshare : pid'.toNat * pmax.toNat / 100 ≤ pid.toNat * pmax.toNat / 100 := by
      gcongr
      exact hle
    omega

/-- In process 4 the power is exact if and only if the sum fits in 16 bits. -/
theorem heatExact_iff (h : s.vars.process = 4) : HeatExact env s ↔ pidOf env s = 0 ∨
    (pminOf env s).toNat + (pidOf env s).toNat * (pmaxOf env s).toNat / 100 < 2 ^ 16 := by
  rw [← sumExact_iff]
  constructor
  · exact HeatExact.exact
  · intro hexact
    have hwritten := heatWritten_eq env s h
    constructor
    · rw [hwritten, Option.map_some, heatPower_toNat hexact]
    · intro p hp
      rw [hwritten, Option.mem_some_iff] at hp
      subst hp
      exact heatPower_le _ _ _
    · intro env' s' halike hle p hp p' hp'
      rw [hwritten, Option.mem_some_iff] at hp
      rw [heatWritten_eq env' s' (halike.vars ▸ h), Option.mem_some_iff, pmaxOf_congr halike,
        pminOf_congr halike] at hp'
      subst hp hp'
      rw [BitVec.le_def, heatPower_toNat hexact, heatPower_toNat (hexact.anti hle)]
      exact heatFormula_mono hle _ _
    · exact hexact

end

def heatVar (pid pmax : Word) (n : String) : UaVar :=
  if n = "/SCADA/PID" then { uaType := .uint16, node := .ofUi16 pid }
  else if n = "/SCADA/P_MAX" then { uaType := .uint16, node := .ofUi16 pmax }
  else if n = "/SCADA/T_heat" then { uaType := .float, node := NumericU.setUi32 {} 0x42c40000 }
  else { uaType := .uint16 }

def heatState (pid pmax : Word) : ScadaState where
  opcs := serverOf ["/SCADA/Mode", "/SCADA/P.heat", "/SCADA/PID", "/SCADA/P_MAX", "/SCADA/T_heat"]
    (by decide) (heatVar pid pmax)
  vars := { process := 4 }

theorem heatExact_half : HeatExact quiet (heatState 50 3000) :=
  (heatExact_iff (s := heatState 50 3000) rfl).2 (.inr (by decide +kernel))

/-- A `PID` of 100 gives 980 instead of 65000. -/
theorem not_heatExact : ¬ ∀ (env : Env) (s : ScadaState), s.vars.process = 4 → HeatExact env s := by
  intro h
  have hwritten := (h quiet (heatState 100 65000) rfl).written
  rw [heatWritten_eq quiet _ rfl] at hwritten
  revert hwritten
  decide +kernel

end RwModbus.Scada
