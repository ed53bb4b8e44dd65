import RwModbus.Library.Binary32
import RwModbus.ByteOrders

/-!
# Scaled registers

An `F100` or `F10` register holds 100 or 10 times the number. `get_plc_value` multiplies
the word by `0.01f` or `0.1f`, neither of which is exact, but the rounded product is the
number wherever that is a float. `set_plc_value` does not scale: it stores the low half
of the float's bits, the right word only if the number is zero.
-/
namespace RwModbus.ScaledValues
open Numeric Registers Reg WireBytes Binary32

/-- `float * 10` and `float * 100`. -/
def scale : VarType → ℕ
  | .f10 => 10
  | .f100 => 100
  | _ => 1

/-- The finite number `b` times `s` is exactly `k`. -/
def Scaled (s : ℕ) (b : Bits) (k : ℤ) : Prop := exponent b ≠ 255 ∧ s * units b = k * 2 ^ 149

instance (s : ℕ) (b : Bits) (k : ℤ) : Decidable (Scaled s b k) :=
  inferInstanceAs (Decidable (_ ∧ _))

theorem Scaled.eq_zero_iff {s : ℕ} {b : Bits} {k : ℤ} (h : Scaled s b k) (hs : s ≠ 0) :
    k = 0 ↔ units b = 0 := by
  have hprod : s * units b = 0 ↔ k * 2 ^ 149 = 0 := by rw [h.2]
  simpa [hs, eq_comm] using hprod.symm

theorem Scaled.f100 {b : Bits} {k : ℤ} (h : Scaled 100 b k) : 25 * units b = k * 2 ^ 147 := by
  have := h.2
  push_cast at this
  linarith

theorem Scaled.f10 {b : Bits} {k : ℤ} (h : Scaled 10 b k) : 5 * units b = k * 2 ^ 148 := by
  have := h.2
  push_cast at this
  linarith

theorem rsize_of_scaled {p : RegProp} (h : p.Row) (ht : p.rtype = .f100 ∨ p.rtype = .f10) :
    p.rsize = 1 := by
  have hrows : ∀ p ∈ regpropMap.map Prod.snd, p.rtype = .f100 ∨ p.rtype = .f10 → p.rsize = 1 := by
    decide
  exact hrows p h ht

/-- A magnitude is rounded to a multiple of its last place that is less than half of that
away. -/
theorem roundBinary32_eq {mant S cut : ℕ} (exp : ℤ) (hlog : mant.log2 = cut + 24)
    (hlow : S * 2 ^ (cut + 1) < mant + 2 ^ cut) (hhigh : mant < S * 2 ^ (cut + 1) + 2 ^ cut) :
    roundBinary32 mant exp = (exp + cut + 150).toNat <<< 23 + S := by
  have hne : mant ≠ 0 := by
    rintro rfl
    simp at hlog
  have hexp : exp + (mant.log2 : ℤ) + 126 = exp + cut + 150 := by
    rw [hlog]
    push_cast
    ring
  have hbig : ¬ mant.log2 ≤ 23 := by omega
  have hsub : mant.log2 - 23 = cut + 1 := by omega
  rw [pow_succ'] at hlow hhigh
  have hround := round_near (Nat.two_pow_pos cut) hlow hhigh
  rw [← pow_succ'] at hround
  rw [roundBinary32, if_neg hne]
  dsimp only
  rw [if_neg hbig, hexp, hsub, Nat.shiftRight_eq_div_pow, Nat.add_sub_cancel, hround]

/-- What is less than half of the last place away from `S` places is read as `S` places. -/
theorem units_scaleFloat_of_near {mant cut S : ℕ} {exp : ℤ} {w : Word}
    (hlog : (w.toInt.natAbs * mant).log2 = cut + 24)
    (hlow : S * 2 ^ (cut + 1) < w.toInt.natAbs * mant + 2 ^ cut)
    (hhigh : w.toInt.natAbs * mant < S * 2 ^ (cut + 1) + 2 ^ cut)
    (he : (exp + cut + 150).toNat ≤ 252) :
    units (scaleFloat mant exp w) =
      (if w.toInt < 0 then -1 else 1) * (S * 2 ^ (exp + cut + 150).toNat) := by
  have hround := roundBinary32_eq exp hlog hlow hhigh
  have hne : w.toInt.natAbs * mant ≠ 0 := by
    intro h0
    simp [h0] at hlog
  have hmin := Nat.log2_self_le hne
  have hmax : w.toInt.natAbs * mant < 2 ^ (cut + 25) := (Nat.log2_lt hne).mp (by omega)
  rw [hlog] at hmin
  have hS : 2 ^ 23 ≤ S ∧ S ≤ 2 ^ 24 := by
    simp only [pow_add] at hmin hmax hlow hhigh
    have hpos := Nat.two_pow_pos cut
    constructor
    · by_contra hlt
      have : (S + 1) * 2 ^ cut ≤ 2 ^ 23 * 2 ^ cut := Nat.mul_le_mul_right _ (by omega)
      linarith
    · by_contra hgt
      have : (2 ^ 24 + 1) * 2 ^ cut ≤ S * 2 ^ cut := Nat.mul_le_mul_right _ (by omega)
      linarith
  obtain ⟨hmsb, hunits⟩ := units_pattern he hS.1 hS.2
  rw [scaleFloat, hround]
  split_ifs
  · rw [units_negate hmsb, hunits]
    ring
  · rw [← hunits]
    simp

theorem natAbs_toInt_le (w : Word) : w.toInt.natAbs ≤ 2 ^ 15 := by
  have hmin := BitVec.le_toInt w
  have hmax := BitVec.toInt_lt (x := w)
  omega

/-- A relative distance of `2 ^ -25` is less than half of the last place. -/
theorem near_of_close {J M a b X : ℕ} (hclose : (a - b) * 2 ^ 25 ≤ M) (hX : J * M < X * 2 ^ 25) :
    J * a < J * b + X := by
  have hdist : J * ((a - b) * 2 ^ 25) ≤ J * M := Nat.mul_le_mul_left J hclose
  have hsum : J * a ≤ J * (b + (a - b)) := Nat.mul_le_mul_left J (by omega)
  rw [mul_add] at hsum
  linarith

/-- Where the product `J * M` has its last place, for `M` close to `2 ^ q`. -/
theorem exists_place {J M q : ℕ} (hJ : 1 ≤ J) (hJ15 : J ≤ 2 ^ 15) (hq : 25 ≤ q)
    (hlow : (2 ^ q - M) * 2 ^ 25 ≤ M) (hhigh : (M - 2 ^ q) * 2 ^ 25 ≤ M) :
    ∃ cut, (J * M).log2 = cut + 24 ∧ J * M < 2 ^ cut * 2 ^ 25 ∧ cut + 1 ≤ q := by
  have hq25 : 2 ^ 25 ≤ 2 ^ q := Nat.pow_le_pow_right (by norm_num) hq
  have hprod : 2 ^ 24 ≤ J * M := (by omega : 2 ^ 24 ≤ M).trans (Nat.le_mul_of_pos_left _ hJ)
  have hne : J * M ≠ 0 := by omega
  obtain ⟨cut, hcut⟩ := Nat.exists_eq_add_of_le' ((Nat.le_log2 hne).mpr hprod)
  refine ⟨cut, hcut, ?_, ?_⟩
  · rw [← pow_add]
    exact (Nat.log2_lt hne).mp (by omega)
  · have hmin := Nat.log2_self_le hne
    have hbound : J * M ≤ 2 ^ 15 * 2 ^ (q + 1) := Nat.mul_le_mul hJ15 (by rw [pow_succ]; omega)
    rw [← pow_add] at hbound
    rw [hcut] at hmin
    have hexp := (Nat.pow_le_pow_iff_right (by norm_num)).mp (hmin.trans hbound)
    omega

theorem sign_mul_abs {c : ℕ} {j x : ℤ} (hc : 0 < c) (hj : j ≠ 0) (hx : x = c * j) :
    (if x < 0 then -1 else 1) * |j| = j := by
  have hcpos : (0 : ℤ) < c := by exact_mod_cast hc
  rcases lt_or_gt_of_ne hj with hneg | hpos
  · rw [if_pos (hx ▸ mul_neg_of_pos_of_neg hcpos hneg), abs_of_neg hneg]
    ring
  · rw [if_neg (hx ▸ (mul_pos hcpos hpos).le.not_gt), abs_of_pos hpos, one_mul]

/-- The multiple `j` of `c` is read as `j` in units of `2 ^ (exp + q)` if `c * mant` is close
to `2 ^ q`. -/
theorem units_scaleFloat {mant c q : ℕ} {exp : ℤ} {w : Word} {j : ℤ} (hw : w.toInt = c * j)
    (hc : 0 < c) (hq : 25 ≤ q) (he : -149 ≤ exp ∧ exp + q ≤ 0)
    (hlow : (2 ^ q - c * mant) * 2 ^ 25 ≤ c * mant) (hhigh : (c * mant - 2 ^ q) * 2 ^ 25 ≤ c * mant) :
    units (scaleFloat mant exp w) = j * 2 ^ (exp + q + 149).toNat := by
  rcases eq_or_ne j 0 with rfl | hj
  · have hzero : w.toInt = 0 := by rw [hw, mul_zero]
    have hmag : roundBinary32 (w.toInt.natAbs * mant) exp = 0 := by simp [hzero, roundBinary32]
    rw [scaleFloat, hmag, hzero, zero_mul]
    decide
  have hmant : w.toInt.natAbs * mant = j.natAbs * (c * mant) := by
    rw [hw, Int.natAbs_mul, Int.natAbs_natCast]
    ring
  have hj15 : j.natAbs ≤ 2 ^ 15 := by
    have hle := natAbs_toInt_le w
    rw [hw, Int.natAbs_mul, Int.natAbs_natCast] at hle
    exact (Nat.le_mul_of_pos_left _ hc).trans hle
  obtain ⟨cut, hcut, hmax, hcutq⟩ := exists_place (Int.natAbs_pos.mpr hj) hj15 hq hlow hhigh
  have hS : j.natAbs * 2 ^ (q - (cut + 1)) * 2 ^ (cut + 1) = j.natAbs * 2 ^ q := by
    rw [mul_assoc, ← pow_add, Nat.sub_add_cancel hcutq]
  have hbelow := near_of_close hlow hmax
  have habove := near_of_close hhigh hmax
  rw [← hS, ← hmant] at hbelow habove
  rw [← hmant] at hcut
  have hexp : (exp + q + 149).toNat = q - (cut + 1) + (exp + cut + 150).toNat := by omega
  rw [units_scaleFloat_of_near hcut hbelow habove (by omega), hexp, pow_add]
  push_cast
  linear_combination 2 ^ (q - (cut + 1)) * 2 ^ (exp + cut + 150).toNat * sign_mul_abs hc hj hw

theorem exists_quotient {c n : ℕ} {u k : ℤ} (hc : Odd c) (h : c * u = k * 2 ^ n) :
    ∃ j, k = c * j ∧ u = j * 2 ^ n := by
  have hcop : IsCoprime (c : ℤ) (2 ^ n) :=
    ((Int.isCoprime_two_right.mpr (by exact_mod_cast hc)).pow_right)
  obtain ⟨j, rfl⟩ := hcop.dvd_of_dvd_mul_right (h ▸ dvd_mul_right _ _)
  have hc0 : (c : ℤ) ≠ 0 := by exact_mod_cast hc.pos.ne'
  exact ⟨j, rfl, mul_left_cancel₀ hc0 (by linear_combination h)⟩

theorem units_timesF100 {b : Bits} {w : Word} (h : Scaled 100 b w.toInt) :
    units (timesF100 w) = units b := by
  obtain ⟨j, hw, hu⟩ := exists_quotient (c := 25) (by decide) h.f100
  rw [timesF100, units_scaleFloat (q := 28) hw (by norm_num) (by norm_num) (by norm_num)
    (by norm_num) (by norm_num), hu]
  rfl

theorem units_timesF10 {b : Bits} {w : Word} (h : Scaled 10 b w.toInt) :
    units (timesF10 w) = units b := by
  obtain ⟨j, hw, hu⟩ := exists_quotient (c := 5) (by decide) h.f10
  rw [timesF10, units_scaleFloat (q := 26) hw (by norm_num) (by norm_num) (by norm_num)
    (by norm_num) (by norm_num), hu]
  rfl

variable {plcs : PlcVec} {rm : RegC} {p : RegPtr}

/-- A word that is exactly the scaled number is read as that number. -/
theorem getPlcValue_scaled (ht : rm.prop.rtype = .f100 ∨ rm.prop.rtype = .f10)
    (hp : rm.source 0 = some p) (herr : (plcs.data p).rerrors = 0) {b : Bits}
    (hb : Scaled (scale rm.prop.rtype) b (plcs.data p).rvalue.toInt) :
    units (rm.getPlcValue plcs).2.ui32 = units b := by
  have hsize := rsize_of_scaled rm.row ht
  have hkind : rm.kind ≠ .scada := by
    intro hk
    simp [RegDef.source, hk] at hp
  have herrs : rm.getPlcErrors plcs = 0 := by
    rw [RegDef.getPlcErrors_eq_zero]
    intro i hi q hq
    obtain rfl : i = 0 := by omega
    obtain rfl : p = q := Option.some.inj (hp.symm.trans hq)
    exact herr
  have hword : rm.word plcs 0 = (plcs.data p).rvalue := by
    simp [RegDef.word, hp, herr]
  have hfresh : RegC.freshWords rm.prop = 4 := by
    simp [RegC.freshWords, hsize]
  rw [RegC.getPlcValue_snd hkind, if_pos herrs, hfresh, NumericU.overlay_four, RegC.meaning]
  rcases ht with ht | ht <;> simp only [hsize, ht, hword, NumericU.ui32_setUi32]
  · rw [ht] at hb
    exact units_timesF100 hb
  · rw [ht] at hb
    exact units_timesF10 hb

/-- Both scales are a power of two times an odd number. -/
theorem Scaled.odd_multiple {t : VarType} {b : Bits} {k : ℤ} (ht : t = .f100 ∨ t = .f10)
    (h : Scaled (scale t) b k) :
    ∃ c n : ℕ, Odd c ∧ c * 2 ^ 23 ≤ 2 ^ n ∧ c * units b = k * 2 ^ n := by
  rcases ht with rfl | rfl
  · exact ⟨25, 147, by decide, by norm_num, h.f100⟩
  · exact ⟨5, 148, by decide, by norm_num, h.f10⟩

/-- The low half of the float is the word of `k` if they agree modulo `2 ^ 16`. -/
theorem ui16_eq_ofInt_iff {v : NumericU} {k : ℤ} :
    v.ui16 = BitVec.ofInt 16 k ↔ (2 ^ 16 : ℤ) ∣ v.ui32.toNat - k := by
  have hlow : v.ui32.toNat = v.w1.toNat * 2 ^ 16 + v.ui16.toNat := toNat_append _ _
  have hword := v.ui16.isLt
  rw [← BitVec.toNat_inj, BitVec.toNat_ofInt, hlow]
  push_cast
  omega

theorem low_word_iff {t : VarType} {v : NumericU} {k : ℤ} (ht : t = .f100 ∨ t = .f10)
    (h : Scaled (scale t) v.ui32 k) (hk : -2 ^ 15 ≤ k ∧ k < 2 ^ 15) :
    v.ui16 = BitVec.ofInt 16 k ↔ v.ui32 = 0 ∨ v.ui32 = 0x80000000 := by
  have hs : scale t ≠ 0 := by
    rcases ht with rfl | rfl <;> decide
  rw [ui16_eq_ofInt_iff, ← units_eq_zero_iff, ← h.eq_zero_iff hs]
  constructor
  · intro hdvd
    by_contra hk0
    obtain ⟨c, n, hc, hn, hmul⟩ := h.odd_multiple ht
    exact low_bits_ne hc hn (by norm_num) (by rw [abs_lt]; omega) hmul hk0 hdvd
  · rintro rfl
    have hb := units_eq_zero_iff.mp ((h.eq_zero_iff hs).mp rfl)
    rcases hb with hb | hb <;> rw [hb] <;> decide

def f100Entry : RegC where
  toRegDef := .ofSource WordOrder.pairPlc_linked (some ⟨0, 0⟩) ⟨.f100, 1, .f100⟩ (by decide) 1
    ['/', 't'] (by decide)

/-- The word of a number that a writable register can hold exactly is read as that number,
but written for it if and only if the number is zero. -/
theorem setPlcValue_scaled_iff (ht : rm.prop.rtype = .f100 ∨ rm.prop.rtype = .f10)
    (hp : rm.source 0 = some p) (hmode : (plcs.data p).rmode = 1) {v : NumericU} {k : ℤ}
    (hv : Scaled (scale rm.prop.rtype) v.ui32 k) (hk : -2 ^ 15 ≤ k ∧ k < 2 ^ 15) :
    (((rm.setPlcValue v plcs).data p).rvalue = BitVec.ofInt 16 k ↔
      v.ui32 = 0 ∨ v.ui32 = 0x80000000) ∧
    ∀ plcs' : PlcVec, (plcs'.data p).rerrors = 0 → (plcs'.data p).rvalue = BitVec.ofInt 16 k →
      units (rm.getPlcValue plcs').2.ui32 = units v.ui32 := by
  have hsize : 0 < rm.prop.rsize := by
    rw [rsize_of_scaled rm.row ht]
    decide
  constructor
  · rw [RegDef.setPlcValue_data hsize hp, setReg_rvalue hmode, NumericU.mb64u_zero]
    exact low_word_iff ht hv hk
  · intro plcs' herr hword
    have hint : (plcs'.data p).rvalue.toInt = k := by
      rw [hword]
      apply BitVec.toInt_ofInt_eq_self (by norm_num) <;> omega
    exact getPlcValue_scaled ht hp herr (hint.symm ▸ hv)

/-- `-0.0f` is written as 0. -/
theorem setPlcValue_scaled_zero :
    (((f100Entry.setPlcValue (.setUi32 {} 0x80000000) fun _ => WordOrder.pairPlc).data
      ⟨0, 0⟩).rvalue = BitVec.ofInt 16 0 ↔
      (NumericU.setUi32 {} 0x80000000).ui32 = 0 ∨
        (NumericU.setUi32 {} 0x80000000).ui32 = 0x80000000) ∧
    ∀ plcs' : PlcVec, (plcs'.data ⟨0, 0⟩).rerrors = 0 →
      (plcs'.data ⟨0, 0⟩).rvalue = BitVec.ofInt 16 0 →
      units (f100Entry.getPlcValue plcs').2.ui32 = units (NumericU.setUi32 {} 0x80000000).ui32 :=
  setPlcValue_scaled_iff (Or.inl rfl) rfl rfl (by decide) (by decide)

/-- The word 25 is read as `0.25f`. -/
example : (f100Entry.getPlcValue
    (f100Entry.setPlcValue (.ofUi16 25) fun _ => WordOrder.pairPlc)).2.ui32 = 0x3e800000 := by
  decide +kernel

/-- Writing `0.25f` stores 0 instead of 25. -/
theorem setPlcValue_scaled_fails :
    ¬ ∀ (plcs : PlcVec) (rm : RegC) (p : RegPtr), rm.prop.rtype = .f100 ∨ rm.prop.rtype = .f10 →
      rm.source 0 = some p → (plcs.data p).rmode = 1 → ∀ (v : NumericU) (k : ℤ),
        Scaled (scale rm.prop.rtype) v.ui32 k → -2 ^ 15 ≤ k ∧ k < 2 ^ 15 →
        ((rm.setPlcValue v plcs).data p).rvalue = BitVec.ofInt 16 k := by
  intro h
  have hword := h (fun _ => WordOrder.pairPlc) f100Entry ⟨0, 0⟩ (Or.inl rfl) rfl rfl
    (.setUi32 {} 0x3e800000) 25 (by decide) (by decide)
  revert hword
  decide

end RwModbus.ScaledValues
