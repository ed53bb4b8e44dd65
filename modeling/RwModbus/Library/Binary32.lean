import Mathlib

/-!
# IEEE binary32 on bit patterns

A finite number is an integer multiple of the smallest subnormal, so sums and
products are exact integers before they are rounded to nearest, ties to even.
An infinity is one step beyond the finite numbers of its sign.

A float whose multiple by a small factor is a small integer `k` keeps nothing of `k`
in its low bits: they hold the significand, which `k` reaches only after a shift.
-/

namespace Binary32

abbrev Bits := BitVec 32

def exponent (b : Bits) : ℕ := b.toNat / 2 ^ 23 % 2 ^ 8
def fraction (b : Bits) : ℕ := b.toNat % 2 ^ 23

def isNaN (b : Bits) : Bool := exponent b == 255 && fraction b != 0
def isInf (b : Bits) : Bool := exponent b == 255 && fraction b == 0

/-- The value in multiples of `2 ^ -149`. -/
def units (b : Bits) : ℤ :=
  let mag := if exponent b = 0 then fraction b else (2 ^ 23 + fraction b) <<< (exponent b - 1)
  if b.msb then -mag else mag

/-- `a < b`; false if one of them is not a number. -/
def lt (a b : Bits) : Bool := !isNaN a && !isNaN b && decide (units a < units b)

/-- `a <= b`. -/
def le (a b : Bits) : Bool := !isNaN a && !isNaN b && decide (units a ≤ units b)

/-- `n / 2 ^ k` to the nearest integer, ties to even. -/
def roundShift (n k : ℕ) : ℕ :=
  let kept := n >>> k
  let twice := 2 * (n % 2 ^ k)
  if 2 ^ k < twice ∨ (2 ^ k = twice ∧ kept % 2 = 1) then kept + 1 else kept

/-- The number closest to `mag / 2 ^ drop` units. A carry out of the significand
goes into the exponent field. -/
def encode (negative : Bool) (mag drop : ℕ) : Bits :=
  let shift := max (mag.log2 - 23) drop
  let bits := (shift - drop) <<< 23 + roundShift mag shift
  BitVec.ofNat 32 (min bits 0x7f800000) ||| if negative then 0x80000000 else 0

def nan : Bits := 0x7fc00000

/-- An integer converted to float. -/
def ofInt (n : ℤ) : Bits := encode (decide (n < 0)) (n.natAbs <<< 149) 0

def add (a b : Bits) : Bits :=
  if isNaN a || isNaN b then nan
  else if isInf a then if isInf b && a.msb != b.msb then nan else a
  else if isInf b then b
  else
    let sum := units a + units b
    if sum = 0 then if a.msb && b.msb then 0x80000000 else 0
    else encode (decide (sum < 0)) sum.natAbs 0

def mul (a b : Bits) : Bits :=
  if isNaN a || isNaN b then nan
  else if isInf a || isInf b then
    if units a = 0 ∨ units b = 0 then nan else 0x7f800000 ||| if a.msb != b.msb then 0x80000000 else 0
  else encode (a.msb != b.msb) (units a * units b).natAbs 149

/-- The integer part. -/
def truncate (b : Bits) : ℤ := (units b).tdiv (2 ^ 149)

example : ofInt 40 = 0x42200000 ∧ add (ofInt 100) 0x3e19999a = 0x42c84ccd ∧
    mul 0x3dcccccd (ofInt 10) = 0x3f800000 ∧ truncate 0x42c84ccd = 100 := by decide +kernel

/-- The significand is added to the exponent field, and a carry out of it is right. -/
theorem units_pattern {e S : ℕ} (he : e ≤ 252) (hlow : 2 ^ 23 ≤ S) (hhigh : S ≤ 2 ^ 24) :
    (BitVec.ofNat 32 (e <<< 23 + S)).msb = false ∧
      units (BitVec.ofNat 32 (e <<< 23 + S)) = S * 2 ^ e := by
  rw [Nat.shiftLeft_eq]
  have hnat : (BitVec.ofNat 32 (e * 2 ^ 23 + S)).toNat = e * 2 ^ 23 + S :=
    (BitVec.toNat_ofNat _ _).trans (Nat.mod_eq_of_lt (by omega))
  generalize BitVec.ofNat 32 (e * 2 ^ 23 + S) = b at hnat
  have hmsb : b.msb = false := by
    rw [BitVec.msb_eq_false_iff_two_mul_lt, hnat]
    omega
  refine ⟨hmsb, ?_⟩
  rcases Nat.lt_or_eq_of_le hhigh with hlt | rfl
  · have hexp : exponent b = e + 1 := by
      simp only [exponent, hnat]
      omega
    have hfrac : 2 ^ 23 + fraction b = S := by
      simp only [fraction, hnat]
      omega
    rw [units, hexp, hmsb, if_neg (Nat.succ_ne_zero e), hfrac, Nat.shiftLeft_eq]
    simp
  · have hexp : exponent b = e + 2 := by
      simp only [exponent, hnat]
      omega
    have hfrac : fraction b = 0 := by
      simp only [fraction, hnat]
      omega
    rw [units, hexp, hmsb, if_neg (Nat.succ_ne_zero _), hfrac, Nat.shiftLeft_eq]
    push_cast
    ring

theorem units_negate {b : Bits} (h : b.msb = false) : units (b ||| 0x80000000#32) = -units b := by
  have hlt := BitVec.msb_eq_false_iff_two_mul_lt.mp h
  have hhalf : b.toNat < 2 ^ 31 := by omega
  have hnat : (b ||| 0x80000000#32).toNat = 2 ^ 31 + b.toNat := by
    rw [BitVec.toNat_or, Nat.or_comm]
    exact (Nat.two_pow_add_eq_or_of_lt hhalf 1).symm
  have hexp : exponent (b ||| 0x80000000#32) = exponent b := by
    simp only [exponent, hnat]
    omega
  have hfrac : fraction (b ||| 0x80000000#32) = fraction b := by
    simp only [fraction, hnat]
    omega
  have hmsb : (b ||| 0x80000000#32).msb = true := by
    rw [BitVec.msb_or, h]
    decide
  rw [units, units, hexp, hfrac, hmsb, h]
  simp

/-- Rounding a number that is less than half of a step from `S` steps gives `S`. -/
theorem round_near {mant H S : ℕ} (hH : 0 < H) (hlow : S * (2 * H) < mant + H)
    (hhigh : mant < S * (2 * H) + H) :
    (if H < mant % (2 * H) ∨ (mant % (2 * H) = H ∧ mant / (2 * H) % 2 = 1)
      then mant / (2 * H) + 1 else mant / (2 * H)) = S := by
  have hmod := Nat.mod_lt mant (by omega : 0 < 2 * H)
  have hdiv := Nat.div_add_mod' mant (2 * H)
  rcases le_or_gt (S * (2 * H)) mant with hle | hlt
  · have hquot : mant / (2 * H) = S := by
      rw [Nat.div_eq_iff (by omega)]
      omega
    rw [hquot] at hdiv ⊢
    rw [if_neg (by omega)]
  · obtain ⟨T, rfl⟩ : ∃ T, S = T + 1 := ⟨S - 1, by
      have : S ≠ 0 := by
        rintro rfl
        omega
      omega⟩
    have hquot : mant / (2 * H) = T := by
      rw [Nat.div_eq_iff (by omega)]
      rw [add_mul] at hlt hlow
      omega
    rw [hquot] at hdiv ⊢
    rw [add_mul] at hlow
    rw [if_pos (by omega)]

theorem fraction_lt (b : Bits) : fraction b < 2 ^ 23 := Nat.mod_lt _ (by norm_num)

/-- A number with a nonzero exponent has the 24 bits `1.fraction`. -/
def significand (b : Bits) : ℕ := 2 ^ 23 + fraction b

theorem two_pow_le_significand (b : Bits) : 2 ^ 23 ≤ significand b := Nat.le_add_right _ _

theorem two_pow_dvd_significand_sub (b : Bits) : (2 ^ 23 : ℤ) ∣ significand b - b.toNat := by
  simp only [significand, fraction]
  omega

theorem units_of_exponent {b : Bits} (h : exponent b ≠ 0) : ∃ σ : ℤ, |σ| = 1 ∧
    units b = σ * significand b * 2 ^ (exponent b - 1) := by
  simp only [units, if_neg h, Nat.shiftLeft_eq]
  by_cases hs : b.msb
  · refine ⟨-1, rfl, ?_⟩
    rw [if_pos hs, significand]
    push_cast
    ring
  · exact ⟨1, rfl, by simp [hs, significand]⟩

theorem abs_units_lt {b : Bits} (h : exponent b = 0) : |units b| < 2 ^ 23 := by
  have : (fraction b : ℤ) < 2 ^ 23 := by exact_mod_cast fraction_lt b
  simp only [units, if_pos h]
  split_ifs <;> simpa

theorem units_eq_zero_iff {b : Bits} : units b = 0 ↔ b = 0 ∨ b = 0x80000000 := by
  have hb := b.isLt
  constructor
  · intro h
    have he : exponent b = 0 := by
      by_contra he
      obtain ⟨σ, hσ, hu⟩ := units_of_exponent he
      have hpos : (0 : ℤ) < significand b * 2 ^ (exponent b - 1) := by
        have : 0 < significand b := by simp [significand]
        positivity
      rw [h] at hu
      rcases eq_or_eq_neg_of_abs_eq hσ with rfl | rfl <;> linarith only [hu, hpos]
    have hf : fraction b = 0 := by
      simp only [units, if_pos he] at h
      split_ifs at h <;> omega
    simp only [exponent, fraction] at he hf
    have : b.toNat = 0 ∨ b.toNat = 2 ^ 31 := by omega
    rcases this with h0 | h0
    · exact Or.inl (BitVec.eq_of_toNat_eq h0)
    · exact Or.inr (BitVec.eq_of_toNat_eq h0)
  · rintro (rfl | rfl) <;> decide

theorem two_pow_le_abs_units {b : Bits} (h : exponent b ≠ 0) :
    2 ^ 23 * 2 ^ (exponent b - 1) ≤ |units b| := by
  obtain ⟨σ, hσ, hu⟩ := units_of_exponent h
  have hpow : (0 : ℤ) < 2 ^ (exponent b - 1) := by positivity
  rw [hu, abs_mul, abs_mul, hσ, one_mul, abs_of_pos hpow, Nat.abs_cast]
  exact mul_le_mul_of_nonneg_right (by exact_mod_cast two_pow_le_significand b) hpow.le

section
variable {b : Bits} {c n : ℕ} {k : ℤ}

theorem abs_multiple (h : c * units b = k * 2 ^ n) : c * |units b| = |k| * 2 ^ n := by
  have habs := congrArg abs h
  rwa [abs_mul, abs_mul, Nat.abs_cast, abs_of_pos (by positivity : (0 : ℤ) < 2 ^ n)] at habs

/-- A nonzero multiple beyond the subnormals comes from a number with a significand. -/
theorem exponent_ne_zero_of_multiple (hc : 0 < c) (hn : c * 2 ^ 23 ≤ 2 ^ n)
    (h : c * units b = k * 2 ^ n) (hk : k ≠ 0) : exponent b ≠ 0 := by
  intro he
  have hsmall : (c : ℤ) * |units b| < c * 2 ^ 23 :=
    mul_lt_mul_of_pos_left (abs_units_lt he) (by exact_mod_cast hc)
  have hbound : (c : ℤ) * 2 ^ 23 ≤ 2 ^ n := by exact_mod_cast hn
  have hlarge : (2 : ℤ) ^ n ≤ |k| * 2 ^ n :=
    le_mul_of_one_le_left (by positivity) (Int.one_le_abs hk)
  linarith [abs_multiple h]

theorem exponent_lt_of_multiple (hc : 0 < c) (hk : |k| < 2 ^ 23) (h : c * units b = k * 2 ^ n)
    (he : exponent b ≠ 0) : exponent b - 1 < n := by
  by_contra hle
  have hmono : (2 : ℤ) ^ n ≤ 2 ^ (exponent b - 1) :=
    pow_le_pow_right₀ (by norm_num) (not_lt.mp hle)
  have hfactor : |units b| ≤ c * |units b| :=
    le_mul_of_one_le_left (abs_nonneg _) (by exact_mod_cast hc)
  have hsmall : |k| * 2 ^ n < 2 ^ 23 * 2 ^ n := mul_lt_mul_of_pos_right hk (by positivity)
  linarith [abs_multiple h, two_pow_le_abs_units he]

/-- If `c` times a number is `k` times `2 ^ n` units, with `n` beyond the subnormals and
`k` smaller than a significand, then `k` lies some places below the significand. -/
theorem exists_shift (hc : 0 < c) (hn : c * 2 ^ 23 ≤ 2 ^ n) (hk : |k| < 2 ^ 23)
    (h : c * units b = k * 2 ^ n) (hk0 : k ≠ 0) :
    ∃ σ : ℤ, |σ| = 1 ∧ ∃ d : ℕ, c * (σ * significand b) = k * 2 ^ (d + 1) := by
  have he := exponent_ne_zero_of_multiple hc hn h hk0
  obtain ⟨σ, hσ, hu⟩ := units_of_exponent he
  obtain ⟨d, rfl⟩ := Nat.exists_eq_add_of_lt (exponent_lt_of_multiple hc hk h he)
  have hcancel : c * (σ * significand b) * 2 ^ (exponent b - 1) =
      k * 2 ^ (d + 1) * 2 ^ (exponent b - 1) := by
    rw [hu] at h
    linear_combination h
  exact ⟨σ, hσ, d, mul_right_cancel₀ (by positivity) hcancel⟩

/-- For an odd `c` the low bits are then never those of `k`: `c` times the difference is `k`
times an odd number. -/
theorem low_bits_ne {w : ℕ} (hc : Odd c) (hn : c * 2 ^ 23 ≤ 2 ^ n) (hw : w ≤ 23)
    (hk : |k| < 2 ^ w) (h : c * units b = k * 2 ^ n) (hk0 : k ≠ 0) :
    ¬ (2 ^ w : ℤ) ∣ b.toNat - k := by
  intro hdvd
  have hk23 : |k| < 2 ^ 23 := hk.trans_le (pow_le_pow_right₀ (by norm_num) hw)
  obtain ⟨σ, hσ, d, hd⟩ := exists_shift hc.pos hn hk23 h hk0
  have hsig : (2 ^ w : ℤ) ∣ significand b - k := by
    have hhigh := (pow_dvd_pow (2 : ℤ) hw).trans (two_pow_dvd_significand_sub b)
    simpa using hhigh.add hdvd
  have hprod : c * σ * (significand b - k) = k * (2 ^ (d + 1) - c * σ) := by
    linear_combination hd
  have hodd : Odd (2 ^ (d + 1) - c * σ) := by
    have hcσ : Odd (c * σ) := by
      rcases eq_or_eq_neg_of_abs_eq hσ with rfl | rfl <;> simpa using hc
    exact (even_two.pow_of_ne_zero (Nat.succ_ne_zero d)).sub_odd hcσ
  have hkw : (2 ^ w : ℤ) ∣ k := by
    have hmul := hsig.mul_left (c * σ)
    rw [hprod] at hmul
    exact (Int.isCoprime_two_left.mpr hodd).pow_left.dvd_of_dvd_mul_right hmul
  exact hk0 (Int.eq_zero_of_abs_lt_dvd hkw hk)

end

end Binary32
