import Mathlib

/-!
# Arithmetic that rounds

Finite values, infinities and NaN with the comparisons of IEEE 754. A format rounds
the exact result of an operation; `Rounding lo hi` is one that holds the integers
from `lo` to `hi` exactly. Between such integers a test against a tolerance below
one is a test for equality.
-/

inductive Extended where
  | fin (q : ℚ)
  | inf (negative : Bool)
  | nan
deriving DecidableEq

namespace Extended

def lt : Extended → Extended → Bool
  | fin a, fin b => decide (a < b)
  | fin _, inf negative => !negative
  | inf negative, fin _ => negative
  | inf negative, inf negative' => negative && !negative'
  | nan, _ => false
  | _, nan => false

def le : Extended → Extended → Bool
  | fin a, fin b => decide (a ≤ b)
  | fin _, inf negative => !negative
  | inf negative, fin _ => negative
  | inf negative, inf negative' => negative || !negative'
  | nan, _ => false
  | _, nan => false

def abs : Extended → Extended
  | fin q => fin |q|
  | inf _ => inf false
  | nan => nan

@[simp] theorem lt_fin (a b : ℚ) : lt (fin a) (fin b) = decide (a < b) := rfl

@[simp] theorem le_fin (a b : ℚ) : le (fin a) (fin b) = decide (a ≤ b) := rfl

@[simp] theorem abs_fin (q : ℚ) : abs (fin q) = fin |q| := rfl

/-- Conversion to an integer drops the fraction. -/
def truncate (q : ℚ) : ℤ := if 0 ≤ q then ⌊q⌋ else ⌈q⌉

@[simp] theorem truncate_intCast (n : ℤ) : truncate n = n := by
  simp [truncate]

end Extended

/-- Rounding keeps the order and holds the integers from `lo` to `hi`. -/
structure Rounding (lo hi : ℤ) where
  round : ℚ → ℚ
  mono : Monotone round
  exact : ∀ n : ℤ, lo ≤ n → n ≤ hi → round n = n

namespace Rounding
open Extended
variable {lo hi : ℤ} (R : Rounding lo hi)

def ofInt (n : ℤ) : Extended := fin (R.round n)

theorem ofInt_eq {n : ℤ} (hlo : lo ≤ n) (hhi : n ≤ hi) : R.ofInt n = fin n :=
  congrArg fin (R.exact n hlo hhi)

def sub : Extended → Extended → Extended
  | fin a, fin b => fin (R.round (a - b))
  | fin _, inf negative => inf !negative
  | inf negative, fin _ => inf negative
  | inf negative, inf negative' => if negative = negative' then nan else inf negative
  | nan, _ => nan
  | _, nan => nan

@[simp] theorem sub_fin (a b : ℚ) : R.sub (fin a) (fin b) = fin (R.round (a - b)) := rfl

section
variable {R} {a b : ℤ} (hlo : lo ≤ -1) (hhi : 1 ≤ hi)
include hlo hhi

/-- The difference of unequal integers does not round below one. -/
theorem one_le_abs_round (h : a ≠ b) : 1 ≤ |R.round ((a : ℚ) - b)| := by
  have hone : R.round 1 = 1 := by simpa using R.exact 1 (by omega) hhi
  have hneg : R.round (-1) = -1 := by simpa using R.exact (-1) hlo (by omega)
  rcases lt_or_gt_of_ne h with hlt | hgt
  · have hle : (a : ℚ) - b ≤ -1 := by
      have : (a : ℚ) + 1 ≤ b := by exact_mod_cast hlt
      linarith
    have hround := R.mono hle
    rw [hneg] at hround
    exact le_abs.mpr (Or.inr (by linarith))
  · have hle : (1 : ℚ) ≤ (a : ℚ) - b := by
      have : (b : ℚ) + 1 ≤ a := by exact_mod_cast hgt
      linarith
    have hround := R.mono hle
    rw [hone] at hround
    exact hround.trans (le_abs_self _)

theorem round_sub_self : R.round ((a : ℚ) - a) = 0 := by
  rw [sub_self]
  simpa using R.exact 0 (by omega) (by omega)

variable {ε : ℚ} (hε : 0 ≤ ε) (hε₁ : ε < 1)
include hε hε₁

theorem le_abs_sub_iff : le (abs (R.sub (fin a) (fin b))) (fin ε) = true ↔ a = b := by
  rw [sub_fin, abs_fin, le_fin, decide_eq_true_iff]
  constructor
  · intro hle
    by_contra h
    exact absurd (hle.trans_lt hε₁) (not_lt.mpr (one_le_abs_round hlo hhi h))
  · rintro rfl
    rw [round_sub_self hlo hhi, abs_zero]
    exact hε

theorem lt_abs_sub_iff : lt (fin ε) (abs (R.sub (fin a) (fin b))) = true ↔ a ≠ b := by
  have hle := le_abs_sub_iff (R := R) (a := a) (b := b) hlo hhi hε hε₁
  rw [sub_fin, abs_fin, le_fin, decide_eq_true_iff] at hle
  rw [sub_fin, abs_fin, lt_fin, decide_eq_true_iff, ← not_le, hle]

end

end Rounding
