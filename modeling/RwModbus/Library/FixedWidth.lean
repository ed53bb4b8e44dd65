import Mathlib

/-!
# Numbers of a fixed width

Numbers that are written with equally many digits come in their own order when
the texts are compared character by character.
-/
namespace FixedWidth

section
variable {α : Type*}

/-- The last `w` digits of a number, the highest one first. -/
def digits (base : ℕ) (digit : ℕ → α) : ℕ → ℕ → List α
  | 0, _ => []
  | w + 1, n => digits base digit w (n / base) ++ [digit (n % base)]

@[simp] theorem digits_length (base : ℕ) (digit : ℕ → α) (w n : ℕ) :
    (digits base digit w n).length = w := by
  induction w generalizing n with
  | zero => rfl
  | succ w ih => rw [digits, List.length_append, ih, List.length_singleton]

end

section
variable {α : Type*} [LinearOrder α]

/-- Texts with starts of the same length. -/
theorem append_lt_append_iff {a a' : List α} (h : a.length = a'.length) (b b' : List α) :
    a ++ b < a' ++ b' ↔ a < a' ∨ a = a' ∧ b < b' := by
  induction a generalizing a' with
  | nil =>
      obtain rfl := List.length_eq_zero_iff.mp h.symm
      simp
  | cons x xs ih =>
      cases a' with
      | nil => simp at h
      | cons y ys =>
          have htail := ih (Nat.succ_inj.mp h)
          simp only [List.cons_append, List.cons_lt_cons_iff, htail, List.cons.injEq]
          tauto

theorem eq_iff_of_lt_iff {x y : List α} {n m : ℕ} (hlt : x < y ↔ n < m) (hgt : y < x ↔ m < n) :
    x = y ↔ n = m := by
  rw [eq_iff_le_not_lt, eq_iff_le_not_lt (a := n), ← not_lt, hlt, hgt, not_lt]

variable {base : ℕ} {digit : ℕ → α}

theorem lt_iff_div_mod (base n m : ℕ) :
    n < m ↔ n / base < m / base ∨ n / base = m / base ∧ n % base < m % base := by
  have hn := Nat.div_add_mod n base
  have hm := Nat.div_add_mod m base
  rcases Nat.lt_trichotomy (n / base) (m / base) with hlt | heq | hgt
  · have hnot : ¬ m ≤ n := fun hle => absurd (Nat.div_le_div_right hle) (not_le.mpr hlt)
    exact iff_of_true (not_le.mp hnot) (.inl hlt)
  · rw [heq] at hn ⊢
    simp only [lt_irrefl, false_or, true_and]
    omega
  · refine iff_of_false (fun h => absurd (Nat.div_le_div_right h.le) (not_le.mpr hgt)) ?_
    omega

theorem digits_lt_iff (hdigit : StrictMonoOn digit (Set.Iio base)) (w : ℕ) {n m : ℕ}
    (hn : n < base ^ w) (hm : m < base ^ w) :
    digits base digit w n < digits base digit w m ↔ n < m := by
  induction w generalizing n m with
  | zero =>
      rw [pow_zero, Nat.lt_one_iff] at hn hm
      subst hn hm
      simp [digits]
  | succ w ih =>
      have hpos : 0 < base := Nat.pos_of_ne_zero fun h => by simp [h] at hn
      have hdiv : ∀ {x : ℕ}, x < base ^ (w + 1) → x / base < base ^ w := fun hx =>
        Nat.div_lt_of_lt_mul (by rwa [← pow_succ'])
      have hmod : ∀ x : ℕ, x % base ∈ Set.Iio base := fun x => Nat.mod_lt x hpos
      have hlt := ih (hdiv hn) (hdiv hm)
      have heq := eq_iff_of_lt_iff hlt (ih (hdiv hm) (hdiv hn))
      rw [digits, digits, append_lt_append_iff (by simp), hlt, heq, List.cons_lt_cons_iff,
        hdigit.lt_iff_lt (hmod n) (hmod m), lt_iff_div_mod base n m]
      simp

/-- A field in front of the rest of a text. -/
theorem field_lt_iff (hdigit : StrictMonoOn digit (Set.Iio base)) {w n m : ℕ} (hn : n < base ^ w)
    (hm : m < base ^ w) (a b : List α) :
    digits base digit w n ++ a < digits base digit w m ++ b ↔ n < m ∨ n = m ∧ a < b := by
  have hlt := digits_lt_iff hdigit w hn hm
  have heq := eq_iff_of_lt_iff hlt (digits_lt_iff hdigit w hm hn)
  rw [append_lt_append_iff (by simp), hlt, heq]

end

end FixedWidth
