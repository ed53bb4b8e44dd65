import Mathlib

/-!
# Parts set off by a separator

A list written as parts, each behind a separator. Two separators stand side by side
where a part is empty or has a separator of its own at an end; parts that are free of
the separator can be read back.
-/
namespace Separators
variable {α : Type*}

/-- Each part behind a separator. -/
def joined (sep : α) (parts : List (List α)) : List α := parts.flatMap fun x => sep :: x

@[simp] theorem joined_nil (sep : α) : joined sep [] = [] := rfl

@[simp] theorem joined_cons (sep : α) (x : List α) (ps : List (List α)) :
    joined sep (x :: ps) = sep :: (x ++ joined sep ps) := rfl

@[simp] theorem joined_append (sep : α) (ps qs : List (List α)) :
    joined sep (ps ++ qs) = joined sep ps ++ joined sep qs := List.flatMap_append

theorem joined_split (sep : α) {ps : List (List α)} {k : ℕ} (hk : k < ps.length) :
    joined sep ps = joined sep (ps.take k) ++ sep :: (ps[k] ++ joined sep (ps.drop (k + 1))) := by
  calc joined sep ps = joined sep (ps.take k ++ ps.drop k) := by rw [List.take_append_drop]
    _ = _ := by rw [joined_append, List.drop_eq_getElem_cons hk, joined_cons]

variable [DecidableEq α]

/-- The number of places at which two separators stand side by side. -/
def pairs (sep : α) : List α → ℕ
  | [] => 0
  | a :: s => (if a = sep ∧ s.head? = some sep then 1 else 0) + pairs sep s

theorem pairs_eq_zero_iff {sep : α} {s : List α} : pairs sep s = 0 ↔ ¬ [sep, sep] <:+: s := by
  induction s with
  | nil => simp [pairs]
  | cons a s ih =>
      have hhead : [sep, sep] <+: a :: s ↔ a = sep ∧ s.head? = some sep := by
        rw [List.cons_prefix_cons]
        cases s <;> simp [eq_comm]
      rw [pairs, Nat.add_eq_zero_iff, ih, List.infix_cons_iff, hhead, not_or]
      simp

theorem pairs_append (sep : α) (a b : List α) : pairs sep (a ++ b) =
    pairs sep a + pairs sep b + if a.getLast? = some sep ∧ b.head? = some sep then 1 else 0 := by
  induction a with
  | nil => simp [pairs]
  | cons c a ih =>
      rw [List.cons_append, pairs, pairs, ih]
      cases a with
      | nil => simp [pairs, add_comm]
      | cons d a =>
          rw [List.cons_append, List.head?_cons, List.head?_cons, List.getLast?_cons_cons]
          omega

/-- One pair more if the part starts with the separator. -/
def starts (sep : α) (x : List α) : ℕ := if x.head? = some sep then 1 else 0

/-- One pair more, before the next separator, if the part is empty or ends with one. -/
def ends (sep : α) (x : List α) : ℕ := if x = [] ∨ x.getLast? = some sep then 1 else 0

/-- The pairs that parts without one of their own make when they are joined. -/
def surplus (sep : α) : List (List α) → ℕ
  | [] => 0
  | [x] => starts sep x
  | x :: y :: ps => starts sep x + ends sep x + surplus sep (y :: ps)

theorem pairs_cons_append (sep : α) (x s : List α) : pairs sep (sep :: (x ++ sep :: s)) =
    pairs sep x + starts sep x + ends sep x + pairs sep (sep :: s) := by
  rw [pairs, pairs_append]
  cases x with
  | nil => simp [pairs, starts, ends]
  | cons c x =>
      have hne : c :: x ≠ [] := List.cons_ne_nil c x
      by_cases hc : c = sep <;> by_cases hl : (c :: x).getLast? = some sep <;>
        simp [starts, ends, hc, hl, hne] <;> omega

theorem pairs_joined {sep : α} {ps : List (List α)} (h : ∀ x ∈ ps, pairs sep x = 0) :
    pairs sep (joined sep ps) = surplus sep ps := by
  induction ps with
  | nil => rfl
  | cons x ps ih =>
      have hx := h x List.mem_cons_self
      have hps := ih fun y hy => h y (List.mem_cons_of_mem x hy)
      cases ps with
      | nil => simp [pairs, surplus, starts, hx]
      | cons y ps =>
          rw [joined_cons, joined_cons, pairs_cons_append, ← joined_cons, hps, hx, surplus, zero_add]

/-- Every list is one of parts free of the separator, behind its first one. -/
theorem exists_joined (sep : α) (s : List α) :
    ∃ ps b, sep :: s = joined sep (ps ++ [b]) ∧ ∀ x ∈ ps ++ [b], sep ∉ x := by
  induction s with
  | nil => exact ⟨[], [], rfl, by simp⟩
  | cons c s ih =>
      obtain ⟨ps, b, hs, hfree⟩ := ih
      by_cases hc : c = sep
      · exact ⟨[] :: ps, b, by rw [hc, hs]; rfl, by simpa using hfree⟩
      cases ps with
      | nil =>
          refine ⟨[], c :: b, ?_, ?_⟩
          · simpa using hs
          · simpa [Ne.symm hc] using hfree
      | cons x ps =>
          refine ⟨(c :: x) :: ps, b, ?_, ?_⟩
          · simpa using hs
          · simpa [Ne.symm hc] using hfree

theorem takeWhile_append_joined {sep : α} {x : List α} (hx : sep ∉ x) (ps : List (List α)) :
    (x ++ joined sep ps).takeWhile (· ≠ sep) = x := by
  have hpos : ∀ c ∈ x, decide (c ≠ sep) = true := by
    intro c hc
    simpa using fun h : c = sep => hx (h ▸ hc)
  rw [List.takeWhile_append_of_pos hpos]
  cases ps <;> simp

theorem joined_injective {sep : α} {ps qs : List (List α)} (hp : ∀ x ∈ ps, sep ∉ x)
    (hq : ∀ x ∈ qs, sep ∉ x) (h : joined sep ps = joined sep qs) : ps = qs := by
  induction ps generalizing qs with
  | nil => cases qs <;> simp_all
  | cons x ps ih =>
      cases qs with
      | nil => simp at h
      | cons y qs =>
          simp only [joined_cons, List.cons.injEq, true_and] at h
          have hxy : x = y := by
            rw [← takeWhile_append_joined (hp x List.mem_cons_self) ps, h,
              takeWhile_append_joined (hq y List.mem_cons_self) qs]
          subst hxy
          rw [ih (fun z hz => hp z (List.mem_cons_of_mem x hz))
            (fun z hz => hq z (List.mem_cons_of_mem x hz)) (List.append_cancel_left h)]

/-- Free parts that make no pair are not empty, but for the last. -/
theorem ne_nil_of_pairs {sep : α} {ps : List (List α)} {b : List α}
    (h : pairs sep (joined sep (ps ++ [b])) = 0) : ∀ x ∈ ps, x ≠ [] := by
  induction ps with
  | nil => simp
  | cons x ps ih =>
      obtain ⟨s, hs⟩ : ∃ s, joined sep (ps ++ [b]) = sep :: s := by cases ps <;> exact ⟨_, rfl⟩
      rw [List.cons_append, joined_cons, hs, pairs_cons_append, ← hs] at h
      rintro y hy rfl
      rcases List.mem_cons.mp hy with rfl | hy
      · simp [ends] at h
      · exact ih (by omega) [] hy rfl

end Separators
