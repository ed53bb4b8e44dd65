import Mathlib

/-!
# Lines of a text

A text is cut after each separator. What follows the last one is a line too, unless
it is empty. Lines that are free of the separator can be read back.
-/
namespace Lines
variable {α : Type*}

/-- Each line with a separator behind it. -/
def joined (sep : α) (ls : List (List α)) : List α := ls.flatMap fun l => l ++ [sep]

@[simp] theorem joined_nil (sep : α) : joined sep [] = [] := rfl

@[simp] theorem joined_cons (sep : α) (l : List α) (ls : List (List α)) :
    joined sep (l :: ls) = l ++ sep :: joined sep ls := by
  simp [joined]

variable [DecidableEq α]

/-- The lines, without their separators. -/
def lines (sep : α) : List α → List (List α)
  | [] => []
  | a :: text =>
      if a = sep then [] :: lines sep text
      else
        match lines sep text with
        | [] => [[a]]
        | l :: ls => (a :: l) :: ls

theorem lines_append {sep : α} {l : List α} (h : sep ∉ l) (text : List α) :
    lines sep (l ++ sep :: text) = l :: lines sep text := by
  induction l with
  | nil => simp [lines]
  | cons a l ih =>
      rw [List.mem_cons, not_or] at h
      rw [List.cons_append, lines, if_neg (Ne.symm h.1), ih h.2]

theorem notMem_lines {sep : α} {text l : List α} (h : l ∈ lines sep text) : sep ∉ l := by
  induction text generalizing l with
  | nil => exact absurd h List.not_mem_nil
  | cons a text ih =>
      unfold lines at h
      split_ifs at h with hsep
      · rcases List.mem_cons.mp h with rfl | htail
        · exact List.not_mem_nil
        · exact ih htail
      · cases hlines : lines sep text with
        | nil =>
            rw [hlines, List.mem_singleton] at h
            rw [h, List.mem_singleton]
            exact Ne.symm hsep
        | cons k ks =>
            simp only [hlines, List.mem_cons] at h ih
            rcases h with rfl | htail
            · rw [List.mem_cons, not_or]
              exact ⟨Ne.symm hsep, ih (.inl rfl)⟩
            · exact ih (.inr htail)

theorem lines_joined {sep : α} {ls : List (List α)} (h : ∀ l ∈ ls, sep ∉ l) :
    lines sep (joined sep ls) = ls := by
  induction ls with
  | nil => rfl
  | cons l ls ih =>
      rw [joined_cons, lines_append (h l List.mem_cons_self),
        ih fun k hk => h k (List.mem_cons_of_mem l hk)]

end Lines
