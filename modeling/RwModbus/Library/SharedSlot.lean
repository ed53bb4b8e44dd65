import Mathlib

/-!
# A slot shared by copies

Copies of one slot are visited in a fixed order. A copy remembers the value on
which it last agreed with the slot and has a remote value that others may set.
A visit hands a changed remote value to the slot and a changed slot to the
remote side; where both have changed it exchanges them. Two exchanging copies
feed each other. A pass with at most one exchange is followed by agreement.
-/

namespace SharedSlot

structure Copy (α : Type*) where
  held : α
  remote : α
deriving DecidableEq

variable {α : Type*}

/-- Nothing is waiting on the remote side. -/
def Clean (c : Copy α) : Prop := c.remote = c.held

/-- All copies agree with the slot. -/
def Settled (s : α × List (Copy α)) : Prop := ∀ c ∈ s.2, c = ⟨s.1, s.1⟩

theorem Settled.clean {s : α × List (Copy α)} (h : Settled s) : ∀ c ∈ s.2, Clean c := by
  intro c hc
  rw [h c hc]
  rfl

variable [DecidableEq α]

instance (s : α × List (Copy α)) : Decidable (Settled s) :=
  inferInstanceAs (Decidable (∀ c ∈ s.2, _))

/-- One visit: the slot and the copy after it. -/
def visit (w : α) (c : Copy α) : α × Copy α :=
  let w' := if c.remote = c.held then w else c.remote
  (w', ⟨w', if w = c.held then c.remote else w⟩)

def visits : α → List (Copy α) → α × List (Copy α)
  | w, [] => (w, [])
  | w, c :: cs =>
      let r := visit w c
      let s := visits r.1 cs
      (s.1, r.2 :: s.2)

def pass (s : α × List (Copy α)) : α × List (Copy α) := visits s.1 s.2

/-- The slot and the remote side have both changed, to different values. -/
def Exchanges (w : α) (c : Copy α) : Prop :=
  c.remote ≠ c.held ∧ w ≠ c.held ∧ w ≠ c.remote

instance (w : α) (c : Copy α) : Decidable (Exchanges w c) :=
  inferInstanceAs (Decidable (_ ∧ _ ∧ _))

def exchanges : α → List (Copy α) → ℕ
  | _, [] => 0
  | w, c :: cs => (if Exchanges w c then 1 else 0) + exchanges (visit w c).1 cs

theorem visit_clean {w : α} {c : Copy α} (h : Clean c) : visit w c = (w, ⟨w, w⟩) := by
  simp only [visit, if_pos (show c.remote = c.held from h), Prod.mk.injEq, Copy.mk.injEq,
    true_and]
  split_ifs with hw
  · exact h.trans hw.symm
  · rfl

theorem clean_visit_iff (w : α) (c : Copy α) : Clean (visit w c).2 ↔ ¬ Exchanges w c := by
  simp only [Clean, visit, Exchanges]
  split_ifs with hc hw hw <;> simp_all

theorem visits_clean {w : α} {cs : List (Copy α)} (h : ∀ c ∈ cs, Clean c) :
    visits w cs = (w, cs.map fun _ => ⟨w, w⟩) := by
  induction cs with
  | nil => rfl
  | cons c cs ih =>
      obtain ⟨hc, hcs⟩ := List.forall_mem_cons.mp h
      simp only [visits, visit_clean hc, ih hcs, List.map_cons]

theorem settled_pass_of_clean {s : α × List (Copy α)} (h : ∀ c ∈ s.2, Clean c) :
    Settled (pass s) := by
  rw [pass, visits_clean h]
  intro c hc
  obtain ⟨-, -, rfl⟩ := List.mem_map.mp hc
  rfl

theorem exchanges_of_clean {w : α} {cs : List (Copy α)} (h : ∀ c ∈ cs, Clean c) :
    exchanges w cs = 0 := by
  induction cs with
  | nil => rfl
  | cons c cs ih =>
      obtain ⟨hc, hcs⟩ := List.forall_mem_cons.mp h
      rw [exchanges, if_neg fun he : Exchanges w c => he.1 hc, visit_clean hc, ih hcs]

/-- At most one copy has something waiting. -/
def Lone (cs : List (Copy α)) : Prop := cs.Pairwise fun c d => Clean c ∨ Clean d

/-- Whatever still waits agrees with the slot otherwise. -/
def Pending (w : α) (cs : List (Copy α)) : Prop := ∀ c ∈ cs, Clean c ∨ c.held = w

omit [DecidableEq α] in
theorem lone_of_clean {cs : List (Copy α)} (h : ∀ c ∈ cs, Clean c) : Lone cs :=
  List.pairwise_of_forall_mem_list fun c hc _ _ => Or.inl (h c hc)

theorem clean_visits_of_exchanges {w : α} {cs : List (Copy α)} (h : exchanges w cs = 0) :
    ∀ c ∈ (visits w cs).2, Clean c := by
  induction cs generalizing w with
  | nil => exact fun c hc => absurd hc List.not_mem_nil
  | cons c cs ih =>
      rw [exchanges] at h
      have hno : ¬ Exchanges w c := fun he => by
        rw [if_pos he] at h
        omega
      exact List.forall_mem_cons.mpr ⟨(clean_visit_iff w c).mpr hno, ih (by omega)⟩

theorem lone_visits {w : α} {cs : List (Copy α)} (h : exchanges w cs ≤ 1) :
    Lone (visits w cs).2 := by
  induction cs generalizing w with
  | nil => exact List.Pairwise.nil
  | cons c cs ih =>
      rw [exchanges] at h
      refine List.pairwise_cons.mpr ⟨fun d hd => ?_, @ih (visit w c).1 (by omega)⟩
      by_cases he : Exchanges w c
      · rw [if_pos he] at h
        exact Or.inr (clean_visits_of_exchanges (by omega) d hd)
      · exact Or.inl ((clean_visit_iff w c).mpr he)

/-- A lone waiting copy is the last to write the slot. -/
theorem pending_visits {cs : List (Copy α)} (h : Lone cs) (w : α) :
    Lone (visits w cs).2 ∧ Pending (visits w cs).1 (visits w cs).2 := by
  induction cs with
  | nil => exact ⟨List.Pairwise.nil, fun c hc => absurd hc List.not_mem_nil⟩
  | cons c cs ih =>
      obtain ⟨hhead, htail⟩ := List.pairwise_cons.mp h
      by_cases hc : Clean c
      · obtain ⟨hlone, hpend⟩ := ih htail
        have hclean : Clean (⟨w, w⟩ : Copy α) := rfl
        simp only [visits, visit_clean hc]
        exact ⟨List.pairwise_cons.mpr ⟨fun d _ => Or.inl hclean, hlone⟩,
          List.forall_mem_cons.mpr ⟨Or.inl hclean, hpend⟩⟩
      · have hrest : ∀ d ∈ cs, Clean d := fun d hd => (hhead d hd).resolve_left hc
        have hmap : ∀ d ∈ (visits (visit w c).1 cs).2, Clean d :=
          (settled_pass_of_clean (s := ((visit w c).1, cs)) hrest).clean
        have hword : (visits (visit w c).1 cs).1 = (visit w c).1 := by rw [visits_clean hrest]
        refine ⟨List.pairwise_cons.mpr ⟨fun d hd => Or.inr (hmap d hd), lone_of_clean hmap⟩,
          List.forall_mem_cons.mpr ⟨Or.inr hword.symm, fun d hd => Or.inl (hmap d hd)⟩⟩

theorem clean_visits_of_pending {w : α} {cs : List (Copy α)} (hl : Lone cs) (hp : Pending w cs) :
    ∀ c ∈ (visits w cs).2, Clean c := by
  induction cs with
  | nil => exact fun c hc => absurd hc List.not_mem_nil
  | cons c cs ih =>
      obtain ⟨hhead, htail⟩ := List.pairwise_cons.mp hl
      obtain ⟨hc, hcs⟩ := List.forall_mem_cons.mp hp
      by_cases hclean : Clean c
      · simp only [visits, visit_clean hclean]
        exact List.forall_mem_cons.mpr ⟨rfl, ih htail hcs⟩
      · have hrest : ∀ d ∈ cs, Clean d := fun d hd => (hhead d hd).resolve_left hclean
        have hno : ¬ Exchanges w c := fun he => he.2.1 (hc.resolve_left hclean).symm
        exact List.forall_mem_cons.mpr ⟨(clean_visit_iff w c).mpr hno,
          (settled_pass_of_clean (s := ((visit w c).1, cs)) hrest).clean⟩

/-- Three passes after one with at most one exchange, all copies agree. -/
theorem settled_of_exchanges {s : α × List (Copy α)} (h : exchanges s.1 s.2 ≤ 1) :
    Settled (pass^[4] s) := by
  have h₁ := lone_visits h
  have h₂ := pending_visits h₁ (visits s.1 s.2).1
  exact settled_pass_of_clean (clean_visits_of_pending h₂.1 h₂.2)

end SharedSlot
