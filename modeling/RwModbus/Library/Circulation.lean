import RwModbus.Library.SharedSlot

/-!
# Values going round

Only copies that exchange keep something waiting, so the exchanges of a pass
never grow in number. While everything that waits exchanges, the waiting values
turn as a ring, and three such passes in a row compare all neighbours: what has
not dropped out by then circulates for good. Whether agreement is ever reached
therefore shows within the first few passes.
-/

namespace SharedSlot

variable {α : Type*} [DecidableEq α]

/-- The copies with something waiting. -/
def waiting (cs : List (Copy α)) : List (Copy α) := cs.filter fun c => c.remote ≠ c.held

theorem waiting_cons_of_clean {c : Copy α} (h : Clean c) (cs : List (Copy α)) :
    waiting (c :: cs) = waiting cs :=
  List.filter_cons_of_neg (by simpa [Clean] using h)

theorem waiting_cons_of_not_clean {c : Copy α} (h : ¬ Clean c) (cs : List (Copy α)) :
    waiting (c :: cs) = c :: waiting cs :=
  List.filter_cons_of_pos (by simpa [Clean] using h)

theorem visit_fst_of_not_clean {w : α} {c : Copy α} (h : ¬ Clean c) : (visit w c).1 = c.remote :=
  if_neg h

theorem visit_of_exchanges {w : α} {c : Copy α} (h : Exchanges w c) :
    visit w c = (c.remote, ⟨c.remote, w⟩) := by
  simp only [visit, if_neg h.1, if_neg h.2.1]

/-- What waits after a pass are the copies that exchanged in it. -/
theorem length_waiting_visits (w : α) (cs : List (Copy α)) :
    (waiting (visits w cs).2).length = exchanges w cs := by
  induction cs generalizing w with
  | nil => rfl
  | cons c cs ih =>
      simp only [visits, exchanges]
      by_cases he : Exchanges w c
      · have hc : ¬ Clean (visit w c).2 := fun hc => (clean_visit_iff w c).mp hc he
        rw [waiting_cons_of_not_clean hc, List.length_cons, ih, if_pos he, Nat.add_comm]
      · rw [waiting_cons_of_clean ((clean_visit_iff w c).mpr he), ih, if_neg he, Nat.zero_add]

/-- The found word differs from both values of each waiting copy. -/
def Apart : α → List (Copy α) → Prop
  | _, [] => True
  | w, c :: cs => (w ≠ c.held ∧ w ≠ c.remote) ∧ Apart c.remote cs

/-- Only what waits can exchange, and all of it does if it finds other words. -/
theorem exchanges_le (w : α) (cs : List (Copy α)) :
    exchanges w cs ≤ (waiting cs).length ∧
      (exchanges w cs = (waiting cs).length ↔ Apart w (waiting cs)) := by
  induction cs generalizing w with
  | nil => exact ⟨le_rfl, iff_of_true rfl trivial⟩
  | cons c cs ih =>
      rw [exchanges]
      by_cases hc : Clean c
      · rw [if_neg fun he : Exchanges w c => he.1 hc, visit_clean hc, Nat.zero_add,
          waiting_cons_of_clean hc]
        exact ih w
      · obtain ⟨hle, hiff⟩ := ih c.remote
        rw [visit_fst_of_not_clean hc, waiting_cons_of_not_clean hc, List.length_cons, Apart,
          ← hiff]
        by_cases he : w ≠ c.held ∧ w ≠ c.remote
        · rw [if_pos (show Exchanges w c from ⟨hc, he⟩)]
          refine ⟨by omega, fun h => ⟨he, by omega⟩, fun h => by omega⟩
        · rw [if_neg fun hx : Exchanges w c => he hx.2]
          exact ⟨by omega, fun h => by omega, fun h => absurd h.1 he⟩

/-- A pass in which everything waiting exchanges moves the values on by one. -/
theorem visits_of_apart {w : α} {cs : List (Copy α)} (h : Apart w (waiting cs)) :
    (visits w cs).1 :: (waiting (visits w cs).2).map Copy.remote =
        (w :: (waiting cs).map Copy.remote).getLast (List.cons_ne_nil _ _) ::
          (w :: (waiting cs).map Copy.remote).dropLast ∧
      (waiting (visits w cs).2).map Copy.held = (waiting cs).map Copy.remote := by
  induction cs generalizing w with
  | nil => exact ⟨rfl, rfl⟩
  | cons c cs ih =>
      by_cases hc : Clean c
      · rw [waiting_cons_of_clean hc] at h ⊢
        obtain ⟨hmove, hheld⟩ := ih h
        have hclean : Clean (⟨w, w⟩ : Copy α) := rfl
        simp only [visits, visit_clean hc, waiting_cons_of_clean hclean]
        exact ⟨hmove, hheld⟩
      · rw [waiting_cons_of_not_clean hc] at h ⊢
        obtain ⟨hmove, hheld⟩ := ih h.2
        have hx : Exchanges w c := ⟨hc, h.1⟩
        have hwait : ¬ Clean (⟨c.remote, w⟩ : Copy α) := fun he => h.1.2 he
        simp only [visits, visit_of_exchanges hx, waiting_cons_of_not_clean hwait, List.map_cons]
        rw [List.cons.injEq] at hmove
        refine ⟨?_, congrArg (c.remote :: ·) hheld⟩
        rw [hmove.1, hmove.2, List.getLast_cons (List.cons_ne_nil _ _),
          List.dropLast_cons_of_ne_nil (List.cons_ne_nil _ _)]

/-- Each value differs from the two after it. -/
def Spread : List α → Prop
  | a :: b :: c :: l => (a ≠ b ∧ a ≠ c) ∧ Spread (b :: c :: l)
  | _ => True

omit [DecidableEq α] in
theorem Spread.of_cons {a : α} {l : List α} (h : Spread (a :: l)) : Spread l := by
  match l with
  | [] => trivial
  | [_] => trivial
  | _ :: _ :: _ => exact h.2

omit [DecidableEq α] in
theorem Spread.of_suffix {l l' : List α} (h : Spread (l ++ l')) : Spread l' := by
  induction l with
  | nil => exact h
  | cons a l ih => exact ih h.of_cons

omit [DecidableEq α] in
theorem Spread.of_prefix {l l' : List α} (h : Spread (l ++ l')) : Spread l := by
  match l with
  | [] => trivial
  | [_] => trivial
  | [_, _] => trivial
  | a :: b :: c :: l => exact ⟨h.1, Spread.of_prefix (l := b :: c :: l) h.2⟩

/-- The slot, followed by what waits. -/
def ring (s : α × List (Copy α)) : List α := s.1 :: (waiting s.2).map Copy.remote

/-- Everything waiting exchanges in the next pass. -/
def Full (s : α × List (Copy α)) : Prop := Apart s.1 (waiting s.2)

/-- What waits was found by the copy behind the one that holds it. -/
def Regular (s : α × List (Copy α)) : Prop :=
  (waiting s.2).map Copy.held = ((waiting s.2).map Copy.remote ++ [s.1]).tail

omit [DecidableEq α] in
theorem apart_iff_spread {w z : α} {cs : List (Copy α)}
    (h : cs.map Copy.held = (cs.map Copy.remote ++ [z]).tail) :
    Apart w cs ↔ Spread (w :: cs.map Copy.remote ++ [z]) := by
  induction cs generalizing w with
  | nil => exact Iff.rfl
  | cons c cs ih =>
      cases cs with
      | nil =>
          obtain ⟨hz, -⟩ := List.cons.inj h
          simp only [Apart, Spread, List.map_cons, List.map_nil, List.cons_append,
            List.nil_append, hz, and_true]
          exact and_comm
      | cons d cs =>
          obtain ⟨hd, htail⟩ := List.cons.inj h
          rw [Apart, ih htail, hd]
          exact and_congr and_comm Iff.rfl

theorem full_iff_spread {s : α × List (Copy α)} (h : Regular s) :
    Full s ↔ Spread (ring s ++ [s.1]) :=
  apart_iff_spread h

/-- A full pass turns the ring by one place. -/
theorem Full.pass {s : α × List (Copy α)} (h : Full s) : Regular (pass s) ∧
    ∃ l z, ring s = l ++ [z] ∧ ring (SharedSlot.pass s) = z :: l := by
  obtain ⟨hmove, hheld⟩ := visits_of_apart h
  obtain ⟨hword, hremote⟩ := List.cons.inj hmove
  refine ⟨?_, _, _, (List.dropLast_append_getLast (List.cons_ne_nil _ _)).symm, hmove⟩
  rw [Regular, SharedSlot.pass, hheld, hremote, hword, List.dropLast_append_getLast]
  rfl

theorem head_ring {s : α × List (Copy α)} {a : α} {l : List α} (h : ring s = a :: l) : s.1 = a :=
  (List.cons.inj h).1

/-- Three full passes in a row are followed by a fourth. -/
theorem Full.again {s : α × List (Copy α)} (h₀ : Full s) (h₁ : Full (SharedSlot.pass s))
    (h₂ : Full (SharedSlot.pass (SharedSlot.pass s))) :
    Full (SharedSlot.pass (SharedSlot.pass (SharedSlot.pass s))) := by
  obtain ⟨hreg₁, -⟩ := h₀.pass
  obtain ⟨hreg₂, l, z, hring₁, hring₂⟩ := h₁.pass
  obtain ⟨hreg₃, l', y, hring₂', hring₃⟩ := h₂.pass
  rw [full_iff_spread hreg₁] at h₁
  rw [full_iff_spread hreg₂, head_ring hring₂, hring₂] at h₂
  rw [full_iff_spread hreg₃, head_ring hring₃, hring₃]
  rw [hring₂] at hring₂'
  rcases List.eq_nil_or_concat' l with rfl | ⟨j, x, rfl⟩
  · obtain ⟨rfl, -⟩ := List.append_inj' (show [] ++ [z] = l' ++ [y] from hring₂') rfl
    trivial
  · obtain ⟨rfl, hx⟩ := List.append_inj' (show z :: j ++ [x] = l' ++ [y] from hring₂') rfl
    obtain rfl := List.singleton_inj.mp hx
    cases j with
    | nil =>
        -- A ring of two places has the same value before and behind.
        rw [head_ring hring₁, hring₁] at h₁
        exact absurd rfl h₁.1.2
    | cons u j =>
        rw [head_ring hring₁, hring₁] at h₁
        have hlast : Spread [x, z, u] := Spread.of_suffix (l := u :: j) (by simpa using h₁)
        exact ⟨hlast.1, @Spread.of_prefix _ _ [z] h₂⟩

/-- The number of copies that exchange in the next pass. -/
def passExchanges (s : α × List (Copy α)) : ℕ := exchanges s.1 s.2

theorem passExchanges_pass (s : α × List (Copy α)) :
    passExchanges (pass s) ≤ passExchanges s ∧
      (passExchanges (pass s) = passExchanges s ↔ Full (pass s)) := by
  rw [← show (waiting (pass s).2).length = passExchanges s from length_waiting_visits s.1 s.2]
  exact exchanges_le (pass s).1 (pass s).2

theorem antitone_passExchanges (s : α × List (Copy α)) :
    Antitone fun k => passExchanges (pass^[k] s) := by
  refine antitone_nat_of_succ_le fun k => ?_
  rw [Function.iterate_succ_apply']
  exact (passExchanges_pass _).1

theorem Full.iterate {s : α × List (Copy α)} (h₀ : Full s) (h₁ : Full (SharedSlot.pass s))
    (h₂ : Full (SharedSlot.pass (SharedSlot.pass s))) (k : ℕ) : Full (SharedSlot.pass^[k] s) := by
  induction k generalizing s with
  | zero => exact h₀
  | succ k ih => exact ih h₁ h₂ (h₀.again h₁ h₂)

/-- If no copy drops out in three passes, none ever does. -/
theorem passExchanges_iterate {s : α × List (Copy α)}
    (h : passExchanges (pass^[3] s) = passExchanges s) (k : ℕ) :
    passExchanges (pass^[k] s) = passExchanges s := by
  have h₁ := passExchanges_pass s
  have h₂ := passExchanges_pass (pass s)
  have h₃ := passExchanges_pass (pass (pass s))
  rw [show pass^[3] s = pass (pass (pass s)) from rfl] at h
  have hfull := (h₁.2.mp (by omega)).iterate (h₂.2.mp (by omega)) (h₃.2.mp (by omega))
  induction k with
  | zero => rfl
  | succ k ih =>
      rw [← ih, Function.iterate_succ_apply']
      refine (passExchanges_pass _).2.mpr ?_
      rw [← Function.iterate_succ_apply' pass, Function.iterate_succ_apply]
      exact hfull k

/-- Within three passes for each exchange of the first one, some pass has at
most one exchange. -/
def Calms (s : α × List (Copy α)) : Prop :=
  ∃ k ≤ 3 * passExchanges s, passExchanges (pass^[k] s) ≤ 1

instance (s : α × List (Copy α)) : Decidable (Calms s) :=
  inferInstanceAs (Decidable (∃ k, k ≤ _ ∧ _))

theorem calms_of_passExchanges {s : α × List (Copy α)} {k : ℕ}
    (hk : passExchanges (pass^[k] s) ≤ 1) : Calms s := by
  induction hn : passExchanges s using Nat.strong_induction_on generalizing s with
  | _ n ih =>
      by_cases hone : passExchanges s ≤ 1
      · exact ⟨0, Nat.zero_le _, hone⟩
      · have hle : passExchanges (pass^[3] s) ≤ passExchanges s :=
          antitone_passExchanges s (Nat.zero_le 3)
        have hne : passExchanges (pass^[3] s) ≠ passExchanges s := fun he => by
          rw [passExchanges_iterate he] at hk
          exact hone hk
        have hk' : passExchanges (pass^[k] (pass^[3] s)) ≤ 1 := by
          rw [← Function.iterate_add_apply]
          exact (antitone_passExchanges s (Nat.le_add_right k 3)).trans hk
        obtain ⟨j, hj, hcalm⟩ := ih _ (by omega) hk' rfl
        refine ⟨j + 3, by omega, ?_⟩
        rw [Function.iterate_add_apply]
        exact hcalm

/-- Agreement is reached exactly if an early pass has at most one exchange. -/
theorem reaches_settled_iff (s : α × List (Copy α)) :
    (∃ k, Settled (pass^[k] s)) ↔ Calms s := by
  constructor
  · rintro ⟨k, hk⟩
    refine calms_of_passExchanges (k := k) ?_
    rw [passExchanges, exchanges_of_clean hk.clean]
    exact Nat.zero_le 1
  · rintro ⟨k, -, hk⟩
    refine ⟨4 + k, ?_⟩
    rw [Function.iterate_add_apply]
    exact settled_of_exchanges hk

def circling (x y z : α) : α × List (Copy α) := (z, [⟨y, x⟩, ⟨z, y⟩])

section
variable {x y z : α} (hxy : x ≠ y) (hyz : y ≠ z) (hzx : z ≠ x)
include hxy hyz hzx

theorem pass_circling : pass (circling x y z) = circling z x y := by
  simp [pass, circling, visits, visit, hxy, hyz, hyz.symm, hzx.symm]

theorem not_settled_circling (k : ℕ) : ¬ Settled (pass^[k] (circling x y z)) := by
  induction k generalizing x y z with
  | zero =>
      intro h
      have hhead := h ⟨y, x⟩ List.mem_cons_self
      exact hyz (congrArg Copy.held hhead)
  | succ k ih =>
      rw [Function.iterate_succ_apply, pass_circling hxy hyz hzx]
      exact ih hzx hxy hyz

end

end SharedSlot
