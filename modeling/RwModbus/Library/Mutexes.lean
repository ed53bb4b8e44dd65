import Mathlib

/-!
# Threads that hold and want mutexes

A machine's state says which thread owns each mutex, and each thread's program
point says which mutexes it holds. The rules below keep the two accounts equal.
A thread that wants an owned mutex waits for its owner; if a rank falls along
waiting, no threads wait in a circle and some thread can go on.
-/

namespace Mutexes
variable {T M : Type*}

/-- The owners are the threads that hold the mutexes by their own account. -/
def Owned (owner : M → Option T) (Holds : T → M → Prop) : Prop :=
  ∀ m t, owner m = some t ↔ Holds t m

section
variable {owner : M → Option T} {Holds Holds' : T → M → Prop}

theorem Owned.unique (h : Owned owner Holds) {m : M} {t u : T} (ht : Holds t m) (hu : Holds u m) :
    t = u :=
  Option.some_inj.mp (((h m t).mpr ht).symm.trans ((h m u).mpr hu))

theorem Owned.not_holds (h : Owned owner Holds) {m : M} (hfree : owner m = none) (t : T) :
    ¬ Holds t m := fun ht => by
  rw [(h m t).mpr ht] at hfree
  exact Option.some_ne_none t hfree

theorem Owned.congr (h : Owned owner Holds) (hholds : ∀ t m, Holds' t m ↔ Holds t m) :
    Owned owner Holds' := fun m t => (h m t).trans (hholds t m).symm

variable [DecidableEq M]

theorem Owned.lock (h : Owned owner Holds) {m : M} {t : T} (hfree : owner m = none)
    (hholds : ∀ u n, Holds' u n ↔ (n = m ∧ u = t) ∨ Holds u n) :
    Owned (Function.update owner m (some t)) Holds' := by
  intro n u
  rw [hholds]
  by_cases hn : n = m
  · subst hn
    simp [h.not_holds hfree u, eq_comm]
  · simp [hn, h n u]

theorem Owned.unlock (h : Owned owner Holds) {m : M} {t : T} (ht : Holds t m)
    (hholds : ∀ u n, Holds' u n ↔ ¬ (n = m ∧ u = t) ∧ Holds u n) :
    Owned (Function.update owner m none) Holds' := by
  intro n u
  rw [hholds]
  by_cases hn : n = m
  · subst hn
    simp only [Function.update_self, reduceCtorEq, true_and, false_iff, not_and]
    exact fun hne hu => hne (h.unique hu ht)
  · simp [hn, h n u]

end

section
variable (owner : M → Option T) (wants : T → Option M)

/-- The thread wants a mutex that the other one owns. -/
def WaitsFor (t u : T) : Prop := ∃ m, wants t = some m ∧ owner m = some u

variable {owner wants} {rank : T → ℕ}

theorem rank_lt (h : ∀ t u, WaitsFor owner wants t u → rank u < rank t) {t u : T}
    (htu : Relation.TransGen (WaitsFor owner wants) t u) : rank u < rank t := by
  induction htu with
  | single hw => exact h _ _ hw
  | tail _ hw ih => exact (h _ _ hw).trans ih

theorem not_circular (h : ∀ t u, WaitsFor owner wants t u → rank u < rank t) (t : T) :
    ¬ Relation.TransGen (WaitsFor owner wants) t t := fun ht => (rank_lt h ht).false

/-- Some thread of a class that waiting does not leave finds what it wants free. -/
theorem exists_free (h : ∀ t u, WaitsFor owner wants t u → rank u < rank t) {Live : T → Prop}
    (hlive : ∀ t u, WaitsFor owner wants t u → Live u) {t : T} (ht : Live t) :
    ∃ u, Live u ∧ ∀ m, wants u = some m → owner m = none := by
  induction hr : rank t using Nat.strong_induction_on generalizing t with
  | _ r ih =>
      by_cases hfree : ∀ m, wants t = some m → owner m = none
      · exact ⟨t, ht, hfree⟩
      · push Not at hfree
        obtain ⟨m, hm, hne⟩ := hfree
        obtain ⟨u, hu⟩ := Option.ne_none_iff_exists'.mp hne
        have hw : WaitsFor owner wants t u := ⟨m, hm, hu⟩
        exact ih _ (hr ▸ h t u hw) (hlive t u hw) rfl

end
end Mutexes
