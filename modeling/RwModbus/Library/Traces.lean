import RwModbus.Library.Runs

/-!
# Runs up to the order of independent labels

Every label belongs to a component or to none. Labels of different components
commute, and a label of no component depends on all. Two runs are then equal as
soon as every component sees the same labels, its own and the common ones, in
the same order.
-/

namespace Traces
variable {σ ε ι : Type*} [DecidableEq ι] (step : σ → ε → σ) (comp : ε → Option ι)

def Independent (a b : ε) : Prop := ∃ i j, comp a = some i ∧ comp b = some j ∧ i ≠ j

/-- Independent labels can be taken in either order. -/
def Commutes : Prop := ∀ s a b, Independent comp a b → step (step s a) b = step (step s b) a

/-- The labels that concern component `i`. -/
def concerns (i : ι) (e : ε) : Bool :=
  match comp e with
  | some j => decide (j = i)
  | none => true

def view (i : ι) (es : List ε) : List ε := es.filter (concerns comp i)

variable {step comp}

omit [DecidableEq ι] in
/-- A label moves to the front past labels that are independent of it. -/
theorem run_move (hc : Commutes step comp) {e : ε} {pre : List ε}
    (hpre : ∀ a ∈ pre, Independent comp a e) (s : σ) (post : List ε) :
    Runs.run step s (pre ++ e :: post) = Runs.run step s (e :: (pre ++ post)) := by
  induction pre generalizing s with
  | nil => rfl
  | cons a pre ih =>
      have hrest := ih (fun b hb => hpre b (List.mem_cons_of_mem a hb)) (step s a)
      rw [List.cons_append, Runs.run_cons, hrest, Runs.run_cons, Runs.run_cons, List.cons_append,
        Runs.run_cons, hc s a e (hpre a List.mem_cons_self)]

theorem concerns_of_some {e : ε} {i j : ι} (h : comp e = some j) :
    concerns comp i e = true ↔ j = i := by
  simp [concerns, h]

theorem concerns_of_none {e : ε} (h : comp e = none) (i : ι) : concerns comp i e = true := by
  simp [concerns, h]

theorem view_append (i : ι) (es fs : List ε) :
    view comp i (es ++ fs) = view comp i es ++ view comp i fs := List.filter_append ..

theorem view_cons {i : ι} {e : ε} (h : concerns comp i e = true) (es : List ε) :
    view comp i (e :: es) = e :: view comp i es := List.filter_cons_of_pos h

theorem view_cons_of_not {i : ι} {e : ε} (h : ¬ concerns comp i e = true) (es : List ε) :
    view comp i (e :: es) = view comp i es := List.filter_cons_of_neg h

/-- Some component sees a label. -/
theorem exists_concerns [Nonempty ι] (comp : ε → Option ι) (e : ε) : ∃ i, concerns comp i e = true := by
  cases he : comp e with
  | none => exact ⟨Classical.arbitrary ι, concerns_of_none he _⟩
  | some j => exact ⟨j, (concerns_of_some he).mpr rfl⟩

/-- A view that starts with a label tells what comes before it. -/
theorem split_of_view {i : ι} {e : ε} {fs rest : List ε} (h : view comp i fs = e :: rest) :
    ∃ pre post, fs = pre ++ e :: post ∧ (∀ a ∈ pre, ¬ concerns comp i a = true) ∧
      view comp i post = rest := by
  obtain ⟨pre, post, hfs, hpre, -, hpost⟩ := List.filter_eq_cons_iff.mp h
  exact ⟨pre, post, hfs, hpre, hpost⟩

theorem independent_of_not_concerns {a e : ε} {i : ι} (he : comp e = some i)
    (ha : ¬ concerns comp i a = true) : Independent comp a e := by
  cases hj : comp a with
  | none => exact absurd (concerns_of_none hj i) ha
  | some j =>
      refine ⟨j, i, hj, he, fun hji => ha ?_⟩
      exact (concerns_of_some hj).mpr hji

/-- Runs with the same views are equal. -/
theorem run_eq_of_views [Nonempty ι] (hc : Commutes step comp) {es fs : List ε}
    (h : ∀ i, view comp i es = view comp i fs) (s : σ) :
    Runs.run step s es = Runs.run step s fs := by
  induction es generalizing fs s with
  | nil =>
      cases fs with
      | nil => rfl
      | cons f fs =>
          obtain ⟨i, hi⟩ := exists_concerns comp f
          have hview := h i
          rw [view_cons hi] at hview
          exact absurd hview.symm (List.cons_ne_nil _ _)
  | cons e es ih =>
      cases he : comp e with
      | some i =>
          -- the first label of its component moves to the front of the other run
          have hmine : concerns comp i e = true := (concerns_of_some he).mpr rfl
          have hview := h i
          rw [view_cons hmine] at hview
          obtain ⟨pre, post, rfl, hpre, hpost⟩ := split_of_view hview.symm
          have hind : ∀ a ∈ pre, Independent comp a e :=
            fun a ha => independent_of_not_concerns he (hpre a ha)
          rw [run_move hc hind, Runs.run_cons, Runs.run_cons]
          apply ih
          intro j
          by_cases hj : i = j
          · subst hj
            have hnone : view comp i pre = [] := List.filter_eq_nil_iff.mpr hpre
            rw [view_append, hnone, hpost, List.nil_append]
          · have hskip : ¬ concerns comp j e = true := fun hc => hj ((concerns_of_some he).mp hc)
            have hrest := h j
            rwa [view_cons_of_not hskip, view_append, view_cons_of_not hskip, ← view_append] at hrest
      | none =>
          -- a common label stands first in both
          have hall := concerns_of_none he
          cases fs with
          | nil =>
              have hview := h (Classical.arbitrary ι)
              rw [view_cons (hall _)] at hview
              exact absurd hview (List.cons_ne_nil _ _)
          | cons f fs =>
              obtain ⟨i, hi⟩ := exists_concerns comp f
              have hfirst := h i
              rw [view_cons (hall i), view_cons hi] at hfirst
              obtain rfl : e = f := (List.cons.inj hfirst).1
              rw [Runs.run_cons, Runs.run_cons]
              apply ih
              intro j
              have hj := h j
              rw [view_cons (hall j), view_cons (hall j)] at hj
              exact (List.cons.inj hj).2

end Traces
