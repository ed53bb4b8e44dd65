import Mathlib

/-!
# Runs of a labelled machine

A machine is a total step function on states and labels. A run is a list of
labels; `Along ok` says that each label is admissible in the state in which it
is taken. The rules below turn facts about one step into facts about every
prefix of a run.
-/

namespace Runs
variable {σ ε : Type*} (step : σ → ε → σ)

def run (s : σ) (es : List ε) : σ := es.foldl step s

@[simp] theorem run_nil (s : σ) : run step s [] = s := rfl

@[simp] theorem run_cons (s : σ) (e : ε) (es : List ε) :
    run step s (e :: es) = run step (step s e) es := rfl

theorem run_append (s : σ) (es fs : List ε) :
    run step s (es ++ fs) = run step (run step s es) fs := by
  simp [run]

/-- Every label of the run is admissible where it is taken. -/
def Along (ok : σ → ε → Prop) : σ → List ε → Prop
  | _, [] => True
  | s, e :: es => ok s e ∧ Along ok (step s e) es

/-- Admissibility of a given run can be evaluated. -/
instance decidableAlong (ok : σ → ε → Prop) [∀ s e, Decidable (ok s e)] :
    ∀ s es, Decidable (Along step ok s es)
  | _, [] => inferInstanceAs (Decidable True)
  | s, e :: es =>
      have := decidableAlong ok (step s e) es
      inferInstanceAs (Decidable (ok s e ∧ Along step ok (step s e) es))

variable {step}

theorem along_append {ok : σ → ε → Prop} {s : σ} {es fs : List ε} :
    Along step ok s (es ++ fs) ↔ Along step ok s es ∧ Along step ok (run step s es) fs := by
  induction es generalizing s with
  | nil => simp [Along]
  | cons e es ih => simp only [List.cons_append, Along, ih, run_cons, and_assoc]

theorem along_and {ok ok' : σ → ε → Prop} {s : σ} {es : List ε} :
    Along step (fun s e => ok s e ∧ ok' s e) s es ↔ Along step ok s es ∧ Along step ok' s es := by
  induction es generalizing s with
  | nil => simp [Along]
  | cons e es ih =>
      simp only [Along, ih]
      exact and_and_and_comm

/-- What holds of the labels themselves can be added. -/
theorem Along.and_mem {ok : σ → ε → Prop} {P : ε → Prop} {s : σ} {es : List ε}
    (h : Along step ok s es) (hP : ∀ e ∈ es, P e) :
    Along step (fun s e => ok s e ∧ P e) s es := by
  induction es generalizing s with
  | nil => trivial
  | cons e es ih =>
      exact ⟨⟨h.1, hP e List.mem_cons_self⟩,
        ih h.2 fun d hd => hP d (List.mem_cons_of_mem e hd)⟩

/-- The invariant rule: what every admissible step keeps holds after the run. -/
theorem Along.invariant {ok : σ → ε → Prop} {I : σ → Prop}
    (hstep : ∀ s e, I s → ok s e → I (step s e)) {s : σ} {es : List ε}
    (h : Along step ok s es) (hs : I s) : I (run step s es) := by
  induction es generalizing s with
  | nil => exact hs
  | cons e es ih => exact ih h.2 (hstep s e hs h.1)

/-- What every admissible step does from a state with the invariant is done along
the run. -/
theorem Along.imp {ok P : σ → ε → Prop} {I : σ → Prop} (hP : ∀ s e, I s → ok s e → P s e)
    (hstep : ∀ s e, I s → ok s e → I (step s e)) {s : σ} {es : List ε} (h : Along step ok s es)
    (hs : I s) : Along step P s es := by
  induction es generalizing s with
  | nil => trivial
  | cons e es ih => exact ⟨hP s e hs h.1, ih h.2 (hstep s e hs h.1)⟩

/-- The same rule for a machine all of whose labels are admissible. -/
theorem invariant {I : σ → Prop} (hstep : ∀ s e, I s → I (step s e)) {s : σ}
    (es : List ε) (hs : I s) : I (run step s es) := by
  induction es generalizing s with
  | nil => exact hs
  | cons e es ih => exact ih (hstep s e hs)

/-- A property of single steps holds along a run exactly when a condition does,
if the two are equivalent under an invariant that steps meeting the condition
keep. -/
theorem along_congr {ok P C : σ → ε → Prop} {I : σ → Prop}
    (hiff : ∀ s e, I s → ok s e → (P s e ↔ C s e))
    (hstep : ∀ s e, I s → ok s e → C s e → I (step s e)) {s : σ} {es : List ε}
    (h : Along step ok s es) (hs : I s) : Along step P s es ↔ Along step C s es := by
  induction es generalizing s with
  | nil => exact Iff.rfl
  | cons e es ih =>
      have hhead := hiff s e hs h.1
      constructor
      · rintro ⟨hp, htail⟩
        have hc := hhead.mp hp
        exact ⟨hc, (ih h.2 (hstep s e hs h.1 hc)).mp htail⟩
      · rintro ⟨hc, htail⟩
        exact ⟨hhead.mpr hc, (ih h.2 (hstep s e hs h.1 hc)).mpr htail⟩

/-- What every state with the invariant admits is admissible along every run. -/
theorem along_of_invariant {ok : σ → ε → Prop} {I : σ → Prop} (hok : ∀ s e, I s → ok s e)
    (hstep : ∀ s e, I s → I (step s e)) {s : σ} (es : List ε) (hs : I s) : Along step ok s es := by
  induction es generalizing s with
  | nil => trivial
  | cons e es ih => exact ⟨hok s e hs, ih (hstep s e hs)⟩

theorem along_of_forall {ok : σ → ε → Prop} (h : ∀ s e, ok s e) (s : σ) (es : List ε) :
    Along step ok s es :=
  along_of_invariant (I := fun _ => True) (fun s e _ => h s e) (fun _ _ _ => trivial) es trivial

/-- The same rule for a machine all of whose labels are admissible. -/
theorem along_iff {P C : σ → ε → Prop} {I : σ → Prop}
    (hiff : ∀ s e, I s → (P s e ↔ C s e)) (hstep : ∀ s e, I s → C s e → I (step s e))
    {s : σ} (es : List ε) (hs : I s) : Along step P s es ↔ Along step C s es :=
  along_congr (fun s e hs _ => hiff s e hs) (fun s e hs _ hc => hstep s e hs hc)
    (along_of_forall (fun _ _ => True.intro) s es) hs

/-- Labels that `p` does not pick keep an invariant that none of them can break. -/
theorem run_of_skipped {I : σ → Prop} {p : ε → Bool}
    (hstep : ∀ s e, p e = false → I s → I (step s e)) {s : σ} {es : List ε}
    (h : es.filter p = []) (hs : I s) : I (run step s es) := by
  induction es generalizing s with
  | nil => exact hs
  | cons e es ih =>
      have hnone := List.filter_eq_nil_iff.mp h
      have hp : p e = false := Bool.not_eq_true _ ▸ hnone e List.mem_cons_self
      apply ih (List.filter_eq_nil_iff.mpr fun d hd => hnone d (List.mem_cons_of_mem e hd))
      exact hstep s e hp hs

/-- Two runs that agree on the labels that `p` picks stay related, if the other labels
do not matter to the relation on either side. -/
theorem run_related {R : σ → σ → Prop} {p : ε → Bool}
    (hleft : ∀ s s' e, p e = false → R s s' → R (step s e) s')
    (hright : ∀ s s' e, p e = false → R s s' → R s (step s' e))
    (hboth : ∀ s s' e, p e = true → R s s' → R (step s e) (step s' e)) {s s' : σ}
    {es es' : List ε} (h : es.filter p = es'.filter p) (hs : R s s') :
    R (run step s es) (run step s' es') := by
  induction es generalizing s s' es' with
  | nil => exact run_of_skipped (I := R s) (fun s' e hp hs => hright s s' e hp hs) h.symm hs
  | cons e es ih =>
      cases hp : p e with
      | false =>
          rw [List.filter_cons_of_neg (by simp [hp])] at h
          exact ih h (hleft s s' e hp hs)
      | true =>
          rw [List.filter_cons_of_pos hp] at h
          obtain ⟨pre, post, rfl, hpre, -, hpost⟩ := List.filter_eq_cons_iff.mp h.symm
          have hnone : pre.filter p = [] := List.filter_eq_nil_iff.mpr hpre
          rw [run_append, run_cons, run_cons]
          apply ih hpost.symm
          apply hboth _ _ e hp
          exact run_of_skipped (I := R s) (fun s' e hp hs => hright s s' e hp hs) hnone hs

/-- The simulation rule: two machines that every admissible step keeps related are
related after the run. -/
theorem Along.simulates {σ' : Type*} {step' : σ' → ε → σ'} {ok : σ → ε → Prop} {R : σ' → σ → Prop}
    (hstep : ∀ a s e, R a s → ok s e → R (step' a e) (step s e)) {a : σ'} {s : σ} {es : List ε}
    (h : Along step ok s es) (hs : R a s) : R (run step' a es) (run step s es) := by
  induction es generalizing a s with
  | nil => exact hs
  | cons e es ih => exact ih h.2 (hstep a s e hs h.1)

/-- What every round that succeeds keeps holds after a loop that succeeds. -/
theorem foldlM_invariant {f : σ → ε → Option σ} {I : σ → Prop}
    (hstep : ∀ s e s', I s → f s e = some s' → I s') {s s' : σ} {es : List ε}
    (h : es.foldlM f s = some s') (hs : I s) : I s' := by
  induction es generalizing s with
  | nil =>
      obtain rfl : s = s' := by simpa using h
      exact hs
  | cons e es ih =>
      rw [List.foldlM_cons, Option.bind_eq_bind, Option.bind_eq_some_iff] at h
      obtain ⟨s₁, hhead, htail⟩ := h
      exact ih htail (hstep s e s₁ hs hhead)

/-- A loop whose rounds all succeed from states with an invariant is a plain fold. -/
theorem foldlM_eq_foldl {f : σ → ε → Option σ} {g : σ → ε → σ} {I : σ → Prop} {es : List ε}
    (hstep : ∀ s, ∀ e ∈ es, I s → f s e = some (g s e) ∧ I (g s e)) {s : σ} (hs : I s) :
    es.foldlM f s = some (es.foldl g s) ∧ I (es.foldl g s) := by
  induction es generalizing s with
  | nil => exact ⟨rfl, hs⟩
  | cons e es ih =>
      obtain ⟨hhead, hkeep⟩ := hstep s e List.mem_cons_self hs
      rw [List.foldlM_cons, Option.bind_eq_bind, hhead, Option.bind_some, List.foldl_cons]
      exact ih (fun t d hd => hstep t d (List.mem_cons_of_mem e hd)) hkeep

/-- Two nested loops are one loop over the inner labels. -/
theorem foldlM_flatMap {α : Type*} (f : σ → ε → Option σ) (g : α → List ε) (as : List α) (s : σ) :
    as.foldlM (fun s a => (g a).foldlM f s) s = (as.flatMap g).foldlM f s := by
  induction as generalizing s with
  | nil => rfl
  | cons a as ih => simp only [List.foldlM_cons, List.flatMap_cons, List.foldlM_append, ih]

end Runs
