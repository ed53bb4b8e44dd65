import RwModbus.Library.Runs
import RwModbus.Distillation

/-!
# Distillation after different histories

`mod_dist` is a static variable. `P_dist` sets it where a temperature range applies and
when the still boils, and otherwise writes whatever an earlier call has left in it.
-/
namespace RwModbus.Scada
open Numeric Registers Opc

/-- What a call of `P_dist` finds, but for its static variables. -/
structure DistCall where
  env : Env
  opcs : OpcServer
  vars : Globals

/-- The static variables of `p_dist.cpp`. -/
structure DistStatics where
  pDist : Word := 0
  modDist : Word := 0

namespace DistCall

def state (c : DistCall) (st : DistStatics) : ScadaState where
  opcs := c.opcs
  vars := { c.vars with pDist := st.pDist, modDist := st.modDist }

def call (st : DistStatics) (c : DistCall) : DistStatics :=
  let s := (Scada.pDist c.env (c.state st)).2
  ⟨s.vars.pDist, s.vars.modDist⟩

/-- The static variables after a history of calls. -/
def statics (history : List DistCall) : DistStatics := Runs.run call {} history

/-- The `P.dist` and the `Mode` that the call writes after a history. -/
def writes (history : List DistCall) (c : DistCall) : Option NumericU × Option NumericU :=
  let s := (Scada.pDist c.env (c.state (statics history))).2
  (lastWritten "P.dist" s, lastWritten "Mode" s)

/-- Whatever ran before, and whatever it left in the two variables, the call writes the same. -/
def HistoryFree (c : DistCall) : Prop :=
  ∀ (h h' : List DistCall) (o o' : OpcServer), Keeps ["P.dist", "Mode"] c.opcs o →
    Keeps ["P.dist", "Mode"] c.opcs o' →
    writes h { c with opcs := o } = writes h' { c with opcs := o' }

/-- Process 1 or 2. -/
def Distils (c : DistCall) : Prop := c.vars.process = 1 ∨ c.vars.process = 2

theorem writes_eq {c : DistCall} (hc : c.Distils) (h : List DistCall) {o : OpcServer}
    (ho : Keeps ["P.dist", "Mode"] c.opcs o) : writes h { c with opcs := o } =
      (some (.ofUi16 (rowPower c.env c.opcs (distRow c.vars))),
        some (.ofUi16 (if boils c.env c.opcs c.vars.tkub0 then 91
          else rowMode (statics h).modDist (distRow c.vars)))) := by
  have hpower := rowPower_congr c.env ho (by decide) (fun _ _ => .refl _ _) c.vars
  have hboils := boils_congr c.env ho (by decide) ⟨.refl _ _, .refl _ _⟩ c.vars.tkub0
  obtain ⟨hdist, hmode⟩ := pDist_writes c.env (s := state { c with opcs := o } (statics h)) hc
  rw [← hpower, ← hboils]
  exact Prod.ext hdist hmode

theorem statics_snoc (h : List DistCall) {c : DistCall} (hc : c.Distils) :
    (statics (h ++ [c])).modDist = if boils c.env c.opcs c.vars.tkub0 then 91
      else rowMode (statics h).modDist (distRow c.vars) := by
  obtain ⟨s₂, hvars, hrun⟩ := pDist_run c.env (s := c.state (statics h)) hc
  have hcall : statics (h ++ [c]) = call (statics h) c := by
    rw [statics, Runs.run_append]
    rfl
  rw [hcall, call, hrun]
  simp only [writeU16_vars, hvars]
  rfl

theorem historyFree_of_decided {c : DistCall} (hc : c.Distils)
    (h : distRow c.vars ≠ none ∨ boils c.env c.opcs c.vars.tkub0 = true) : HistoryFree c := by
  intro hist hist' o o' ho ho'
  rw [writes_eq hc hist ho, writes_eq hc hist' ho']
  rcases h with h | h
  · obtain ⟨row, hrow⟩ := Option.ne_none_iff_exists'.mp h
    rw [hrow, rowMode, rowMode]
  · rw [h, if_pos rfl, if_pos rfl]

/-- A warm-up of process 1, to begin with. -/
def warmUp (c : DistCall) : DistCall := { c with vars := { process := 1 } }

theorem statics_warmUp (c : DistCall) : (statics [c.warmUp]).modDist ≠ 0 := by
  have hrow : distRow c.warmUp.vars = some { svar := "P_MAX", mod := 11 } := by
    change distRow { process := 1 } = _
    decide +kernel
  have hmode := statics_snoc [] (c := c.warmUp) (Or.inl rfl)
  rw [List.nil_append, hrow, rowMode] at hmode
  rw [hmode]
  split_ifs <;> decide

theorem not_historyFree {c : DistCall} (hc : c.Distils) (hrow : distRow c.vars = none)
    (hboils : boils c.env c.opcs c.vars.tkub0 = false) : ¬ HistoryFree c := by
  intro hfree
  have hsame := hfree [] [c.warmUp] c.opcs c.opcs (.refl _ _) (.refl _ _)
  rw [writes_eq hc [] (.refl _ _), writes_eq hc [c.warmUp] (.refl _ _), hrow, hboils, rowMode,
    rowMode] at hsame
  simp only [Bool.false_eq_true, if_false, Prod.mk.injEq, true_and, Option.some.injEq,
    NumericU.ofUi16_inj] at hsame
  exact statics_warmUp c hsame.symm

/-- What a call in process 1 or 2 writes is decided by its readings exactly if a
temperature range applies or the still boils. -/
theorem historyFree_iff (c : DistCall) (hc : c.Distils) : HistoryFree c ↔
    distRow c.vars ≠ none ∨ boils c.env c.opcs c.vars.tkub0 = true := by
  constructor
  · intro hfree
    by_contra h
    rw [not_or, not_not, Bool.not_eq_true] at h
    exact not_historyFree hc h.1 h.2 hfree
  · exact historyFree_of_decided hc

/-- A call in process 1 with `Tdef0` at 50 and both thresholds at 100. -/
def stillCall (tkub0 : ℤ) : DistCall :=
  ⟨quiet, (still 1 (Binary32.ofInt 50)).opcs,
    { process := 1, tbuf := Binary32.ofInt 50, tkub0 := Binary32.ofInt tkub0 }⟩

theorem historyFree_still : HistoryFree (stillCall 90) :=
  (historyFree_iff (stillCall 90) (Or.inl rfl)).mpr (Or.inl (by decide +kernel))

/-- Below zero no range applies and the still does not boil. -/
theorem historyFree_fails : ¬ ∀ c : DistCall, c.Distils → HistoryFree c := by
  intro h
  have hboils : boils quiet (stillCall (-1)).opcs (Binary32.ofInt (-1)) = false := by
    obtain ⟨hboil, hstop⟩ := still_thresholds 1 (Binary32.ofInt 50)
    rw [stillCall, boils, hboil, hstop]
    decide +kernel
  exact not_historyFree (c := stillCall (-1)) (Or.inl rfl) (by decide +kernel) hboils
    (h (stillCall (-1)) (Or.inl rfl))

end DistCall

end RwModbus.Scada
