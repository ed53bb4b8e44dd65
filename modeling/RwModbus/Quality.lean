import RwModbus.System

/-!
# The quality of an entry's variable

A pass writes a status only when it sees the health of the sources change, and
it remembers their health in `var_errors`. A write by the gateway's own tasks
sets the status to good without telling the entry, so that an entry in trouble
never repeats its bad status.
-/
namespace RwModbus.Quality
open Numeric Registers Reg Opc Refresh Sys

def errors (n : Name) (s : System) : ℕ :=
  (s.gateway.regmap.val n).getPlcErrors s.gateway.plcs

def good (n : Name) (s : System) : Bool :=
  s.gateway.opcs.isGood (s.gateway.regmap.val n).strOpcname

/-- At the end of a pass the variable is good exactly if the sources are. -/
def Tracks (n : Name) (s : System) : Event → Prop
  | .pass data => good n (step s (.pass data)) = true ↔ errors n (step s (.pass data)) = 0
  | _ => True

/-- No pass starts with a good variable while the entry already records errors
and its sources still have them. -/
def NotOverridden (n : Name) (s : System) : Event → Prop
  | .pass _ => ¬ (good n s = true ∧ (s.gateway.regmap.val n).varErrors ≠ 0 ∧ errors n s ≠ 0)
  | _ => True

/-- The entry and its variable as they are created. -/
structure Start (n : Name) (s : System) : Prop where
  own : s.gateway.OwnVariable n
  kind : (s.gateway.regmap.val n).kind ≠ .scada
  wrStatus : s.gateway.opcs.wrStatus (s.gateway.regmap.val n).strOpcname = statusGood
  uaStatus : (s.gateway.var n).uaStatus = statusGood
  varErrors : (s.gateway.regmap.val n).varErrors = 0

/-- An entry without errors has published a good status since, and one with
errors holds the bad value of its type. -/
structure Inv (n : Name) (s : System) : Prop where
  own : s.gateway.OwnVariable n
  kind : (s.gateway.regmap.val n).kind ≠ .scada
  wrStatus : s.gateway.opcs.wrStatus (s.gateway.regmap.val n).strOpcname = statusGood
  uaStatus : (s.gateway.regmap.val n).varErrors = 0 → (s.gateway.var n).uaStatus = statusGood
  bad : (s.gateway.regmap.val n).varErrors ≠ 0 → (s.gateway.regmap.val n).number =
    (RegC.badNumber (s.gateway.regmap.val n).prop.rtype).overlay
      (RegC.freshWords (s.gateway.regmap.val n).prop) (s.gateway.regmap.val n).number

variable {n : Name} {s : System}

theorem Start.inv (h : Start n s) : Inv n s :=
  ⟨h.own, h.kind, h.wrStatus, fun _ => h.uaStatus, fun hne => absurd h.varErrors hne⟩

theorem good_iff (h : s.gateway.OwnVariable n) :
    good n s = true ↔ (s.gateway.var n).uaStatus = statusGood := by
  simp [good, OpcServer.isGood, h.isVar, Gateway.var]

/-- A pass changes no error count, so the health it sees is the health it leaves. -/
theorem errors_pass (n : Name) (s : System) (data : ReadData) :
    errors n (step s (.pass data)) = errors n s := by
  have hf := Gateway.taskRegsRefresh_frame data s.gateway
  have hdef : ((step s (.pass data)).gateway.regmap.val n).toRegDef =
      (s.gateway.regmap.val n).toRegDef := hf.defs n
  rw [errors, hdef]
  exact RegDef.getPlcErrors_congr hf.plcs.errors

theorem turn_errors (h : s.gateway.OwnVariable n) (data : ReadData) :
    (s.gateway.turnOf data n).rm.getPlcErrors (s.gateway.turnOf data n).plcs = errors n s := by
  rw [h.turnOf_rm]
  exact RegDef.getPlcErrors_congr (Gateway.atTurn_frame data n s.gateway).plcs.errors

theorem plcErr_iff (h : s.gateway.OwnVariable n) (data : ReadData) :
    (s.gateway.turnOf data n).plcErr = false ↔ errors n s = 0 := by
  rw [Turn.plcErr_eq_false, turn_errors h]

theorem plcVal_bad (h : Inv n s) (data : ReadData) (herr : errors n s ≠ 0) :
    (s.gateway.turnOf data n).plcVal =
      (RegC.badNumber (s.gateway.regmap.val n).prop.rtype).overlay
        (RegC.freshWords (s.gateway.regmap.val n).prop) (s.gateway.regmap.val n).number := by
  have hk : (s.gateway.turnOf data n).rm.kind ≠ .scada := by
    rw [h.own.turnOf_rm]
    exact h.kind
  rw [Turn.plcVal, RegC.getPlcValue_snd hk, if_neg, h.own.turnOf_rm]
  rw [turn_errors h.own]
  exact herr

theorem publishes_bad (h : Inv n s) (data : ReadData) (herr : errors n s ≠ 0) :
    (s.gateway.turnOf data n).publishes = true ↔ (s.gateway.regmap.val n).varErrors = 0 := by
  have hplc : (s.gateway.turnOf data n).plcErr = true := by
    rw [← Bool.not_eq_false, plcErr_iff h.own]
    exact herr
  simp only [Turn.publishes, Turn.isNewPlc, Turn.oldVal, Turn.oldErr, hplc, h.own.turnOf_rm,
    plcVal_bad h data herr]
  by_cases h0 : (s.gateway.regmap.val n).varErrors = 0
  · simp [h0]
  · simp [h0, ← h.bad h0]

theorem pass_varErrors (h : Inv n s) (data : ReadData) :
    ((step s (.pass data)).gateway.regmap.val n).varErrors = 0 ↔ errors n s = 0 := by
  have hk : (s.gateway.turnOf data n).rm.kind ≠ .scada := by
    rw [h.own.turnOf_rm]
    exact h.kind
  rw [← turn_errors h.own data, ← Turn.refreshModbus_varErrors, ← Turn.refresh_rm hk data]
  exact iff_of_eq (congrArg (fun rm : RegC => rm.varErrors = 0) (h.own.pass_rm data))

/-- The status after a pass: what the sources call for if it was published. -/
theorem pass_uaStatus (h : Inv n s) (data : ReadData) :
    ((step s (.pass data)).gateway.var n).uaStatus =
      if (s.gateway.turnOf data n).publishes = true then
        (if errors n s = 0 then statusGood else badNotConnected)
      else (s.gateway.var n).uaStatus := by
  refine (congrArg UaVar.uaStatus (h.own.pass_var data)).trans ?_
  by_cases hp : (s.gateway.turnOf data n).publishes = true
  · rw [if_pos ⟨h.kind, hp⟩, if_pos hp, OpcServer.writeVariable_accepted h.wrStatus]
    by_cases herr : errors n s = 0
    · simp [(plcErr_iff h.own data).mpr herr, herr]
    · have hplc : (s.gateway.turnOf data n).plcErr = true := by
        rw [← Bool.not_eq_false, plcErr_iff h.own]
        exact herr
      simp [hplc, herr]
  · rw [if_neg fun hc => hp hc.2, if_neg hp]

theorem pass_good (h : Inv n s) (data : ReadData) (herr : errors n s = 0) :
    ((step s (.pass data)).gateway.var n).uaStatus = statusGood := by
  rw [pass_uaStatus h data, if_pos herr]
  split_ifs with hp
  · rfl
  · rw [Bool.not_eq_true, Turn.publishes_eq_false, (plcErr_iff h.own data).mpr herr] at hp
    refine h.uaStatus ?_
    have hold := hp.2.symm
    rw [Turn.oldErr, h.own.turnOf_rm] at hold
    simpa using hold

theorem writeValue_uaStatus (h : Inv n s) (t : Name) (x : NumericU) (data : Option NumericU)
    (hgood : (s.gateway.var n).uaStatus = statusGood) :
    ((step s (.writeValue t x data)).gateway.var n).uaStatus = statusGood := by
  by_cases ht : s.gateway.opcs.getVarFullName t = (s.gateway.regmap.val n).strOpcname
  · have hval := OpcServer.writeValue_val (o := s.gateway.opcs) (s := t)
      (by rw [ht]; exact h.own.isVar) data x true
    rw [ht, OpcServer.writeVariable_accepted h.wrStatus] at hval
    exact congrArg UaVar.uaStatus hval
  · rw [← hgood]
    exact congrArg UaVar.uaStatus
      ((OpcServer.writeValue_touches data t x true _).others _ fun hmem => ht hmem.symm)

theorem Inv.step (h : Inv n s) (e : Event) : Inv n (step s e) := by
  have hconf := step_sameConfig s e
  have hdef := hconf.defs n
  have hwr : (Sys.step s e).gateway.opcs.wrStatus
      ((Sys.step s e).gateway.regmap.val n).strOpcname = statusGood := by
    rw [hconf.opcs.wrStatus, hdef]
    exact h.wrStatus
  refine ⟨h.own.of_config hconf, by rw [hdef]; exact h.kind, hwr, fun h0 => ?_, fun hne => ?_⟩
  · cases e with
    | clientWrite t x => exact (OpcServer.clientWrite_uaStatus t _ x _).trans (h.uaStatus h0)
    | writeValue t x data => exact writeValue_uaStatus h t x data (h.uaStatus h0)
    | refreshAll data =>
        refine (congrArg UaVar.uaStatus
          (OpcServer.refreshAllValues_val h.own.isVar data)).trans ?_
        rw [OpcServer.refreshVar_uaStatus]
        exact h.uaStatus h0
    | pass data => exact pass_good h data ((pass_varErrors h data).mp h0)
    | poll i env => exact h.uaStatus h0
    | writeOut i env => exact h.uaStatus h0
  · cases e with
    | clientWrite t x => exact h.bad hne
    | writeValue t x data => exact h.bad hne
    | refreshAll data => exact h.bad hne
    | poll i env => exact h.bad hne
    | writeOut i env => exact h.bad hne
    | pass data =>
        have herr : errors n s ≠ 0 := fun h0 => hne ((pass_varErrors h data).mpr h0)
        have hk : (s.gateway.turnOf data n).rm.kind ≠ .scada := by
          rw [h.own.turnOf_rm]
          exact h.kind
        have hno : ¬ (s.gateway.turnOf data n).takes = true := by
          rw [Turn.takes_iff, plcErr_iff h.own]
          exact fun hc => herr hc.2.2.1
        have hnum : ((Sys.step s (.pass data)).gateway.regmap.val n).number =
            (s.gateway.turnOf data n).plcVal := by
          refine (congrArg RegC.number (h.own.pass_rm data)).trans ?_
          rw [Turn.refresh_rm hk, Turn.refreshModbus_number hk, if_neg hno]
        rw [hdef, hnum, plcVal_bad h data herr, NumericU.overlay_overlay]

theorem tracks_iff (h : Inv n s) (e : Event) : Tracks n s e ↔ NotOverridden n s e := by
  cases e with
  | pass data =>
      simp only [Tracks, NotOverridden]
      rw [good_iff (h.own.of_config (step_sameConfig s _)), good_iff h.own, errors_pass]
      by_cases herr : errors n s = 0
      · simp [herr, pass_good h data herr]
      · have hpub := publishes_bad h data herr
        rw [pass_uaStatus h data, if_neg herr]
        by_cases h0 : (s.gateway.regmap.val n).varErrors = 0
        · -- the change is seen and published
          rw [if_pos (hpub.mpr h0)]
          simp [herr, h0, badNotConnected, statusGood]
        · rw [if_neg fun hp => h0 (hpub.mp hp)]
          simp [herr, h0]
  | clientWrite t x => exact Iff.rfl
  | writeValue t x data => exact Iff.rfl
  | refreshAll data => exact Iff.rfl
  | poll i env => exact Iff.rfl
  | writeOut i env => exact Iff.rfl

/-- In a run, every pass leaves the variable's quality equal to the health of
the sources exactly if no pass starts with a variable that was set good during
an outage the entry has already recorded. -/
theorem along_tracks_iff (h : Start n s) (es : List Event) :
    Runs.Along step (Tracks n) s es ↔ Runs.Along step (NotOverridden n) s es :=
  Runs.along_iff (fun _ e hs => tracks_iff hs e) (fun _ e hs _ => hs.step e) es h.inv

def smallSystem : System where
  gateway := small { rvalue := 5, rmode := 1 } (smallEntry 1 0 (.ofUi16 5))
    { uaType := .uint16, rawValue := .ofUi16 5, node := .ofUi16 5 }
  devices := fun _ _ => 5

theorem smallSystem_start : Start ['v'] smallSystem :=
  ⟨small_ownVariable rfl rfl rfl, by decide, rfl, rfl, rfl⟩

def lostPoll : Event := .poll 0 fun _ => ⟨⟨true, false⟩, -1⟩

theorem outage_tracks :
    Runs.Along step (Tracks ['v']) smallSystem [lostPoll, .pass fun _ => none] :=
  (along_tracks_iff smallSystem_start _).mpr
    ⟨trivial, fun hc => absurd hc.2.1 (by decide), trivial⟩

/-- A heartbeat written during the outage makes the variable good for good. -/
theorem outage_overridden :
    ¬ ∀ n s, Start n s → ∀ es, Runs.Along step (Tracks n) s es := by
  intro h
  have hrun := h ['v'] smallSystem smallSystem_start
    [lostPoll, .pass fun _ => none, .writeValue ['v'] {} none, .pass fun _ => none]
  obtain ⟨-, -, -, hlast, -⟩ := hrun
  exact absurd (hlast.mp (by decide)) (by decide)

end RwModbus.Quality
