import RwModbus.Distillation
import RwModbus.Library.Runs

/-!
# The counters of alarms

`UpdateTemps` raises alarms while it reads the sensors. Each event reads a
counter, adds one in 16 bits and writes it back.
-/
namespace RwModbus.Scada
open Numeric Registers Opc

/-- The number in an alarm's variable. -/
def counter (o : OpcServer) (alarmName : String) : Word :=
  (o.vars.val (o.getVarFullName alarmName.toList)).node.ui16

/-- Reading the variable gives data. -/
structure Readable (env : Env) (o : OpcServer) (svar : String) : Prop where
  isVar : o.isVariable (o.getVarFullName svar.toList) = true
  data : (env.node (o.getVarFullName svar.toList)).isSome = true

/-- The server takes writes to the variable. -/
def Accepts (o : OpcServer) (svar : String) : Prop :=
  o.wrStatus (o.getVarFullName svar.toList) = statusGood

instance (o : OpcServer) (svar : String) : Decidable (Accepts o svar) :=
  inferInstanceAs (Decidable (_ = _))

section
variable {env : Env} {N : List String} {o o' : OpcServer} {svar : String}

theorem counter_congr (ho : Keeps N o o') (hplain : Plain svar) (hN : svar ∉ N) :
    counter o' svar = counter o svar := by
  rw [counter, counter, ho.getVarFullName, ho.node _ (by rwa [shortName_getVarFullName hplain])]

theorem Readable.congr (h : Readable env o svar) (ho : Keeps N o o') : Readable env o' svar := by
  constructor
  · rw [ho.getVarFullName, ho.isVariable]
    exact h.isVar
  · rw [ho.getVarFullName]
    exact h.data

theorem accepts_congr (ho : Keeps N o o') : Accepts o' svar ↔ Accepts o svar := by
  rw [Accepts, Accepts, ho.getVarFullName, ho.wrStatus]

theorem Readable.reading (h : Readable env o svar) (x : NumericU) :
    (reading env o svar x).1.ui16 = counter o svar := by
  obtain ⟨beyond, hdata⟩ := Option.isSome_iff_exists.mp h.data
  have hwords := (o.vars.val (o.getVarFullName svar.toList)).uaType.words_pos
  rw [reading_eq]
  simp only [hdata, h.isVar, if_true, counter]
  exact if_pos hwords

end

section
variable (env : Env) {s : ScadaState}

theorem plain_alarm {a : String} (h : a ∈ alarms) : Plain a := by
  have hplain : ∀ a ∈ alarms, Plain a := by decide
  exact hplain a h

theorem addAlarm_leaves {a : String} (h : a ∈ alarms) (s : ScadaState) :
    Keeps [a] s.opcs (addAlarm env a s).2.opcs :=
  ((readNumber_leaves env a {} s).trans (writeNumber_leaves env a (plain_alarm h) 1
    (.ofUi16 ((reading env s.opcs a {}).1.ui16 + 1)) _)).opcs

theorem writeVariable_ui16 (wrStatus : StatusCode) (x : Word) (stack : NumericU) (isOk : Bool)
    (v : UaVar) :
    (OpcServer.writeVariable wrStatus (NumericU.overlay 1 (.ofUi16 x) stack) isOk v).node.ui16 =
      if wrStatus = statusGood then x else v.node.ui16 := by
  have hnode : (OpcServer.writeVariable wrStatus (NumericU.overlay 1 (.ofUi16 x) stack) isOk v).node =
      if wrStatus = statusGood then (NumericU.overlay 1 (.ofUi16 x) stack).typed v.uaType.words
      else v.node := rfl
  rw [hnode]
  split_ifs
  · exact if_pos v.uaType.words_pos
  · rfl

theorem writeNumber_counter {svar : String}
    (h : s.opcs.isVariable (s.opcs.getVarFullName svar.toList) = true) (x : Word) :
    counter (writeNumber env svar 1 (.ofUi16 x) s).2.opcs svar =
      if Accepts s.opcs svar then x else counter s.opcs svar := by
  set name := s.opcs.getVarFullName svar.toList with hname
  set bytes := NumericU.overlay 1 (.ofUi16 x) (env.stack svar) with hbytes
  have hopcs : (writeNumber env svar 1 (.ofUi16 x) s).2.opcs =
      (OpcServer.writeNumber name bytes true s.opcs).1 := rfl
  have htouch := OpcServer.writeNumber_touches name bytes true s.opcs
  have hname' : (OpcServer.writeNumber name bytes true s.opcs).1.getVarFullName svar.toList = name := by
    rw [OpcServer.getVarFullName, htouch.keys, hname, OpcServer.getVarFullName]
  have hval : (OpcServer.writeNumber name bytes true s.opcs).1.vars.val name =
      OpcServer.writeVariable (s.opcs.wrStatus name) bytes true
        { s.opcs.vars.val name with rawValue := bytes } := by
    rw [OpcServer.writeNumber, if_pos h, OpcServer.modifyVar_val_self]
  rw [hopcs, counter, hname', hval, hbytes, writeVariable_ui16]
  rfl

theorem addAlarm_counter {a : String} (h : Readable env s.opcs a) :
    counter (addAlarm env a s).2.opcs a =
      if Accepts s.opcs a then counter s.opcs a + 1 else counter s.opcs a := by
  have hread := (readNumber_leaves env a {} s).opcs
  have hcount : counter (readNumber env a {} s).2.opcs a = counter s.opcs a := by
    rw [counter, counter, hread.getVarFullName, hread.node _ (List.not_mem_nil)]
  have hwrite := writeNumber_counter env (h.congr hread).isVar ((reading env s.opcs a {}).1.ui16 + 1)
  rw [h.reading, hcount] at hwrite
  simp only [accepts_congr hread] at hwrite
  rw [← hwrite, ← h.reading {}]
  rfl

/-- An alarm that a program may raise. -/
theorem onlyIf_counter {a b : String} (ha : a ∈ alarms) (hb : b ∈ alarms) (c : Bool)
    (h : Readable env s.opcs a) :
    counter (onlyIf c (addAlarm env b) s).2.opcs a =
      if Accepts s.opcs a ∧ c ∧ a = b then counter s.opcs a + 1 else counter s.opcs a := by
  cases c with
  | false => simp [onlyIf_false]
  | true =>
      rw [onlyIf_true]
      by_cases hab : a = b
      · subst hab
        simp [addAlarm_counter env h]
      · rw [counter_congr (addAlarm_leaves env hb s) (plain_alarm ha) (by simpa using hab)]
        simp [hab]

/-- Whether what was read of a sensor raises the alarm. -/
def raises (alarmName : String) (r : NumericU × Bool) : Bool :=
  match r.2 with
  | true =>
      alarmName == "Alarm.T" && Binary32.lt (Binary32.ofInt 100) r.1.ui32 ||
        alarmName == "Alarm.DS" && Binary32.lt r.1.ui32 (Binary32.ofInt (-54))
  | false => alarmName == "Alarm.MB"

theorem raises_good {r : NumericU × Bool} (h : r.2 = true) (a : String) :
    raises a r = (a == "Alarm.T" && Binary32.lt (Binary32.ofInt 100) r.1.ui32 ||
      a == "Alarm.DS" && Binary32.lt r.1.ui32 (Binary32.ofInt (-54))) := by
  rw [raises, h]

theorem raises_bad {r : NumericU × Bool} (h : r.2 = false) (a : String) :
    raises a r = (a == "Alarm.MB") := by
  rw [raises, h]

theorem readTemp_fst (svar : String) (set : Float32 → Globals → Globals) (s : ScadaState) :
    (readTemp env svar set s).1 = (reading env s.opcs svar {}).2 := by
  simp only [readTemp, bind_apply, readNumber_fst]
  cases (reading env s.opcs svar {}).2 <;> rfl

theorem readTemp_counter (svar : String) (set : Float32 → Globals → Globals) {a : String}
    (ha : a ∈ alarms) (h : Readable env s.opcs a) :
    counter (readTemp env svar set s).2.opcs a =
      if Accepts s.opcs a ∧ raises a (reading env s.opcs svar {}) then counter s.opcs a + 1
      else counter s.opcs a := by
  have hread := (readNumber_leaves env svar {} s).opcs
  have hcount : counter (readNumber env svar {} s).2.opcs a = counter s.opcs a :=
    counter_congr hread (plain_alarm ha) List.not_mem_nil
  have haccepts : Accepts (readNumber env svar {} s).2.opcs a ↔ Accepts s.opcs a := accepts_congr hread
  have hreadable := h.congr hread
  cases hgood : (reading env s.opcs svar {}).2 with
  | true =>
      rw [raises_good hgood]
      simp only [readTemp, bind_apply, readNumber_fst, hgood, setVars_apply, pure_apply]
      set hot := Binary32.lt (Binary32.ofInt 100) (reading env s.opcs svar {}).1.ui32
      set cold := Binary32.lt (reading env s.opcs svar {}).1.ui32 (Binary32.ofInt (-54))
      set s₁ := (readNumber env svar {} s).2.mapVars (set (reading env s.opcs svar {}).1.ui32)
      have hset : Keeps alarms s₁.opcs (onlyIf hot (addAlarm env "Alarm.T") s₁).2.opcs :=
        onlyIf_keeps hot (addAlarm_keeps env "Alarm.T" (by decide) s₁)
      have hT := onlyIf_counter env (s := s₁) ha (by decide : "Alarm.T" ∈ alarms) hot hreadable
      have hDS := onlyIf_counter env ha (by decide : "Alarm.DS" ∈ alarms) cold (hreadable.congr hset)
      simp only [accepts_congr hset] at hDS
      have haccepts₁ : Accepts s₁.opcs a ↔ Accepts s.opcs a := haccepts
      have hcount₁ : counter s₁.opcs a = counter s.opcs a := hcount
      rw [hDS, hT, hcount₁]
      simp only [haccepts₁]
      have hdiff : ¬ (a = "Alarm.T" ∧ a = "Alarm.DS") := by
        rintro ⟨rfl, hDS⟩
        exact absurd hDS (by decide)
      grind
  | false =>
      have hMB := addAlarm_counter env (s := (readNumber env svar {} s).2) (a := "Alarm.MB")
      have hout := addAlarm_leaves env (by decide : "Alarm.MB" ∈ alarms) (readNumber env svar {} s).2
      rw [raises_bad hgood]
      simp only [readTemp, bind_apply, readNumber_fst, hgood, pure_apply]
      by_cases hab : a = "Alarm.MB"
      · subst hab
        rw [hMB hreadable, hcount]
        simp only [haccepts, beq_self_eq_true, and_true]
      · rw [counter_congr hout (plain_alarm ha) (by simpa using hab), hcount]
        simp [hab]

/-- How many sensors raise the alarm. -/
def events (o : OpcServer) (alarmName : String) (es : List (String × (Float32 → Globals → Globals))) :
    ℕ :=
  es.countP fun e => raises alarmName (reading env o e.1 {})

/-- The loop over some sensors: what it returns and what it adds to the counters,
all from the server `o` of its start. -/
theorem readTemps_events {o : OpcServer} (ho : Keeps alarms o s.opcs)
    (es : List (String × (Float32 → Globals → Globals)))
    (hes : ∀ e ∈ es, Plain e.1 ∧ e.1 ∉ alarms) (n : Word) :
    (readTemps env es n s).1 = n + BitVec.ofNat 16 (events env o "Alarm.MB" es) ∧
      ∀ a ∈ alarms, Readable env o a → counter (readTemps env es n s).2.opcs a =
        if Accepts o a then counter s.opcs a + BitVec.ofNat 16 (events env o a es)
        else counter s.opcs a := by
  induction es generalizing s n with
  | nil => simp [readTemps, events]
  | cons e es ih =>
      obtain ⟨hplain, hout⟩ := hes e List.mem_cons_self
      have hsame := reading_congr ho hplain hout (.refl e.1 env) {}
      have hkeep := (readTemp_leaves env e.1 e.2 s).1
      have hrest := ih (ho.trans hkeep) fun e he => hes e (List.mem_cons_of_mem _ he)
      rw [readTemps, bind_apply, readTemp_fst, hsame]
      constructor
      · rw [(hrest _).1, events, events, List.countP_cons]
        cases hgood : (reading env o e.1 {}).2 with
        | true =>
            have hkept : raises "Alarm.MB" (reading env o e.1 {}) = false := raises_good hgood "Alarm.MB"
            rw [hkept]
            rfl
        | false =>
            have hfailed : raises "Alarm.MB" (reading env o e.1 {}) = true := raises_bad hgood "Alarm.MB"
            rw [hfailed]
            simp only [if_true, Bool.false_eq_true, if_false, BitVec.ofNat_add]
            rw [add_assoc, add_comm 1]
            rfl
      · intro a ha hreadable
        have hhead := readTemp_counter env e.1 e.2 ha (hreadable.congr ho)
        rw [hsame] at hhead
        simp only [accepts_congr ho] at hhead
        rw [(hrest _).2 a ha hreadable, hhead, events, events, List.countP_cons]
        by_cases haccepts : Accepts o a
        · cases raises a (reading env o e.1 {}) with
          | true =>
              simp only [haccepts, and_self, if_true, BitVec.ofNat_add]
              rw [add_assoc, add_comm 1]
              rfl
          | false => simp [haccepts]
        · simp [haccepts]

theorem updateTemps_counter (s : ScadaState) {a : String} (ha : a ∈ alarms) (h : Readable env s.opcs a) :
    counter (updateTemps env s).2.opcs a =
      if Accepts s.opcs a then counter s.opcs a + BitVec.ofNat 16 (events env s.opcs a tempMap)
      else counter s.opcs a := by
  have hloop := (readTemps_events env (Keeps.refl alarms s.opcs) tempMap tempMap_plain 0).2 a ha h
  have hout : ∀ a ∈ alarms, a ∉ ["Tkub0"] := by decide
  simp only [updateTemps, bind_apply, setVars_apply, get_apply, pure_apply]
  rw [← hloop]
  generalize (readTemps env tempMap 0 s).2 = s₁
  exact counter_congr (writeNumber_leaves env "Tkub0" (by decide) 2 _ _).opcs (plain_alarm ha)
    (hout a ha)

theorem updateTemps_fst (s : ScadaState) :
    (updateTemps env s).1 = BitVec.ofNat 16 (events env s.opcs "Alarm.MB" tempMap) := by
  have hloop := readTemps_events env (Keeps.refl alarms s.opcs) tempMap tempMap_plain 0
  rw [updateTemps, bind_apply, hloop.1]
  exact BitVec.zero_add _

theorem events_le (o : OpcServer) (a : String) : events env o a tempMap ≤ 5 := List.countP_le_length

end

/-- A run of `UpdateTemps`: what it meets, and the state in which it starts. -/
structure TempsRun where
  env : Env
  start : ScadaState

namespace TempsRun

def returned (r : TempsRun) : Word := (updateTemps r.env r.start).1

def step (_ : ScadaState) (r : TempsRun) : ScadaState := (updateTemps r.env r.start).2

/-- Since the last run nobody wrote the alarm variables, and they can be read. -/
def NoOtherWriter (s : ScadaState) (r : TempsRun) : Prop :=
  ∀ a ∈ alarms, counter r.start.opcs a = counter s.opcs a ∧ Readable r.env r.start.opcs a

/-- No counter goes back, and the one of failed reads grows by their number. -/
structure CountsUp (s : ScadaState) (r : TempsRun) : Prop where
  noneFalls : ∀ a ∈ alarms, counter s.opcs a ≤ counter (step s r).opcs a
  failures : (counter (step s r).opcs "Alarm.MB").toNat =
    (counter s.opcs "Alarm.MB").toNat + r.returned.toNat

/-- The counters have room for the events of the run, and failed reads can be
counted. -/
structure HasRoom (s : ScadaState) (r : TempsRun) : Prop where
  room : ∀ a ∈ alarms, Accepts r.start.opcs a →
    (counter s.opcs a).toNat + events r.env r.start.opcs a tempMap < 2 ^ 16
  counted : events r.env r.start.opcs "Alarm.MB" tempMap = 0 ∨ Accepts r.start.opcs "Alarm.MB"

variable {s : ScadaState} {r : TempsRun}

theorem step_counter (h : NoOtherWriter s r) {a : String} (ha : a ∈ alarms) :
    counter (step s r).opcs a =
      if Accepts r.start.opcs a then
        counter s.opcs a + BitVec.ofNat 16 (events r.env r.start.opcs a tempMap)
      else counter s.opcs a := by
  obtain ⟨hsame, hreadable⟩ := h a ha
  rw [← hsame, step, updateTemps_counter r.env r.start ha hreadable]

theorem returned_toNat (r : TempsRun) :
    r.returned.toNat = events r.env r.start.opcs "Alarm.MB" tempMap := by
  have hle := events_le r.env r.start.opcs "Alarm.MB"
  rw [returned, updateTemps_fst, BitVec.toNat_ofNat, Nat.mod_eq_of_lt (by omega)]

/-- A few more do not show as fewer exactly if they fit. -/
theorem le_add_iff {c : Word} {k : ℕ} (hk : k ≤ 5) :
    c ≤ c + BitVec.ofNat 16 k ↔ c.toNat + k < 2 ^ 16 := by
  have hc := c.isLt
  rw [BitVec.le_def, BitVec.toNat_add, BitVec.toNat_ofNat]
  omega

theorem countsUp_iff (h : NoOtherWriter s r) : CountsUp s r ↔ HasRoom s r := by
  have hMB : "Alarm.MB" ∈ alarms := by decide
  have hstep := step_counter h hMB
  constructor
  · intro hup
    constructor
    · intro a ha haccepts
      have hle := hup.noneFalls a ha
      rw [step_counter h ha, if_pos haccepts, le_add_iff (events_le _ _ _)] at hle
      exact hle
    · by_cases haccepts : Accepts r.start.opcs "Alarm.MB"
      · exact .inr haccepts
      · left
        have hfailures := hup.failures
        rw [hstep, if_neg haccepts, returned_toNat] at hfailures
        omega
  · intro hroom
    constructor
    · intro a ha
      rw [step_counter h ha]
      split_ifs with haccepts
      · exact (le_add_iff (events_le _ _ _)).2 (hroom.room a ha haccepts)
      · exact BitVec.le_refl _
    · rw [hstep, returned_toNat]
      have hle := events_le r.env r.start.opcs "Alarm.MB"
      split_ifs with haccepts
      · have hfits := hroom.room _ hMB haccepts
        rw [BitVec.toNat_add, BitVec.toNat_ofNat]
        omega
      · rw [hroom.counted.resolve_right haccepts, add_zero]

/-- Along runs the counters count up exactly as long as they have room. -/
theorem runs_countUp_iff (s : ScadaState) (rs : List TempsRun) (h : Runs.Along step NoOtherWriter s rs) :
    Runs.Along step CountsUp s rs ↔ Runs.Along step HasRoom s rs :=
  Runs.along_congr (I := fun _ => True) (fun _ _ _ hok => countsUp_iff hok)
    (fun _ _ _ _ _ => trivial) h trivial

def alarmVar (mb : Word) (n : String) : UaVar :=
  if n = "/SCADA/Alarm.MB" then { uaType := .uint16, node := .ofUi16 mb } else { uaType := .uint16 }

def alarmState (mb : Word) : ScadaState where
  opcs := serverOf ["/SCADA/Alarm.DS", "/SCADA/Alarm.MB", "/SCADA/Alarm.T"] (by decide) (alarmVar mb)
  vars := {}

theorem alarmState_noOtherWriter (mb : Word) :
    NoOtherWriter (alarmState mb) ⟨quiet, alarmState mb⟩ := by
  intro a ha
  simp only [alarms, List.mem_cons, List.not_mem_nil, or_false] at ha
  obtain rfl | rfl | rfl := ha <;> exact ⟨rfl, rfl, rfl⟩

theorem alarmState_countsUp :
    Runs.Along step CountsUp (alarmState 65530) [⟨quiet, alarmState 65530⟩] := by
  apply (runs_countUp_iff (alarmState 65530) [⟨quiet, alarmState 65530⟩]
    ⟨alarmState_noOtherWriter 65530, trivial⟩).2
  refine ⟨⟨?_, .inr rfl⟩, trivial⟩
  intro a ha _
  simp only [alarms, List.mem_cons, List.not_mem_nil, or_false] at ha
  obtain rfl | rfl | rfl := ha <;> decide

/-- Five failed reads take a counter of 65535 to 4. -/
theorem not_countsUp : ¬ ∀ s rs, Runs.Along step NoOtherWriter s rs → Runs.Along step CountsUp s rs := by
  intro h
  have hup := h (alarmState 65535) [⟨quiet, alarmState 65535⟩] ⟨alarmState_noOtherWriter 65535, trivial⟩
  have hfalls := hup.1.noneFalls "Alarm.MB" (by decide)
  rw [step_counter (alarmState_noOtherWriter 65535) (by decide)] at hfalls
  revert hfalls
  decide

end TempsRun

end RwModbus.Scada
