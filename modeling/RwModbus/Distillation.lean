import RwModbus.Heating

/-!
# Which sensor decides about distillation

`UpdateTemps` stores the good readings of the sensors, and `Tdef0` is a
reference to the one of `Tbuf`. The stages of distillation are therefore chosen
by `Tbuf`, and what they write depends on it through the ranges that they test.
-/
namespace RwModbus.Scada
open Numeric Registers Opc

/-- The variables that a read of a sensor may write. -/
def alarms : List String := ["Alarm.T", "Alarm.DS", "Alarm.MB"]

section
variable (env : Env) {s : ScadaState}

theorem addAlarm_keeps (alarmName : String) (h : alarmName ∈ alarms) (s : ScadaState) :
    Keeps alarms s.opcs (addAlarm env alarmName s).2.opcs := by
  have hplain : ∀ a ∈ alarms, Plain a := by decide
  have hleaves := (readNumber_leaves env alarmName {} s).trans
    (writeNumber_leaves env alarmName (hplain _ h) 1
      (.ofUi16 ((reading env s.opcs alarmName {}).1.ui16 + 1)) _)
  exact hleaves.opcs.mono (by simpa using h)

@[simp] theorem addAlarm_vars (alarmName : String) (s : ScadaState) :
    (addAlarm env alarmName s).2.vars = s.vars := rfl

theorem onlyIf_keeps {N : List String} {m : ScadaM Unit} (c : Bool)
    (h : Keeps N s.opcs (m s).2.opcs) : Keeps N s.opcs (onlyIf c m s).2.opcs := by
  cases c
  · exact .refl _ _
  · exact h

theorem onlyIf_vars {m : ScadaM Unit} (c : Bool) (h : (m s).2.vars = s.vars) :
    (onlyIf c m s).2.vars = s.vars := by
  cases c
  · rfl
  · exact h

/-- What `ReadTemp` does to the globals. -/
def keepTemp (env : Env) (o : OpcServer) (e : String × (Float32 → Globals → Globals))
    (g : Globals) : Globals :=
  if (reading env o e.1 {}).2 then e.2 (reading env o e.1 {}).1.ui32 g else g

theorem readTemp_leaves (svar : String) (set : Float32 → Globals → Globals) (s : ScadaState) :
    Keeps alarms s.opcs (readTemp env svar set s).2.opcs ∧
      (readTemp env svar set s).2.vars = keepTemp env s.opcs (svar, set) s.vars := by
  have hread := (readNumber_leaves env svar {} s).opcs.mono (List.nil_subset alarms)
  simp only [readTemp, bind_apply, readNumber_fst, keepTemp]
  cases (reading env s.opcs svar {}).2 with
  | true =>
      simp only [bind_apply, setVars_apply, pure_apply]
      set s₁ := (readNumber env svar {} s).2.mapVars (set (reading env s.opcs svar {}).1.ui32)
      have hset : Keeps alarms s.opcs s₁.opcs := hread
      refine ⟨hset.trans (.trans (onlyIf_keeps _ (addAlarm_keeps env _ ?_ s₁))
        (onlyIf_keeps _ (addAlarm_keeps env _ ?_ _))), ?_⟩
      · decide
      · decide
      · rw [onlyIf_vars _ (addAlarm_vars env _ _), onlyIf_vars _ (addAlarm_vars env _ _)]
        rfl
  | false =>
      refine ⟨hread.trans (addAlarm_keeps env "Alarm.MB" (by decide) _), ?_⟩
      simp

theorem readTemps_leaves {o : OpcServer} (ho : Keeps alarms o s.opcs)
    (es : List (String × (Float32 → Globals → Globals)))
    (hes : ∀ e ∈ es, Plain e.1 ∧ e.1 ∉ alarms) (n : Word) :
    Keeps alarms o (readTemps env es n s).2.opcs ∧
      (readTemps env es n s).2.vars = es.foldl (fun g e => keepTemp env o e g) s.vars := by
  induction es generalizing s n with
  | nil => exact ⟨ho, rfl⟩
  | cons e es ih =>
      obtain ⟨hkeep, hvars⟩ := readTemp_leaves env e.1 e.2 s
      obtain ⟨hplain, hout⟩ := hes e List.mem_cons_self
      have hsame := reading_congr ho hplain hout (.refl e.1 env) {}
      have hrest := ih (ho.trans hkeep) (fun e he => hes e (List.mem_cons_of_mem _ he))
      simp only [readTemps, bind_apply, List.foldl_cons]
      refine ⟨(hrest _).1, ?_⟩
      rw [(hrest _).2, hvars]
      simp only [keepTemp, hsame]

/-- The latest good number of a sensor, `t` being the one before. -/
def lastGood (env : Env) (o : OpcServer) (svar : String) (t : Float32) : Float32 :=
  if (reading env o svar {}).2 then (reading env o svar {}).1.ui32 else t

theorem keepTemp_eq (o : OpcServer) (svar : String) (set : Float32 → Globals → Globals)
    (get : Globals → Float32) (h : ∀ g, set (get g) g = g) (g : Globals) :
    keepTemp env o (svar, set) g = set (lastGood env o svar (get g)) g := by
  unfold keepTemp lastGood
  split_ifs
  · rfl
  · exact (h g).symm

/-- The globals after the loop of `UpdateTemps` from a server and globals. -/
def tempsRead (env : Env) (o : OpcServer) (g : Globals) : Globals :=
  { g with
    tbuf := lastGood env o "Tbuf" g.tbuf
    tdef := lastGood env o "Tdef" g.tdef
    tkub1 := lastGood env o "Tkub1" g.tkub1
    tkub2 := lastGood env o "Tkub2" g.tkub2
    ttsa := lastGood env o "Ttsa" g.ttsa }

/-- `Tkub0` is the higher one of the two. -/
def higherKub (g : Globals) : Globals :=
  { g with tkub0 := if Binary32.lt g.tkub2 g.tkub1 then g.tkub1 else g.tkub2 }

theorem foldl_keepTemp (o : OpcServer) (g : Globals) :
    tempMap.foldl (fun g e => keepTemp env o e g) g = tempsRead env o g := by
  simp only [tempMap, List.foldl_cons, List.foldl_nil]
  rw [keepTemp_eq env o "Tbuf" _ Globals.tbuf fun _ => rfl,
    keepTemp_eq env o "Tdef" _ Globals.tdef fun _ => rfl,
    keepTemp_eq env o "Tkub1" _ Globals.tkub1 fun _ => rfl,
    keepTemp_eq env o "Tkub2" _ Globals.tkub2 fun _ => rfl,
    keepTemp_eq env o "Ttsa" _ Globals.ttsa fun _ => rfl]
  rfl

theorem tempMap_plain : ∀ e ∈ tempMap, Plain e.1 ∧ e.1 ∉ alarms := by
  have hnames : ∀ svar ∈ tempMap.map Prod.fst, Plain svar ∧ svar ∉ alarms := by decide
  exact fun e he => hnames _ (List.mem_map_of_mem he)

theorem updateTemps_leaves (s : ScadaState) :
    Keeps ("Tkub0" :: alarms) s.opcs (updateTemps env s).2.opcs ∧
      (updateTemps env s).2.vars = higherKub (tempsRead env s.opcs s.vars) := by
  obtain ⟨hkeep, hvars⟩ := readTemps_leaves env (Keeps.refl alarms s.opcs) tempMap tempMap_plain 0
  rw [foldl_keepTemp] at hvars
  simp only [updateTemps, bind_apply, setVars_apply, get_apply, pure_apply, writeNumber_vars,
    mapVars_vars, hvars]
  generalize (readTemps env tempMap 0 s).2 = s₁ at hkeep
  refine ⟨?_, rfl⟩
  have hwrite := writeNumber_leaves env "Tkub0" (by decide) 2
  exact (hkeep.mono (List.subset_cons_self _ _)).trans ((hwrite _ _).opcs.mono (by simp))

/-- The branch that `P_dist` takes in the processes 1 and 2. -/
def distRow (g : Globals) : Option DistRow :=
  if g.process = 1 then dist1Row g.tdef0 g.tkub0 else dist2Row g.tdef0 g.tkub0

def rowPower (env : Env) (o : OpcServer) : Option DistRow → Word
  | some row => configured env o row.svar * row.times
  | none => 0

/-- Without a branch the mode is the one of an earlier pass. -/
def rowMode (modDist : Word) : Option DistRow → Word
  | some row => row.mod
  | none => modDist

/-- The condition of `CheckBoil`. -/
def boils (env : Env) (o : OpcServer) (tkub0 : Float32) : Bool :=
  Binary32.lt (temperature env o "T_heat") tkub0 ||
    Binary32.lt (Binary32.add (temperature env o "T_boil") 0x3e19999a) tkub0

theorem boils_congr {N : List String} {env' : Env} {o o' : OpcServer} (ho : Keeps N o o')
    (hN : "T_heat" ∉ N ∧ "T_boil" ∉ N)
    (henv : SameData "T_heat" env env' ∧ SameData "T_boil" env env') (tkub0 : Float32) :
    boils env' o' tkub0 = boils env o tkub0 := by
  rw [boils, boils, temperature_congr ho (by decide) hN.1 henv.1,
    temperature_congr ho (by decide) hN.2 henv.2]

theorem dist_leaves (row : Float32 → Float32 → Option DistRow) (s : ScadaState) :
    Leaves [] [] s (dist env row s).2 ∧ (dist env row s).2.vars = { s.vars with
      pDist := rowPower env s.opcs (row s.vars.tdef0 s.vars.tkub0)
      modDist := rowMode s.vars.modDist (row s.vars.tdef0 s.vars.tkub0) } := by
  have hset := mapVars_leaves (fun g => { g with pDist := 0 }) s
  simp only [dist, bind_apply, setVars_apply, get_apply, mapVars_vars, Globals.tdef0]
  cases row s.vars.tbuf s.vars.tkub0 with
  | none => exact ⟨hset, rfl⟩
  | some r =>
      simp only [applyRow, bind_apply, setVars_apply, readLevel_fst, mapVars_vars, readLevel_vars]
      exact ⟨hset.trans ((readLevel_leaves env r.svar _).trans (mapVars_leaves _ _)), rfl⟩

theorem distStage_leaves (h : s.vars.process = 1 ∨ s.vars.process = 2) :
    Leaves [] [] s (distStage env s.vars.process s).2 ∧
      (distStage env s.vars.process s).2.vars = { s.vars with
        pDist := rowPower env s.opcs (distRow s.vars)
        modDist := rowMode s.vars.modDist (distRow s.vars) } := by
  rcases h with h | h
  · rw [distStage, distRow, if_pos h, if_pos h]
    exact dist_leaves env dist1Row s
  · have h1 : s.vars.process ≠ 1 := by rw [h]; decide
    rw [distStage, distRow, if_neg h1, if_pos h, if_neg h1]
    exact dist_leaves env dist2Row s

theorem checkBoil_leaves (s : ScadaState) :
    Leaves [] [] s (checkBoil env s).2 ∧ (checkBoil env s).2.vars =
      { s.vars with modDist := if boils env s.opcs s.vars.tkub0 then 91 else s.vars.modDist } := by
  have hboil := readFloat_leaves env "T_boil" s
  have hstop := readFloat_leaves env "T_heat" (readFloat env "T_boil" s).2
  have hsame : temperature env (readFloat env "T_boil" s).2.opcs "T_heat" =
      temperature env s.opcs "T_heat" :=
    temperature_congr hboil.opcs (by decide) (by decide) (.refl _ _)
  simp only [checkBoil, bind_apply, setVars_apply, readFloat_fst, mapVars_vars, readFloat_vars, hsame]
  exact ⟨hboil.trans (hstop.trans (mapVars_leaves _ _)), rfl⟩

/-- What `P_dist` does in the processes 1 and 2: its two writes come last. -/
theorem pDist_run (h : s.vars.process = 1 ∨ s.vars.process = 2) :
    ∃ s₂ : ScadaState, s₂.vars = { s.vars with
        pDist := rowPower env s.opcs (distRow s.vars)
        modDist := if boils env s.opcs s.vars.tkub0 then 91
          else rowMode s.vars.modDist (distRow s.vars) } ∧
      (pDist env s).2 =
        (writeU16 env "P.dist" s₂.vars.pDist (writeU16 env "Mode" s₂.vars.modDist s₂).2).2 := by
  have h12 : (s.vars.process == 1 || s.vars.process == 2) = true := by simpa using h
  have hset := mapVars_leaves (fun g => { g with pDist := 0 }) s
  obtain ⟨hstage, hvars⟩ :=
    distStage_leaves env (s := s.mapVars fun g => { g with pDist := 0 }) h
  rw [mapVars_vars] at hstage hvars
  generalize e₁ : (distStage env s.vars.process (s.mapVars fun g => { g with pDist := 0 })).2 = s₁
    at hstage hvars
  obtain ⟨-, hvars'⟩ := checkBoil_leaves env s₁
  generalize e₂ : (checkBoil env s₁).2 = s₂ at hvars'
  have hrun : (pDist env s).2 =
      (writeU16 env "P.dist" s₂.vars.pDist (writeU16 env "Mode" s₂.vars.modDist s₂).2).2 := by
    simp only [pDist, distPass, bind_apply, setVars_apply, get_apply, mapVars_vars, h12, onlyIf_true,
      e₁, e₂, writeU16_vars]
  have hboils : boils env s₁.opcs s.vars.tkub0 = boils env s.opcs s.vars.tkub0 :=
    boils_congr env (hset.trans hstage).opcs (by decide) ⟨.refl _ _, .refl _ _⟩ _
  refine ⟨s₂, ?_, hrun⟩
  rw [hvars', hvars]
  simp only [hboils]
  rfl

/-- What `P_dist` writes in the processes 1 and 2. -/
theorem pDist_writes (h : s.vars.process = 1 ∨ s.vars.process = 2) :
    lastWritten "P.dist" (pDist env s).2 = some (.ofUi16 (rowPower env s.opcs (distRow s.vars))) ∧
    lastWritten "Mode" (pDist env s).2 = some (.ofUi16 (if boils env s.opcs s.vars.tkub0 then 91
      else rowMode s.vars.modDist (distRow s.vars))) := by
  obtain ⟨s₂, hvars, hrun⟩ := pDist_run env h
  have hlater := lastWritten_leaves "Mode"
    (writeU16_leaves env "P.dist" (by decide) s₂.vars.pDist (writeU16 env "Mode" s₂.vars.modDist s₂).2)
    (by simp)
  rw [hrun, lastWritten_writeU16, hlater, lastWritten_writeU16, hvars]
  exact ⟨rfl, rfl⟩

/-- The configured levels of distillation. -/
def distLevels : List String := ["P_MAX", "P_WARM", "P_DIST", "P_DIST2", "P_DIST3", "P_TAIL"]

theorem distRow_svar (g : Globals) {row : DistRow} (h : distRow g = some row) :
    ∀ svar ∈ row.svar, svar ∈ distLevels := by
  have hrows : ∀ r : Option DistRow, r = dist1Row g.tdef0 g.tkub0 ∨ r = dist2Row g.tdef0 g.tkub0 →
      ∀ row ∈ r, ∀ svar ∈ row.svar, svar ∈ distLevels := by
    unfold dist1Row dist2Row distLevels
    grind
  refine hrows _ ?_ row h
  unfold distRow
  split_ifs
  · exact .inl rfl
  · exact .inr rfl

theorem rowPower_congr {N : List String} {env' : Env} {o o' : OpcServer} (ho : Keeps N o o')
    (hN : ∀ svar ∈ distLevels, svar ∉ N) (henv : ∀ svar ∈ distLevels, SameData svar env env')
    (g : Globals) : rowPower env' o' (distRow g) = rowPower env o (distRow g) := by
  have hplain : ∀ svar ∈ distLevels, Plain svar := by decide
  cases hrow : distRow g with
  | none => rfl
  | some row =>
      have hsvar := distRow_svar g hrow
      rw [rowPower, rowPower, configured_congr ho
        (fun svar h => ⟨hplain svar (hsvar svar h), hN svar (hsvar svar h)⟩)
        fun svar h => henv svar (hsvar svar h)]

/-- What a pass writes for distillation, from the globals that its sensors give. -/
theorem setPower_distills (h : s.vars.process = 1 ∨ s.vars.process = 2) :
    lastWritten "P.dist" (setPower env s).2 =
      some (.ofUi16 (rowPower env s.opcs (distRow s.vars))) ∧
    lastWritten "Mode" (setPower env s).2 = some (.ofUi16 (if boils env s.opcs s.vars.tkub0 then 91
      else rowMode s.vars.modDist (distRow s.vars))) := by
  have hread := readNumber_leaves env "Pshift" (env.unset "Pshift")
    (s.mapVars fun g => { g with pset := 0 })
  rw [← readInt_snd] at hread
  have h₁ : (readInt env "Pshift" (s.mapVars fun g => { g with pset := 0 })).2.vars =
      { s.vars with pset := 0 } := rfl
  generalize e₁ : (readInt env "Pshift" (s.mapVars fun g => { g with pset := 0 })).2 = s₁ at hread h₁
  obtain ⟨hheat, h₂⟩ := pHeat_leaves env (s := s₁) (by rw [h₁]; dsimp only; bv_omega)
  generalize e₂ : (pHeat env s₁).2 = s₂ at hheat h₂
  rw [h₁] at h₂
  obtain ⟨hpower, hmode⟩ := pDist_writes env (s := s₂) (by rw [h₂]; exact h)
  generalize e₃ : (pDist env s₂).2 = s₃ at hpower hmode
  obtain ⟨hrect, -, -⟩ := pRect_leaves env (s := s₃)
  generalize e₄ : (pRect env s₃).2 = s₄ at hrect
  have hkeep : Keeps ["P.heat"] s.opcs s₂.opcs := (hread.trans hheat).opcs
  have hafter : ∀ svar, svar ≠ "P.rect" → svar ≠ "Pset" →
      lastWritten svar (setPower env s).2 = lastWritten svar s₃ := by
    intro svar hne hne'
    -- together with the equations of the stages this is slow to check
    simp only [setPower, bind_apply, setVars_apply, get_apply, mapVars_vars]
    simp only [e₁, e₂, e₃, e₄]
    have hset := fun f => mapVars_leaves f (readLevel env (powerVar s₄.vars.process) s₄).2
    have hset' := fun f f' =>
      mapVars_leaves f ((readLevel env (powerVar s₄.vars.process) s₄).2.mapVars f')
    exact lastWritten_leaves svar (hrect.trans ((readLevel_leaves env _ s₄).trans
      ((hset _).trans ((hset' _ _).trans (writeU16_leaves env "Pset" (by decide) _ _)))))
      (by simp [Ne.symm hne, Ne.symm hne'])
  rw [hafter _ (by decide) (by decide), hafter _ (by decide) (by decide), hpower, hmode,
    rowPower_congr env hkeep (by decide) fun _ _ => .refl _ _,
    boils_congr env hkeep (by decide) ⟨.refl _ _, .refl _ _⟩, h₂]
  exact ⟨rfl, rfl⟩

/-- The globals that `UpdateProcess` and `UpdateTemps` leave. -/
def sensed (env : Env) (s : ScadaState) : Globals :=
  higherKub (tempsRead env s.opcs
    { s.vars with process := level env s.opcs "Process", mode := level env s.opcs "Mode" })

theorem updateProcess_leaves (s : ScadaState) :
    Leaves [] [] s (updateProcess env s).2 ∧ (updateProcess env s).2.vars =
      { s.vars with process := level env s.opcs "Process", mode := level env s.opcs "Mode" } := by
  have hprocess := readU16_leaves env "Process" s
  set s₁ := (readU16 env "Process" s).2.mapVars fun g => { g with process := level env s.opcs "Process" }
    with hs₁
  have hkeep : Leaves [] [] s s₁ := hprocess.trans (mapVars_leaves _ _)
  have hmode : level env s₁.opcs "Mode" = level env s.opcs "Mode" :=
    level_congr hkeep.opcs (by decide) (by decide) (.refl _ _)
  simp only [updateProcess, bind_apply, setVars_apply, readU16_fst, mapVars_vars, readU16_vars,
    ← hs₁, hmode]
  exact ⟨hkeep.trans ((readU16_leaves env "Mode" s₁).trans (mapVars_leaves _ _)), rfl⟩

theorem lastGood_congr {N : List String} {env' : Env} {o o' : OpcServer} {svar : String}
    (ho : Keeps N o o') (hplain : Plain svar) (hN : svar ∉ N) (henv : SameData svar env env')
    (t : Float32) : lastGood env' o' svar t = lastGood env o svar t := by
  rw [lastGood, lastGood, reading_congr ho hplain hN henv]

theorem tempsRead_congr {N : List String} {o o' : OpcServer} (ho : Keeps N o o')
    (hN : ∀ svar ∈ tempMap.map Prod.fst, svar ∉ N) (g : Globals) :
    tempsRead env o' g = tempsRead env o g := by
  have hsame : ∀ svar ∈ tempMap.map Prod.fst, ∀ t, lastGood env o' svar t = lastGood env o svar t := by
    have hplain : ∀ svar ∈ tempMap.map Prod.fst, Plain svar := by decide
    exact fun svar h => lastGood_congr env ho (hplain svar h) (hN svar h) (.refl _ _)
  simp only [tempsRead, hsame "Tbuf" (by decide), hsame "Tdef" (by decide), hsame "Tkub1" (by decide),
    hsame "Tkub2" (by decide), hsame "Ttsa" (by decide)]

/-- What a pass of the task writes for distillation in the processes 1 and 2. -/
theorem taskScada_distills (h : level env s.opcs "Process" = 1 ∨ level env s.opcs "Process" = 2) :
    lastWritten "P.dist" (taskScada env s).2 =
      some (.ofUi16 (rowPower env s.opcs (distRow (sensed env s)))) ∧
    lastWritten "Mode" (taskScada env s).2 =
      some (.ofUi16 (if boils env s.opcs (sensed env s).tkub0 then 91
        else rowMode s.vars.modDist (distRow (sensed env s)))) := by
  obtain ⟨hupdate, h₁⟩ := updateProcess_leaves env s
  generalize e₁ : (updateProcess env s).2 = s₁ at hupdate h₁
  obtain ⟨htemps, h₂⟩ := updateTemps_leaves env s₁
  generalize e₂ : (updateTemps env s₁).2 = s₂ at htemps h₂
  have hkeep : Keeps ("Tkub0" :: alarms) s.opcs s₂.opcs :=
    (hupdate.opcs.mono (List.nil_subset _)).trans htemps
  have hvars : s₂.vars = sensed env s := by
    rw [h₂, tempsRead_congr env hupdate.opcs (by decide), h₁, sensed]
  obtain ⟨hpower, hmode⟩ := setPower_distills env (s := s₂) (by rw [hvars]; exact h)
  simp only [taskScada, bind_apply, e₁, e₂]
  rw [hpower, hmode, hvars, rowPower_congr env hkeep (by decide) fun _ _ => .refl _ _,
    boils_congr env hkeep (by decide) ⟨.refl _ _, .refl _ _⟩]
  exact ⟨rfl, rfl⟩

end

/-- The stage of the process does not tell the two temperatures apart. -/
def SameRange (process : Word) (t t' : Float32) : Prop :=
  if process = 1 then
    Binary32.lt (Binary32.ofInt 40) t = Binary32.lt (Binary32.ofInt 40) t' ∧
      Binary32.lt (Binary32.ofInt 30) t = Binary32.lt (Binary32.ofInt 30) t'
  else Binary32.lt t (Binary32.ofInt 40) = Binary32.lt t' (Binary32.ofInt 40)

instance (process : Word) (t t' : Float32) : Decidable (SameRange process t t') := by
  unfold SameRange
  infer_instance

/-- The powers and the modes of distillation that were written are the same. -/
def SameDistillation (s s' : ScadaState) : Prop :=
  lastWritten "P.dist" s = lastWritten "P.dist" s' ∧ lastWritten "Mode" s = lastWritten "Mode" s'

theorem distRow_congr {g g' : Globals} (hprocess : g'.process = g.process) (hkub : g'.tkub0 = g.tkub0)
    (h : SameRange g.process g.tbuf g'.tbuf) : distRow g = distRow g' := by
  unfold SameRange at h
  rw [distRow, distRow, hprocess, hkub]
  split_ifs at h ⊢
  · rw [dist1Row, dist1Row, Globals.tdef0, Globals.tdef0, h.1, h.2]
  · rw [dist2Row, dist2Row, Globals.tdef0, Globals.tdef0, h]

section
variable {env env' : Env} {s s' : ScadaState}

theorem AlikeBut.sensed (h : AlikeBut "Tbuf" env env' s s') :
    Scada.sensed env' s' = { Scada.sensed env s with
      tbuf := lastGood env' s'.opcs "Tbuf" s.vars.tbuf } := by
  have hlevel : ∀ svar, Plain svar → svar ≠ "Tbuf" → level env' s'.opcs svar = level env s.opcs svar :=
    fun svar hplain hne => level_congr h.opcs hplain (by simpa using hne) (h.data svar hne)
  have htemp : ∀ svar, Plain svar → svar ≠ "Tbuf" → ∀ t,
      lastGood env' s'.opcs svar t = lastGood env s.opcs svar t :=
    fun svar hplain hne => lastGood_congr env h.opcs hplain (by simpa using hne) (h.data svar hne)
  simp only [Scada.sensed, tempsRead, h.vars, hlevel "Process" (by decide) (by decide),
    hlevel "Mode" (by decide) (by decide), htemp "Tdef" (by decide) (by decide),
    htemp "Tkub1" (by decide) (by decide), htemp "Tkub2" (by decide) (by decide),
    htemp "Ttsa" (by decide) (by decide)]
  rfl

/-- In one range of `Tbuf` two passes distil the same way. -/
theorem distills_alike (h : AlikeBut "Tbuf" env env' s s')
    (hprocess : level env s.opcs "Process" = 1 ∨ level env s.opcs "Process" = 2)
    (hrange : SameRange (level env s.opcs "Process") (lastGood env s.opcs "Tbuf" s.vars.tbuf)
      (lastGood env' s'.opcs "Tbuf" s'.vars.tbuf)) :
    SameDistillation (taskScada env s).2 (taskScada env' s').2 := by
  have hlevel : level env' s'.opcs "Process" = level env s.opcs "Process" :=
    level_congr h.opcs (by decide) (by decide) (h.data _ (by decide))
  have hother : ∀ svar ∈ distLevels, svar ≠ "Tbuf" := by decide
  obtain ⟨hpower, hmode⟩ := taskScada_distills env hprocess
  obtain ⟨hpower', hmode'⟩ := taskScada_distills env' (hlevel ▸ hprocess)
  rw [h.vars] at hrange hmode'
  have hrow : distRow (Scada.sensed env s) = distRow (Scada.sensed env' s') := by
    rw [h.sensed]
    exact distRow_congr rfl rfl hrange
  refine ⟨?_, ?_⟩
  · rw [hpower, hpower', ← hrow,
      rowPower_congr env h.opcs (by decide) fun svar hmem => h.data svar (hother svar hmem)]
  · rw [hmode, hmode', ← hrow, h.sensed,
      boils_congr env h.opcs (by decide) ⟨h.data _ (by decide), h.data _ (by decide)⟩]

end

def stillVar (process : Word) (tbuf : Float32) (n : String) : UaVar :=
  if n = "/SCADA/P_MAX" then { uaType := .uint16, node := .ofUi16 2 }
  else if n = "/SCADA/P_WARM" then { uaType := .uint16, node := .ofUi16 1 }
  else if n = "/SCADA/Process" then { uaType := .uint16, node := .ofUi16 process }
  else if n = "/SCADA/Tbuf" then { uaType := .float, node := NumericU.setUi32 {} tbuf }
  else if n = "/SCADA/Tkub1" then { uaType := .float, node := NumericU.setUi32 {} (Binary32.ofInt 50) }
  else { uaType := .float, node := NumericU.setUi32 {} (Binary32.ofInt 100) }

def still (process : Word) (tbuf : Float32) : ScadaState where
  opcs := serverOf ["/SCADA/P_MAX", "/SCADA/P_WARM", "/SCADA/Process", "/SCADA/T_boil",
    "/SCADA/T_heat", "/SCADA/Tbuf", "/SCADA/Tkub1"] (by decide) (stillVar process tbuf)
  vars := {}

theorem still_alike (process : Word) (t t' : Float32) :
    AlikeBut "Tbuf" quiet quiet (still process t) (still process t') := by
  refine ⟨rfl, serverOf_keeps _ (fun n => ?_) (fun n hn => ?_), fun _ _ => .refl _ _⟩
  · unfold stillVar
    split_ifs <;> exact ⟨rfl, rfl⟩
  · have hbuf : n ≠ "/SCADA/Tbuf" := by
      rintro rfl
      exact hn (by decide)
    simp only [stillVar, hbuf, if_false]

theorem still_process (process : Word) (t : Float32) :
    level quiet (still process t).opcs "Process" = process := by
  rw [level, still, reading_serverOf _ "/SCADA/Process" (by decide) (by decide) rfl rfl]
  rfl

theorem still_lastGood (process : Word) (t t₀ : Float32) :
    lastGood quiet (still process t).opcs "Tbuf" t₀ = t := by
  rw [lastGood, still, reading_serverOf _ "/SCADA/Tbuf" (by decide) (by decide) rfl rfl, if_pos rfl]
  exact NumericU.ui32_setUi32 {} t

theorem still_sensed (process : Word) (t : Float32) :
    (sensed quiet (still process t)).process = process ∧
    (sensed quiet (still process t)).tbuf = t ∧
    (sensed quiet (still process t)).tkub0 = Binary32.ofInt 50 := by
  refine ⟨still_process process t, still_lastGood process t 0, ?_⟩
  have hkub1 : lastGood quiet (still process t).opcs "Tkub1" 0 = Binary32.ofInt 50 := by
    rw [lastGood, still, reading_serverOf _ "/SCADA/Tkub1" (by decide) (by decide) rfl rfl, if_pos rfl]
    exact NumericU.ui32_setUi32 {} _
  have hkub2 : lastGood quiet (still process t).opcs "Tkub2" 0 = 0 := by
    rw [lastGood, still, reading_serverOf_none _ (by decide) (by decide)]
    rfl
  have hhigher : (sensed quiet (still process t)).tkub0 =
      if Binary32.lt (lastGood quiet (still process t).opcs "Tkub2" 0)
          (lastGood quiet (still process t).opcs "Tkub1" 0) then
        lastGood quiet (still process t).opcs "Tkub1" 0
      else lastGood quiet (still process t).opcs "Tkub2" 0 := rfl
  rw [hhigher, hkub1, hkub2]
  decide +kernel

theorem still_level (process : Word) (t : Float32) :
    level quiet (still process t).opcs "P_MAX" = 2 ∧ level quiet (still process t).opcs "P_WARM" = 1 := by
  refine ⟨?_, ?_⟩
  · rw [level, still, reading_serverOf _ "/SCADA/P_MAX" (by decide) (by decide) rfl rfl]
    rfl
  · rw [level, still, reading_serverOf _ "/SCADA/P_WARM" (by decide) (by decide) rfl rfl]
    rfl

theorem still_thresholds (process : Word) (t : Float32) :
    temperature quiet (still process t).opcs "T_boil" = Binary32.ofInt 100 ∧
      temperature quiet (still process t).opcs "T_heat" = Binary32.ofInt 100 := by
  refine ⟨?_, ?_⟩
  · rw [temperature, still, reading_serverOf _ "/SCADA/T_boil" (by decide) (by decide) rfl rfl]
    exact NumericU.ui32_setUi32 {} _
  · rw [temperature, still, reading_serverOf _ "/SCADA/T_heat" (by decide) (by decide) rfl rfl]
    exact NumericU.ui32_setUi32 {} _

theorem still_boils (process : Word) (t : Float32) :
    boils quiet (still process t).opcs (Binary32.ofInt 50) = false := by
  obtain ⟨hboil, hstop⟩ := still_thresholds process t
  rw [boils, hboil, hstop]
  decide +kernel

theorem rowMode_dist1Row (m : Word) (t : Float32) :
    rowMode m (dist1Row t (Binary32.ofInt 50)) =
      if Binary32.lt (Binary32.ofInt 40) t then 31
      else if Binary32.lt (Binary32.ofInt 30) t then 21 else 11 := by
  have hkub : tInRange (Binary32.ofInt 50) 0 97 = true ∧
      Binary32.lt (Binary32.ofInt 100) (Binary32.ofInt 50) = false := by decide +kernel
  unfold dist1Row
  rw [hkub.1, hkub.2]
  split_ifs <;> simp_all [rowMode]

theorem rowPower_dist2Row (process : Word) (t' t : Float32) :
    rowPower quiet (still process t').opcs (dist2Row t (Binary32.ofInt 50)) =
      if Binary32.lt t (Binary32.ofInt 40) then 2 else 1 := by
  have hkub : tInRange (Binary32.ofInt 50) 0 80 = true ∧ tInRange (Binary32.ofInt 50) 0 82 = true := by
    decide +kernel
  obtain ⟨hmax, hwarm⟩ := still_level process t'
  unfold dist2Row
  rw [hkub.1, hkub.2]
  split_ifs <;> simp_all [rowPower, configured]

theorem lt_thirty_of_lt_forty {t : Float32} (h : Binary32.lt (Binary32.ofInt 40) t = true) :
    Binary32.lt (Binary32.ofInt 30) t = true := by
  have hunits : Binary32.isNaN (Binary32.ofInt 30) = false ∧
      Binary32.units (Binary32.ofInt 30) < Binary32.units (Binary32.ofInt 40) := by decide +kernel
  simp only [Binary32.lt, Bool.and_eq_true, decide_eq_true_eq] at h ⊢
  exact ⟨⟨by rw [hunits.1]; rfl, h.1.2⟩, hunits.2.trans h.2⟩

/-- What the still writes tells the ranges apart. -/
theorem still_ranges {process : Word} (h : process = 1 ∨ process = 2) {t t' : Float32}
    (hsame : SameDistillation (taskScada quiet (still process t)).2
      (taskScada quiet (still process t')).2) : SameRange process t t' := by
  have hwrites := fun t => taskScada_distills quiet (s := still process t)
    (by rw [still_process]; exact h)
  obtain ⟨hprocess, hbuf, hkub⟩ := still_sensed process t
  obtain ⟨hprocess', hbuf', hkub'⟩ := still_sensed process t'
  obtain ⟨hpower, hmode⟩ := hsame
  rw [(hwrites t).1, (hwrites t').1, Option.some_inj, NumericU.ofUi16_inj] at hpower
  rw [(hwrites t).2, (hwrites t').2, Option.some_inj, NumericU.ofUi16_inj, hkub, hkub', still_boils,
    still_boils] at hmode
  simp only [distRow, hprocess, hprocess', hkub, hkub', Globals.tdef0, hbuf, hbuf'] at hpower hmode
  unfold SameRange
  rcases h with rfl | rfl
  · simp only [if_true, Bool.false_eq_true, if_false, rowMode_dist1Row] at hmode ⊢
    have hforty := @lt_thirty_of_lt_forty t
    have hforty' := @lt_thirty_of_lt_forty t'
    grind
  · have h21 : (2 : Word) ≠ 1 := by decide
    simp only [h21, if_false, rowPower_dist2Row] at hpower ⊢
    grind

/-- Passes of the task one after another, each from whatever server it finds. -/
def runTasks (g : Globals) (passes : List (Env × OpcServer)) : Globals :=
  passes.foldl (fun g e => (taskScada e.1 { opcs := e.2, vars := g }).2.vars) g

/-- The latest good reading of a sensor in passes of the task. -/
def lastGoodOf (svar : String) (t : Float32) (passes : List (Env × OpcServer)) : Float32 :=
  passes.foldl (fun t e => lastGood e.1 e.2 svar t) t

/-- The program leaves the temperatures of `Tbuf` and `Tdef`. -/
def KeepsTemps {α : Type} (m : ScadaM α) : Prop :=
  ∀ s, (m s).2.vars.tbuf = s.vars.tbuf ∧ (m s).2.vars.tdef = s.vars.tdef

namespace KeepsTemps
variable {α β : Type}

theorem bind {m : ScadaM α} {f : α → ScadaM β} (hm : KeepsTemps m) (hf : ∀ a, KeepsTemps (f a)) :
    KeepsTemps (m >>= f) := fun s =>
  ⟨((hf _ _).1).trans (hm s).1, ((hf _ _).2).trans (hm s).2⟩

theorem ofVars {m : ScadaM α} (h : ∀ s, (m s).2.vars = s.vars) : KeepsTemps m := fun s =>
  ⟨congrArg Globals.tbuf (h s), congrArg Globals.tdef (h s)⟩

theorem set {f : Globals → Globals} (h : ∀ g, (f g).tbuf = g.tbuf ∧ (f g).tdef = g.tdef) :
    KeepsTemps (setVars f) := fun s => h s.vars

theorem get : KeepsTemps (MonadState.get : ScadaM ScadaState) := ofVars fun _ => rfl

theorem onlyIf {m : ScadaM Unit} (c : Bool) (h : KeepsTemps m) : KeepsTemps (onlyIf c m) := by
  cases c
  · exact ofVars fun _ => rfl
  · exact h

variable (env : Env)

theorem read (svar : String) : KeepsTemps (readU16 env svar) := ofVars fun _ => rfl

theorem write (svar : String) (x : Word) : KeepsTemps (writeU16 env svar x) := ofVars fun _ => rfl

theorem heat : KeepsTemps (pHeat env) := by
  have hpass : KeepsTemps (heatPass env) :=
    .bind (.ofVars fun _ => rfl) fun _ => .bind (.read env _) fun _ => .bind (.read env _) fun _ =>
      .bind (.set fun _ => ⟨rfl, rfl⟩) fun _ => .bind (.set fun _ => ⟨rfl, rfl⟩) fun _ =>
      .bind (.set fun _ => ⟨rfl, rfl⟩) fun _ => .bind (.set fun _ => ⟨rfl, rfl⟩) fun _ =>
      .bind .get fun _ => .write env _ _
  exact .bind (.set fun _ => ⟨rfl, rfl⟩) fun _ => .bind .get fun _ => .bind (.onlyIf _ hpass) fun _ =>
    .bind .get fun _ => .write env _ _

theorem stage (process : Word) : KeepsTemps (distStage env process) := by
  have hrow : ∀ row, KeepsTemps (applyRow env row) := by
    intro row
    cases row with
    | none => exact .ofVars fun _ => rfl
    | some row =>
        exact .bind (.ofVars fun _ => readLevel_vars env row.svar _) fun _ => .set fun _ => ⟨rfl, rfl⟩
  have hdist : ∀ row, KeepsTemps (dist env row) := fun row =>
    .bind (.set fun _ => ⟨rfl, rfl⟩) fun _ => .bind .get fun _ => hrow _
  unfold distStage
  split_ifs
  · exact hdist dist1Row
  · exact hdist dist2Row
  · exact .ofVars fun _ => rfl

theorem distill : KeepsTemps (pDist env) := by
  have hboil : KeepsTemps (checkBoil env) :=
    .bind (.ofVars fun _ => rfl) fun _ => .bind (.ofVars fun _ => rfl) fun _ => .set fun _ => ⟨rfl, rfl⟩
  have hpass : KeepsTemps (distPass env) :=
    .bind .get fun _ => .bind (.stage env _) fun _ => .bind hboil fun _ => .bind .get fun _ =>
      .write env _ _
  exact .bind (.set fun _ => ⟨rfl, rfl⟩) fun _ => .bind .get fun _ => .bind (.onlyIf _ hpass) fun _ =>
    .bind .get fun _ => .write env _ _

theorem power : KeepsTemps (setPower env) := by
  have hlevel : ∀ r, KeepsTemps (readLevel env r) := fun r => .ofVars fun s => readLevel_vars env r s
  have hrect : KeepsTemps (pRect env) :=
    .bind (.set fun _ => ⟨rfl, rfl⟩) fun _ => .bind .get fun _ => .bind (hlevel _) fun _ =>
      .bind (.set fun _ => ⟨rfl, rfl⟩) fun _ => .bind .get fun _ => .write env _ _
  exact .bind (.set fun _ => ⟨rfl, rfl⟩) fun _ => .bind (.ofVars fun _ => rfl) fun _ =>
    .bind (.heat env) fun _ => .bind (.distill env) fun _ => .bind hrect fun _ => .bind .get fun _ =>
      .bind (hlevel _) fun _ => .bind (.set fun _ => ⟨rfl, rfl⟩) fun _ =>
      .bind (.set fun _ => ⟨rfl, rfl⟩) fun _ => .bind .get fun _ => .write env _ _

end KeepsTemps

/-- A pass leaves the good readings of `Tbuf` and `Tdef`, and older ones for bad readings. -/
theorem taskScada_temps (env : Env) (s : ScadaState) :
    (taskScada env s).2.vars.tbuf = lastGood env s.opcs "Tbuf" s.vars.tbuf ∧
      (taskScada env s).2.vars.tdef = lastGood env s.opcs "Tdef" s.vars.tdef := by
  obtain ⟨hupdate, h₁⟩ := updateProcess_leaves env s
  generalize e₁ : (updateProcess env s).2 = s₁ at hupdate h₁
  obtain ⟨-, h₂⟩ := updateTemps_leaves env s₁
  generalize e₂ : (updateTemps env s₁).2 = s₂ at h₂
  obtain ⟨hbuf, hdef⟩ := KeepsTemps.power env s₂
  simp only [taskScada, bind_apply, e₁, e₂]
  rw [hbuf, hdef, h₂, tempsRead_congr env hupdate.opcs (by decide), h₁]
  exact ⟨rfl, rfl⟩

theorem runTasks_temps (passes : List (Env × OpcServer)) (g : Globals) :
    (runTasks g passes).tbuf = lastGoodOf "Tbuf" g.tbuf passes ∧
      (runTasks g passes).tdef = lastGoodOf "Tdef" g.tdef passes := by
  unfold runTasks lastGoodOf
  induction passes generalizing g with
  | nil => exact ⟨rfl, rfl⟩
  | cons e passes ih =>
      obtain ⟨hbuf, hdef⟩ := taskScada_temps e.1 { opcs := e.2, vars := g }
      have hrest := ih (taskScada e.1 { opcs := e.2, vars := g }).2.vars
      rw [hbuf, hdef] at hrest
      simp only [List.foldl_cons]
      exact hrest

/-- What decides about distillation is `Tbuf`: two readings of it are alike for
every still exactly if the stage of the process has them in one range. And what
the stages use as `Tdef0` is the latest good reading of `Tdef` exactly if it
happens to be the one of `Tbuf`. -/
theorem tbuf_decides_iff {process : Word} (hprocess : process = 1 ∨ process = 2) (t t' : Float32)
    (g : Globals) (passes : List (Env × OpcServer)) :
    ((∀ env env' s s', AlikeBut "Tbuf" env env' s s' → level env s.opcs "Process" = process →
      lastGood env s.opcs "Tbuf" s.vars.tbuf = t → lastGood env' s'.opcs "Tbuf" s'.vars.tbuf = t' →
      SameDistillation (taskScada env s).2 (taskScada env' s').2) ↔ SameRange process t t') ∧
    ((runTasks g passes).tdef0 = lastGoodOf "Tdef" g.tdef passes ↔
      lastGoodOf "Tbuf" g.tbuf passes = lastGoodOf "Tdef" g.tdef passes) := by
  refine ⟨⟨fun h => ?_, ?_⟩, ?_⟩
  · exact still_ranges hprocess (h _ _ _ _ (still_alike process t t') (still_process process t)
      (still_lastGood process t _) (still_lastGood process t' _))
  · rintro hrange env env' s s' halike rfl rfl rfl
    exact distills_alike halike hprocess hrange
  · rw [Globals.tdef0, (runTasks_temps passes g).1]

/-- A server with the two sensors at one temperature. -/
def bothAt (t : Float32) : OpcServer :=
  serverOf ["/SCADA/Tbuf", "/SCADA/Tdef"] (by decide) fun _ =>
    { uaType := .float, node := NumericU.setUi32 {} t }

theorem bothAt_lastGood (t t₀ : Float32) :
    lastGood quiet (bothAt t) "Tbuf" t₀ = t ∧ lastGood quiet (bothAt t) "Tdef" t₀ = t := by
  constructor
  · rw [lastGood, bothAt, reading_serverOf _ "/SCADA/Tbuf" (by decide) (by decide) rfl rfl,
      if_pos rfl]
    exact NumericU.ui32_setUi32 {} t
  · rw [lastGood, bothAt, reading_serverOf _ "/SCADA/Tdef" (by decide) (by decide) rfl rfl,
      if_pos rfl]
    exact NumericU.ui32_setUi32 {} t

/-- At 20 and at 25 degrees a still in process 1 runs alike. And where both sensors
read 20 and then 25, `Tdef0` is what `Tdef` reads. -/
theorem tbuf_decides_cold :
    let passes := [(quiet, bothAt (Binary32.ofInt 20)), (quiet, bothAt (Binary32.ofInt 25))]
    SameDistillation (taskScada quiet (still 1 (Binary32.ofInt 20))).2
      (taskScada quiet (still 1 (Binary32.ofInt 25))).2 ∧
    (runTasks {} passes).tdef0 = lastGoodOf "Tdef" 0 passes := by
  intro passes
  have hiff := tbuf_decides_iff (Or.inl rfl) (Binary32.ofInt 20) (Binary32.ofInt 25) {} passes
  have hrange : SameRange 1 (Binary32.ofInt 20) (Binary32.ofInt 25) := by decide +kernel
  have hboth : lastGoodOf "Tbuf" 0 passes = lastGoodOf "Tdef" 0 passes := by
    simp only [passes, lastGoodOf, List.foldl_cons, List.foldl_nil, bothAt_lastGood]
  exact ⟨hiff.1.mpr hrange _ _ _ _ (still_alike 1 _ _) (still_process 1 _)
    (still_lastGood 1 _ _) (still_lastGood 1 _ _), hiff.2.mpr hboth⟩

/-- A still in process 1 runs differently with `Tbuf` at 20 and at 50 degrees. In
the latter `Tdef0` is 50, and `Tdef` was never read. -/
theorem tbuf_decides_still :
    (¬ ∀ env env' s s', AlikeBut "Tbuf" env env' s s' →
      level env s.opcs "Process" = 1 ∨ level env s.opcs "Process" = 2 →
      SameDistillation (taskScada env s).2 (taskScada env' s').2) ∧
    ¬ ∀ g passes, (runTasks g passes).tdef0 = lastGoodOf "Tdef" g.tdef passes := by
  refine ⟨fun h => ?_, fun h => ?_⟩
  · have hsame := still_ranges (.inl rfl) (h _ _ _ _
      (still_alike 1 (Binary32.ofInt 20) (Binary32.ofInt 50)) (.inl (still_process 1 _)))
    revert hsame
    decide +kernel
  · have hdef := h {} [(quiet, (still 1 (Binary32.ofInt 50)).opcs)]
    have hbuf : lastGoodOf "Tbuf" (0 : Float32) [(quiet, (still 1 (Binary32.ofInt 50)).opcs)] =
        Binary32.ofInt 50 := by
      rw [lastGoodOf, List.foldl_cons, List.foldl_nil, still_lastGood]
    have hnone : lastGoodOf "Tdef" (0 : Float32) [(quiet, (still 1 (Binary32.ofInt 50)).opcs)] = 0 := by
      rw [lastGoodOf, List.foldl_cons, List.foldl_nil, lastGood, still,
        reading_serverOf_none _ (by decide) (by decide)]
      rfl
    rw [Globals.tdef0, (runTasks_temps _ _).1] at hdef
    exact absurd (hbuf.symm.trans (hdef.trans hnone)) (by decide +kernel)

end RwModbus.Scada
