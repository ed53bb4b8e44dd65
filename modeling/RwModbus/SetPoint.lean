import RwModbus.Delivery
import RwModbus.Heating
import RwModbus.Settling

/-!
# From the SCADA task to the heater

`SetPower` writes its set-point into a variable of the server as clients do, only from
inside the gateway: cache and node change together, and the bytes above the word come
from the stack. The rest of the way is that of every written value, through a pass and
a write-out to the device. Other entries over the same word follow.
-/
namespace RwModbus.SetPoint
open Numeric Registers Reg Opc Refresh Master OneWord Sys Scada
open DataFlow (step_attempts writeMaster_sends)
open Settling

/-- The short names that the task reads or writes. -/
def taskNames : List String :=
  ["Process", "Mode", "Tbuf", "Tdef", "Tkub1", "Tkub2", "Ttsa", "Tkub0", "Alarm.T", "Alarm.DS",
    "Alarm.MB", "Pshift", "T_heat", "T_boil", "PID", "P_MAX", "P_WARM", "P_DIST", "P_DIST2",
    "P_DIST3", "P_HEAD", "P_BODY", "P_TAIL", "P.heat", "P.dist", "P.boil", "P.rect", "Pset"]

/-- The variables behind them. -/
def taskVars (o : OpcServer) : Set Name := {t | ∃ svar ∈ taskNames, o.getVarFullName svar.toList = t}

theorem taskVars_congr {V : Set Name} {o o' : OpcServer} (h : OpcServer.Touches V o o') :
    taskVars o' = taskVars o := by
  simp only [taskVars, OpcServer.getVarFullName, h.keys]

/-- A program touches the variables of the task only. -/
def Framed {α : Type} (m : ScadaM α) : Prop :=
  ∀ s, OpcServer.Touches (taskVars s.opcs) s.opcs (m s).2.opcs

section
variable {α β : Type} (env : Env)

theorem framed_pure (a : α) : Framed (pure a) := fun s => .refl _ s.opcs

theorem framed_get : Framed get := fun s => .refl _ s.opcs

theorem framed_setVars (f : Globals → Globals) : Framed (setVars f) := fun s => .refl _ s.opcs

theorem Framed.bind {m : ScadaM α} {f : α → ScadaM β} (hm : Framed m) (hf : ∀ a, Framed (f a)) :
    Framed (m >>= f) := by
  intro s
  have hrest := hf (m s).1 (m s).2
  rw [taskVars_congr (hm s)] at hrest
  exact (hm s).trans hrest

theorem Framed.onlyIf {m : ScadaM Unit} (hm : Framed m) (c : Bool) : Framed (onlyIf c m) := by
  cases c with
  | true => exact hm
  | false => exact framed_pure ()

theorem singleton_subset_taskVars {svar : String} (h : svar ∈ taskNames) (o : OpcServer) :
    {o.getVarFullName svar.toList} ⊆ taskVars o :=
  Set.singleton_subset_iff.mpr ⟨svar, h, rfl⟩

theorem framed_readNumber {svar : String} (h : svar ∈ taskNames) (x : NumericU) :
    Framed (readNumber env svar x) := by
  intro s
  apply OpcServer.Touches.mono _ (singleton_subset_taskVars h s.opcs)
  simp only [readNumber, OpcServer.readNumber_fst]
  exact OpcServer.refreshRawValue_touches _ _ _

theorem framed_writeNumber {svar : String} (h : svar ∈ taskNames) (n : ℕ) (x : NumericU) :
    Framed (writeNumber env svar n x) :=
  fun s => (OpcServer.writeNumber_touches _ _ _ _).mono (singleton_subset_taskVars h s.opcs)

theorem framed_writeU16 {svar : String} (h : svar ∈ taskNames) (x : Word) :
    Framed (writeU16 env svar x) :=
  fun s => (OpcServer.writeValue_touches _ _ _ _ _).mono (singleton_subset_taskVars h s.opcs)

theorem framed_readU16 {svar : String} (h : svar ∈ taskNames) : Framed (readU16 env svar) :=
  (framed_readNumber env h _).bind fun _ => framed_pure _

theorem framed_readInt {svar : String} (h : svar ∈ taskNames) : Framed (readInt env svar) :=
  (framed_readNumber env h _).bind fun _ => framed_pure _

theorem framed_readFloat {svar : String} (h : svar ∈ taskNames) : Framed (readFloat env svar) :=
  (framed_readNumber env h _).bind fun _ => framed_pure _

theorem framed_readLevel {r : Option String} (h : ∀ svar ∈ r, svar ∈ taskNames) :
    Framed (readLevel env r) := by
  cases r with
  | none => exact framed_pure 0
  | some svar => exact framed_readU16 env (h svar rfl)

theorem framed_addAlarm {alarmName : String} (h : alarmName ∈ taskNames) :
    Framed (addAlarm env alarmName) :=
  (framed_readNumber env h _).bind fun _ => framed_writeNumber env h _ _

theorem framed_readTemp {svar : String} (h : svar ∈ taskNames)
    (set : Scada.Float32 → Globals → Globals) : Framed (readTemp env svar set) := by
  apply (framed_readNumber env h _).bind
  intro r
  cases r.2 with
  | true =>
      apply (framed_setVars _).bind fun _ => ?_
      apply ((framed_addAlarm env (by decide)).onlyIf _).bind fun _ => ?_
      exact ((framed_addAlarm env (by decide)).onlyIf _).bind fun _ => framed_pure _
  | false => exact (framed_addAlarm env (by decide)).bind fun _ => framed_pure _

theorem framed_readTemps {es : List (String × (Scada.Float32 → Globals → Globals))}
    (h : ∀ e ∈ es, e.1 ∈ taskNames) (n : Word) : Framed (readTemps env es n) := by
  induction es generalizing n with
  | nil => exact framed_pure n
  | cons e es ih =>
      obtain ⟨he, hes⟩ := List.forall_mem_cons.mp h
      exact (framed_readTemp env he e.2).bind fun _ => ih hes _

theorem tempMap_names : ∀ e ∈ tempMap, e.1 ∈ taskNames := by
  simp [tempMap, taskNames]

theorem framed_updateTemps : Framed (updateTemps env) := by
  apply (framed_readTemps env tempMap_names 0).bind fun _ => ?_
  apply (framed_setVars _).bind fun _ => ?_
  apply framed_get.bind fun _ => ?_
  exact (framed_writeNumber env (by decide) _ _).bind fun _ => framed_pure _

theorem framed_updateProcess : Framed (updateProcess env) := by
  apply (framed_readU16 env (by decide)).bind fun _ => ?_
  apply (framed_setVars _).bind fun _ => ?_
  exact (framed_readU16 env (by decide)).bind fun _ => framed_setVars _

theorem framed_heatPass : Framed (heatPass env) := by
  apply (framed_readFloat env (by decide)).bind fun _ => ?_
  apply (framed_readU16 env (by decide)).bind fun _ => ?_
  apply (framed_readU16 env (by decide)).bind fun _ => ?_
  apply (framed_setVars _).bind fun _ => ?_
  apply (framed_setVars _).bind fun _ => ?_
  apply (framed_setVars _).bind fun _ => ?_
  apply (framed_setVars _).bind fun _ => ?_
  exact framed_get.bind fun _ => framed_writeU16 env (by decide) _

theorem framed_pHeat : Framed (pHeat env) := by
  apply (framed_setVars _).bind fun _ => ?_
  apply framed_get.bind fun _ => ?_
  apply ((framed_heatPass env).onlyIf _).bind fun _ => ?_
  exact framed_get.bind fun _ => framed_writeU16 env (by decide) _

theorem distRow_names {row : DistRow} {tdef0 tkub0 : Scada.Float32}
    (h : dist1Row tdef0 tkub0 = some row ∨ dist2Row tdef0 tkub0 = some row) :
    ∀ svar ∈ row.svar, svar ∈ taskNames := by
  intro svar hs
  have hnames : ∀ svar ∈ ["P_DIST", "P_TAIL", "P_WARM", "P_MAX", "P_DIST2", "P_DIST3"],
      svar ∈ taskNames := by
    decide
  apply hnames
  unfold dist1Row dist2Row at h
  grind

theorem rectLevel_names (m : Word) : ∀ svar ∈ rectLevel m, svar ∈ taskNames := by
  intro svar h
  have hnames : ∀ svar ∈ ["P_MAX", "P_WARM", "P_HEAD", "P_BODY", "P_TAIL"], svar ∈ taskNames := by
    decide
  exact hnames svar (rectLevel_plain m svar h)

theorem powerVar_names (process : Word) : ∀ svar ∈ powerVar process, svar ∈ taskNames := by
  intro svar h
  have hnames : ∀ svar ∈ ["P.dist", "P.heat", "P.boil", "P.rect"], svar ∈ taskNames := by decide
  apply hnames
  unfold powerVar at h
  grind

theorem framed_dist {row : Scada.Float32 → Scada.Float32 → Option DistRow}
    (h : ∀ t t' r, row t t' = some r → ∀ svar ∈ r.svar, svar ∈ taskNames) : Framed (dist env row) := by
  apply (framed_setVars _).bind fun _ => ?_
  apply framed_get.bind
  intro s
  change Framed (applyRow env (row s.vars.tdef0 s.vars.tkub0))
  cases hr : row s.vars.tdef0 s.vars.tkub0 with
  | none => exact framed_pure ()
  | some r => exact (framed_readLevel env (h _ _ r hr)).bind fun _ => framed_setVars _

theorem framed_distStage (process : Word) : Framed (distStage env process) := by
  unfold distStage
  split_ifs
  · exact framed_dist env fun _ _ _ hr => distRow_names (Or.inl hr)
  · exact framed_dist env fun _ _ _ hr => distRow_names (Or.inr hr)
  · exact framed_pure ()

theorem framed_checkBoil : Framed (checkBoil env) := by
  apply (framed_readFloat env (by decide)).bind fun _ => ?_
  exact (framed_readFloat env (by decide)).bind fun _ => framed_setVars _

theorem framed_distPass : Framed (distPass env) := by
  apply framed_get.bind fun _ => ?_
  apply (framed_distStage env _).bind fun _ => ?_
  apply (framed_checkBoil env).bind fun _ => ?_
  exact framed_get.bind fun _ => framed_writeU16 env (by decide) _

theorem framed_pDist : Framed (pDist env) := by
  apply (framed_setVars _).bind fun _ => ?_
  apply framed_get.bind fun _ => ?_
  apply ((framed_distPass env).onlyIf _).bind fun _ => ?_
  exact framed_get.bind fun _ => framed_writeU16 env (by decide) _

theorem framed_pRect : Framed (pRect env) := by
  apply (framed_setVars _).bind fun _ => ?_
  apply framed_get.bind fun _ => ?_
  apply (framed_readLevel env (rectLevel_names _)).bind fun _ => ?_
  apply (framed_setVars _).bind fun _ => ?_
  exact framed_get.bind fun _ => framed_writeU16 env (by decide) _

/-- What `SetPower` does before it writes the set-point. -/
def choosePset : ScadaM Unit := do
  setVars fun g => { g with pset := 0 }
  let pshift ← readInt env "Pshift"
  pHeat env
  pDist env
  pRect env
  let p ← readLevel env (powerVar (← get).vars.process)
  setVars fun g => { g with pset := p }
  setVars fun g => { g with pset := shiftPset g.process pshift g.pset }

theorem framed_choosePset : Framed (choosePset env) := by
  apply (framed_setVars _).bind fun _ => ?_
  apply (framed_readInt env (by decide)).bind fun _ => ?_
  apply (framed_pHeat env).bind fun _ => ?_
  apply (framed_pDist env).bind fun _ => ?_
  apply (framed_pRect env).bind fun _ => ?_
  apply framed_get.bind fun _ => ?_
  apply (framed_readLevel env (powerVar_names _)).bind fun _ => ?_
  exact (framed_setVars _).bind fun _ => framed_setVars _

theorem setPower_eq (s : ScadaState) : setPower env s =
    writeU16 env "Pset" (choosePset env s).2.vars.pset (choosePset env s).2 := by
  simp only [setPower, choosePset, bind_apply, get_apply]

/-- What the task does before it writes the set-point. -/
def beforePset : ScadaM Unit := do
  updateProcess env
  let _err ← updateTemps env
  choosePset env

theorem framed_beforePset : Framed (beforePset env) := by
  apply (framed_updateProcess env).bind fun _ => ?_
  exact (framed_updateTemps env).bind fun _ => framed_choosePset env

/-- A pass of the task ends with the write of the set-point. -/
theorem taskScada_ends (s : ScadaState) : (taskScada env s).2 =
    (writeU16 env "Pset" (beforePset env s).2.vars.pset (beforePset env s).2).2 := by
  simp only [taskScada, beforePset, bind_apply, setPower_eq]

end

/-- The running gateway with the globals of the SCADA task. -/
structure Plant where
  sys : System
  vars : Globals

inductive Action where
  | sys (e : Event)
  | scada (env : Env)

/-- What a pass of the task leaves. -/
def Plant.task (P : Plant) (env : Env) : ScadaState :=
  (taskScada env ⟨P.sys.gateway.opcs, P.vars, []⟩).2

theorem Plant.task_ends (P : Plant) (env : Env) :
    ∃ t, OpcServer.Touches (taskVars P.sys.gateway.opcs) P.sys.gateway.opcs t.opcs ∧
      P.task env = (writeU16 env "Pset" t.vars.pset t).2 :=
  ⟨_, framed_beforePset env ⟨P.sys.gateway.opcs, P.vars, []⟩, taskScada_ends env _⟩

theorem Plant.task_touches (P : Plant) (env : Env) :
    OpcServer.Touches (taskVars P.sys.gateway.opcs) P.sys.gateway.opcs (P.task env).opcs := by
  obtain ⟨t, htouch, htask⟩ := P.task_ends env
  have hmem : "Pset" ∈ taskNames := by decide
  have hwrite := framed_writeU16 env hmem t.vars.pset t
  rw [taskVars_congr htouch] at hwrite
  rw [htask]
  exact htouch.trans hwrite

-- the runs below take a pass of the task as one step
attribute [irreducible] Plant.task

def act (P : Plant) : Action → Plant
  | .sys e => { P with sys := Sys.step P.sys e }
  | .scada env =>
      { sys := { P.sys with gateway := { P.sys.gateway with opcs := (P.task env).opcs } }
        vars := (P.task env).vars }

/-- The set-point that a pass of the task computes. -/
def Plant.pset (P : Plant) (env : Env) : Word := (P.task env).vars.pset

/-- All is well with the device and the followers; the task is free. -/
def Fair (n : Name) (p : RegPtr) (P : Plant) : Action → Prop
  | .sys e => Sound n p P.sys e
  | .scada _ => True

def Unwritten (t : Name) (s : System) : Event → Prop
  | .clientWrite u _ => u ≠ t
  | .writeValue u _ _ => s.gateway.opcs.getVarFullName u ≠ t
  | _ => True

/-- Nobody else writes to the entry's variable, and the task stays with its set-point. -/
def Spared (n : Name) (p : RegPtr) (x : Word) (P : Plant) : Action → Prop
  | .sys e => Sound n p P.sys e ∧ Unwritten (P.sys.gateway.regmap.val n).strOpcname P.sys e
  | .scada env => P.pset env = x

/-- The task writes the variable of entry `n` under `Pset`, and none of the followers'. -/
structure Driven (n : Name) (p : RegPtr) (s : System) : Prop extends Wired n p s where
  name : s.gateway.opcs.getVarFullName "Pset".toList = (s.gateway.regmap.val n).strOpcname
  others : ∀ m ∈ s.gateway.regmap.keys, p ∈ (s.gateway.regmap.val m).sources → m ≠ n →
    (s.gateway.regmap.val m).strOpcname ∉ taskVars s.gateway.opcs

/-- Node and cache have it. -/
structure Shown (n : Name) (p : RegPtr) (x : Word) (s : System) : Prop extends Driven n p s where
  node : (s.gateway.var n).node.ui16 = x
  cache : (s.gateway.var n).rawValue.ui16 = x

/-- And the entry has nothing to publish over it. -/
structure Chosen (n : Name) (p : RegPtr) (x : Word) (s : System) : Prop extends Shown n p x s where
  quiet : (slotOf n p s).Quiet

/-- The local value and the PLC's word have it too. -/
structure Ordered (n : Name) (p : RegPtr) (x : Word) (s : System) : Prop extends Shown n p x s where
  localVal : (s.gateway.regmap.val n).number.ui16 = x
  word : (s.gateway.plcs.data p).rvalue = x

/-- Nothing is pending. -/
structure Sent (n : Name) (p : RegPtr) (x : Word) (s : System) : Prop extends Ordered n p x s where
  rupdate : (s.gateway.plcs.data p).rupdate = 0

/-- The set-point is everywhere, the device included. -/
structure Everywhere (n : Name) (p : RegPtr) (x : Word) (s : System) : Prop where
  node : (s.gateway.var n).node.ui16 = x
  cache : (s.gateway.var n).rawValue.ui16 = x
  localVal : (s.gateway.regmap.val n).number.ui16 = x
  word : (s.gateway.plcs.data p).rvalue = x
  device : s.devices p.plc p.raddr = x

variable {n : Name} {p : RegPtr} {x : Word} {s : System} {P : Plant}

theorem Driven.of_config (h : Driven n p s) {s' : System} (hw : Wired n p s')
    (hc : s.gateway.SameConfig s'.gateway) : Driven n p s' := by
  refine ⟨hw, ?_, fun m hm hp hmn => ?_⟩
  · rw [OpcServer.getVarFullName, hc.opcs.keys, hc.defs]
    exact h.name
  · rw [hc.keys] at hm
    rw [hc.defs] at hp
    rw [hc.defs, taskVars_congr hc.opcs]
    exact h.others m hm hp hmn

theorem Driven.step (h : Driven n p s) {e : Event} (hok : Sound n p s e) :
    Driven n p (Sys.step s e) :=
  h.of_config (h.toWired.step hok) (step_sameConfig s e)

/-- Work on the task's variables that puts `x` into the entry's. -/
theorem Driven.served (h : Driven n p s) {o : OpcServer}
    (ho : OpcServer.Touches (taskVars s.gateway.opcs) s.gateway.opcs o)
    (hua : (o.vars.val (s.gateway.regmap.val n).strOpcname).uaStatus = statusGood)
    (hnode : (o.vars.val (s.gateway.regmap.val n).strOpcname).node.ui16 = x)
    (hcache : (o.vars.val (s.gateway.regmap.val n).strOpcname).rawValue.ui16 = x) :
    Shown n p x { s with gateway := { s.gateway with opcs := o } } := by
  have huniv := ho.mono (Set.subset_univ _)
  have hkept : ∀ m ∈ s.gateway.regmap.keys, p ∈ (s.gateway.regmap.val m).sources → m ≠ n →
      o.vars.val (s.gateway.regmap.val m).strOpcname = s.gateway.var m :=
    fun m hm hp hmn => ho.others _ (h.others m hm hp hmn)
  have hteam : Team n p { s.gateway with opcs := o } := by
    apply h.toTeam.of_opcs huniv
    · intro m hm hp
      by_cases hmn : m = n
      · rw [hmn]
        exact hua
      · rw [hkept m hm hp hmn]
        exact h.uaStatus m hm hp
    · intro m hm hp hmn
      obtain ⟨y, hy⟩ := h.follows m hm hp hmn
      exact ⟨y, hy.congr (hkept m hm hp hmn) rfl⟩
  exact ⟨h.of_config ⟨hteam, h.registered, h.synced⟩ (setOpcs_sameConfig huniv), hnode, hcache⟩

/-- A 16-bit write by a program, with whatever follows the number on the stack. -/
theorem writeU16_val (env : Env) {svar : String} {v : Name} {t : ScadaState}
    (hname : t.opcs.getVarFullName svar.toList = v) (hvar : t.opcs.isVariable v = true)
    (hwr : t.opcs.wrStatus v = statusGood) (y : Word) :
    let u := (writeU16 env svar y t).2.opcs.vars.val v
    u.uaStatus = statusGood ∧ u.node.ui16 = y ∧ u.rawValue.ui16 = y := by
  subst hname
  set bytes := NumericU.overlay 1 (.ofUi16 y) (env.stack svar) with hbytes
  have hopcs : (writeU16 env svar y t).2.opcs =
      OpcServer.writeValue (env.node (t.opcs.getVarFullName svar.toList)) svar.toList bytes true
        t.opcs := rfl
  have hword : bytes.ui16 = y := by
    simp [hbytes, NumericU.overlay, NumericU.ui16, NumericU.ofUi16]
  have hwords := (t.opcs.vars.val (t.opcs.getVarFullName svar.toList)).uaType.words_pos
  rw [hopcs, OpcServer.writeValue_val hvar, OpcServer.writeVariable_accepted hwr]
  refine ⟨rfl, ?_, hword⟩
  rw [← hword]
  simp [NumericU.typed, NumericU.ui16, hwords]

/-- A pass of the task leaves its set-point in node and cache. -/
theorem Driven.scada (h : Driven n p P.sys) (env : Env) :
    Shown n p (P.pset env) (act P (.scada env)).sys := by
  obtain ⟨t, htouch, htask⟩ := P.task_ends env
  have hname : t.opcs.getVarFullName "Pset".toList = (P.sys.gateway.regmap.val n).strOpcname := by
    rw [OpcServer.getVarFullName, htouch.keys]
    exact h.name
  have hvar : t.opcs.isVariable (P.sys.gateway.regmap.val n).strOpcname = true := by
    rw [htouch.isVariable]
    exact h.lead.isVar
  have hwr : t.opcs.wrStatus (P.sys.gateway.regmap.val n).strOpcname = statusGood := by
    rw [htouch.wrStatus]
    exact h.accepts n h.mem h.leads
  obtain ⟨hua, hnode, hcache⟩ := writeU16_val env hname hvar hwr t.vars.pset
  have hpset : P.pset env = t.vars.pset := by rw [Plant.pset, htask, writeU16_vars]
  rw [← htask] at hua hnode hcache
  rw [hpset]
  exact h.served (P.task_touches env) hua hnode hcache

theorem Driven.act (h : Driven n p P.sys) {a : Action} (hok : Fair n p P a) :
    Driven n p (act P a).sys := by
  cases a with
  | sys e => exact h.step hok
  | scada env => exact (h.scada env).toDriven

/-- A refresh of the cache from the node, with any bytes above the word. -/
theorem refreshVar_word {u : UaVar} (hwords : u.uaType.words = 1) (hnode : u.node.ui16 = x)
    (hcache : u.rawValue.ui16 = x) (data : Option NumericU) :
    (OpcServer.refreshVar data u).node.ui16 = x ∧ (OpcServer.refreshVar data u).rawValue.ui16 = x := by
  cases data with
  | none => exact ⟨hnode, hcache⟩
  | some beyond =>
      refine ⟨hnode, ?_⟩
      rw [OpcServer.refreshVar, hwords, ← hnode]
      rfl

/-- The spared steps that are no passes leave node and cache. -/
theorem Shown.step_other (hs : Shown n p x s) {e : Event} (hok : Sound n p s e)
    (hfree : Unwritten (s.gateway.regmap.val n).strOpcname s e) (he : IsPass e = false) :
    Shown n p x (Sys.step s e) := by
  have hdriven := hs.toDriven.step hok
  cases e with
  | pass data => exact Bool.noConfusion he
  | clientWrite t w =>
      have hvar : (Sys.step s (.clientWrite t w)).gateway.var n = s.gateway.var n :=
        (OpcServer.clientWrite_touches t w _).others _ fun hm => hfree (Set.mem_singleton_iff.mp hm).symm
      exact ⟨hdriven, hvar ▸ hs.node, hvar ▸ hs.cache⟩
  | writeValue t w data =>
      have hvar : (Sys.step s (.writeValue t w data)).gateway.var n = s.gateway.var n :=
        (OpcServer.writeValue_touches data t w true _).others _
          fun hm => hfree (Set.mem_singleton_iff.mp hm).symm
      exact ⟨hdriven, hvar ▸ hs.node, hvar ▸ hs.cache⟩
  | refreshAll data =>
      have hvar : (Sys.step s (.refreshAll data)).gateway.var n = _ :=
        OpcServer.refreshAllValues_val hs.lead.isVar data
      obtain ⟨hnode, hcache⟩ := refreshVar_word hs.lead.words hs.node hs.cache
        (data (s.gateway.regmap.val n).strOpcname)
      exact ⟨hdriven, hvar ▸ hnode, hvar ▸ hcache⟩
  | poll i env => exact ⟨hdriven, hs.node, hs.cache⟩
  | writeOut i env => exact ⟨hdriven, hs.node, hs.cache⟩

theorem Driven.pass (h : Driven n p s) (data : ReadData) : Driven n p (Sys.step s (.pass data)) :=
  h.of_config (h.toWired.pass data) (step_sameConfig s (.pass data))

/-- A pass leaves them if it has nothing to publish, or the same word. -/
theorem Shown.pass (hs : Shown n p x s)
    (hor : (slotOf n p s).Quiet ∨ (s.gateway.plcs.data p).rvalue = x) (data : ReadData) :
    Shown n p x (Sys.step s (.pass data)) := by
  have hvar : (Sys.step s (.pass data)).gateway.var n = _ := congrArg Port.var (hs.pass_port data)
  have hdriven := hs.toDriven.pass data
  by_cases hq : (slotOf n p s).Quiet
  · have hkept := hvar.trans (if_pos hq)
    exact ⟨hdriven, (congrArg (·.node.ui16) hkept).trans hs.node,
      (congrArg (·.rawValue.ui16) hkept).trans hs.cache⟩
  · have hpublished := hvar.trans (if_neg hq)
    have hword := hor.resolve_left hq
    exact ⟨hdriven, (congrArg (·.node.ui16) hpublished).trans hword,
      (congrArg (·.rawValue.ui16) hpublished).trans hword⟩

/-- A pass brings the cache's word to the local value and to the PLC. -/
theorem Shown.ordered (hs : Shown n p x s) {data : ReadData}
    (hafter : Shown n p x (Sys.step s (.pass data)))
    (hsame : (s.gateway.var n).rawValue = (s.gateway.regmap.val n).number →
      (s.gateway.plcs.data p).rvalue = x) : Ordered n p x (Sys.step s (.pass data)) := by
  have hnumber : ((Sys.step s (.pass data)).gateway.regmap.val n).number = _ :=
    congrArg Port.number (hs.pass_port data)
  have hdata : (Sys.step s (.pass data)).gateway.plcs.data p = _ :=
    congrArg Port.reg (hs.pass_port data)
  by_cases hc : (s.gateway.var n).rawValue = (s.gateway.regmap.val n).number
  · exact ⟨hafter, (congrArg NumericU.ui16 (hnumber.trans (if_pos hc))).trans (hsame hc),
      (congrArg Mbregdata.rvalue (hdata.trans (if_pos hc))).trans (hsame hc)⟩
  · refine ⟨hafter, (congrArg NumericU.ui16 (hnumber.trans (if_neg hc))).trans hs.cache, ?_⟩
    rw [hdata.trans (if_neg hc)]
    exact (setReg_rvalue hs.lead.rmode).trans hs.cache

theorem Chosen.pass (hs : Chosen n p x s) (data : ReadData) :
    Ordered n p x (Sys.step s (.pass data)) := by
  apply hs.ordered (hs.toShown.pass (Or.inl hs.quiet) data)
  intro hc
  have hword := congrArg NumericU.ui16 (hc.trans hs.quiet.1)
  exact hword.symm.trans hs.cache

theorem Ordered.pass (hs : Ordered n p x s) (data : ReadData) :
    Ordered n p x (Sys.step s (.pass data)) :=
  hs.ordered (hs.toShown.pass (Or.inr hs.word) data) fun _ => hs.word

theorem Sent.pass (hs : Sent n p x s) (data : ReadData) : Sent n p x (Sys.step s (.pass data)) := by
  refine ⟨hs.toOrdered.pass data, ?_⟩
  have hdata : (Sys.step s (.pass data)).gateway.plcs.data p = _ :=
    congrArg Port.reg (hs.pass_port data)
  by_cases hc : (s.gateway.var n).rawValue = (s.gateway.regmap.val n).number
  · exact (congrArg Mbregdata.rupdate (hdata.trans (if_pos hc))).trans hs.rupdate
  · rw [hdata.trans (if_neg hc)]
    have hkept := setReg_of_eq hs.lead.rmode (hs.word.trans hs.cache.symm)
    exact (congrArg Mbregdata.rupdate hkept).trans hs.rupdate

theorem quiet_congr {s' : System} (hrm : s'.gateway.regmap.val n = s.gateway.regmap.val n)
    (hword : (s'.gateway.plcs.data p).rvalue = (s.gateway.plcs.data p).rvalue) :
    (slotOf n p s').Quiet ↔ (slotOf n p s).Quiet := by
  rw [slotOf, Port.slot, port, Slot.Quiet, hrm, hword]
  rfl

/-- Work on the server alone leaves what is to publish. -/
theorem quiet_served (o : OpcServer) :
    (slotOf n p { s with gateway := { s.gateway with opcs := o } }).Quiet ↔ (slotOf n p s).Quiet :=
  quiet_congr rfl rfl

theorem Chosen.act (hs : Chosen n p x P.sys) {a : Action} (hq : Spared n p x P a) :
    Chosen n p x (act P a).sys ∨ Ordered n p x (act P a).sys := by
  cases a with
  | scada env =>
      have hshown := hs.scada env
      rw [hq] at hshown
      exact Or.inl ⟨hshown, (quiet_served _).mpr hs.quiet⟩
  | sys e =>
      cases he : IsPass e with
      | false =>
          obtain ⟨hrm, hword⟩ := hs.entry_step hq.1 he
          exact Or.inl ⟨hs.step_other hq.1 hq.2 he, (quiet_congr hrm hword).mpr hs.quiet⟩
      | true =>
          obtain ⟨data, rfl⟩ := eq_pass he
          exact Or.inr (hs.pass data)

theorem Ordered.act (hs : Ordered n p x P.sys) {a : Action} (hq : Spared n p x P a) :
    Ordered n p x (act P a).sys := by
  cases a with
  | scada env =>
      have hshown := hs.scada env
      rw [hq] at hshown
      exact ⟨hshown, hs.localVal, hs.word⟩
  | sys e =>
      cases he : IsPass e with
      | false =>
          obtain ⟨hrm, hword⟩ := hs.entry_step hq.1 he
          exact ⟨hs.step_other hq.1 hq.2 he, hrm ▸ hs.localVal, hword.trans hs.word⟩
      | true =>
          obtain ⟨data, rfl⟩ := eq_pass he
          exact hs.pass data

theorem Sent.act (hs : Sent n p x P.sys) {a : Action} (hq : Spared n p x P a) :
    Sent n p x (act P a).sys := by
  have hordered := hs.toOrdered.act hq
  cases a with
  | scada env => exact ⟨hordered, hs.rupdate⟩
  | sys e =>
      cases e with
      | pass data => exact hs.pass data
      | clientWrite t w => exact ⟨hordered, hs.rupdate⟩
      | writeValue t w data => exact ⟨hordered, hs.rupdate⟩
      | refreshAll data => exact ⟨hordered, hs.rupdate⟩
      | poll i env =>
          exact ⟨hordered, (congrArg Mbregdata.rupdate (hs.poll_data hq.1.1)).trans hs.rupdate⟩
      | writeOut i env =>
          refine ⟨hordered, ?_⟩
          cases hs.writeOut_data hq.1.1 with
          | inl hkept => exact (congrArg Mbregdata.rupdate hkept.1).trans hs.rupdate
          | inr hsent => exact congrArg Mbregdata.rupdate hsent.1

/-- The next write-out brings the word to the device. -/
theorem Ordered.sent (hs : Ordered n p x P.sys) {out : ℤ → ℕ → WriteAttempt}
    (hatt : 1 ≤ (P.sys.gateway.plcs p.plc).attempts)
    (hq : Spared n p x P (.sys (.writeOut p.plc out))) :
    Sent n p x (Sys.step P.sys (.writeOut p.plc out)) := by
  refine ⟨hs.act hq, ?_⟩
  have hmode : (((P.sys.gateway.plcs p.plc).regs.val p.raddr).data).rmode ≠ 0 :=
    ne_of_eq_of_ne hs.lead.rmode one_ne_zero
  have hdata : (Sys.step P.sys (.writeOut p.plc out)).gateway.plcs.data p = _ :=
    setPlc_data P.sys.gateway p.plc (writeMaster out (P.sys.gateway.plcs p.plc)).1 p
  rw [hdata, if_pos rfl]
  exact writeMaster_sends hs.registered hmode hatt (hq.1.1 rfl)

theorem Sent.everywhere (hs : Sent n p x s) : Everywhere n p x s :=
  ⟨hs.node, hs.cache, hs.localVal, hs.word, (hs.synced hs.rupdate).symm.trans hs.word⟩

theorem act_attempts (a : Action) (i : ℕ) :
    ((act P a).sys.gateway.plcs i).attempts = (P.sys.gateway.plcs i).attempts := by
  cases a with
  | sys e => exact step_attempts P.sys e i
  | scada env => rfl

theorem run_attempts (es : List Action) (i : ℕ) :
    ((Runs.run act P es).sys.gateway.plcs i).attempts = (P.sys.gateway.plcs i).attempts :=
  Runs.invariant
    (I := fun Q : Plant => (Q.sys.gateway.plcs i).attempts = (P.sys.gateway.plcs i).attempts)
    (fun _ a hq => (act_attempts a i).trans hq) es rfl

/-- The set-point has left the task. -/
def Underway (n : Name) (p : RegPtr) (x : Word) (Q : Plant) : Prop :=
  Chosen n p x Q.sys ∨ Ordered n p x Q.sys

theorem Underway.act (hs : Underway n p x P) {a : Action} (hq : Spared n p x P a) :
    Underway n p x (act P a) :=
  hs.elim (fun hc => hc.act hq) fun ho => Or.inr (ho.act hq)

theorem Underway.pass (hs : Underway n p x P) (data : ReadData) :
    Ordered n p x (SetPoint.act P (.sys (.pass data))).sys :=
  hs.elim (fun hc => hc.pass data) fun ho => ho.pass data

/-- A set-point on its way gets everywhere with the next pass and a later write-out. -/
theorem Underway.arrives (hs : Underway n p x P) (hatt : 1 ≤ (P.sys.gateway.plcs p.plc).attempts)
    {before later after : List Action} {d : ReadData} {out : ℤ → ℕ → WriteAttempt}
    (hspared : Runs.Along SetPoint.act (Spared n p x) P
      (before ++ .sys (.pass d) :: (later ++ .sys (.writeOut p.plc out) :: after))) :
    Everywhere n p x (Runs.run SetPoint.act P (before ++ .sys (.pass d) ::
      (later ++ .sys (.writeOut p.plc out) :: after))).sys := by
  rw [Runs.run_append, Runs.run_cons, Runs.run_append, Runs.run_cons]
  obtain ⟨hbefore, -, hrest⟩ := Runs.along_append.mp hspared
  obtain ⟨hlater, hout, hafter⟩ := Runs.along_append.mp hrest
  have hunderway : Underway n p x (Runs.run SetPoint.act P before) :=
    hbefore.invariant (fun _ _ hq hok => hq.act hok) hs
  have hordered := hlater.invariant (I := fun Q => Ordered n p x Q.sys)
    (fun _ _ hq hok => hq.act hok) (hunderway.pass d)
  have hsent := hordered.sent (by rwa [run_attempts, act_attempts, run_attempts]) hout
  exact (hafter.invariant (I := fun Q => Sent n p x Q.sys) (fun _ _ hq hok => hq.act hok)
    hsent).everywhere

theorem Driven.run (h : Driven n p P.sys) {es : List Action}
    (hes : Runs.Along SetPoint.act (Fair n p) P es) : Driven n p (Runs.run SetPoint.act P es).sys :=
  hes.invariant (I := fun Q => Driven n p Q.sys) (fun _ _ hq hok => hq.act hok) h

/-- A pass of the task over an entry with nothing to publish sets its set-point on its way. -/
theorem Driven.underway (h : Driven n p P.sys) (hquiet : (slotOf n p P.sys).Quiet) (env : Env) :
    Underway n p (P.pset env) (SetPoint.act P (.scada env)) :=
  Or.inl ⟨h.scada env, (quiet_served _).mpr hquiet⟩

def kubPath : Name := ['/', 'K', 'u', 'b', '.', 'P', 's', 'e', 't']

def processPath : Name := ['/', 'P', 'r', 'o', 'c', 'e', 's', 's']

def psetPath : Name := ['/', 'P', 's', 'e', 't']

theorem slash_mem_kub : '/' ∈ kubPath := List.mem_cons_self

theorem slash_mem_pset : '/' ∈ psetPath := List.mem_cons_self

/-- The PLC's own entry over the heater's word. -/
def kubPset : RegC where
  toRegDef := .ofModbus ⟨0, 0⟩ 1 kubPath slash_mem_kub
  number := .ofUi16 5

/-- The task's entry with the PLC's as its source. -/
def scadaPset : RegC where
  toRegDef := .ofSource (smallPlc_linked { rvalue := 5, rmode := 1 }) (some ⟨0, 0⟩) typeU16 row_u16 1
    psetPath slash_mem_pset
  number := .ofUi16 5

theorem entries_ascending : ([['k'], ['p']] : List Name).Pairwise (· < ·) := by decide

theorem paths_ascending : [kubPath, processPath, psetPath].Pairwise (· < ·) := by decide

/-- The heater's word with both entries, and the variable of the process; the other names
of the task have none. -/
def heater : Plant where
  sys :=
    { gateway :=
        { plcs := fun _ => smallPlc { rvalue := 5, rmode := 1 }
          regmap := ⟨[['k'], ['p']], entries_ascending, fun m =>
            if m = ['k'] then kubPset else scadaPset⟩
          opcs := ⟨⟨[kubPath, processPath, psetPath], paths_ascending, fun _ =>
            { uaType := .uint16, rawValue := .ofUi16 5, node := .ofUi16 5 }⟩, fun _ => statusGood⟩ }
      devices := fun _ _ => 5 }
  vars := {}

theorem heater_kub : heater.sys.gateway.regmap.val ['k'] = kubPset := rfl

theorem mem_heater {m : Name} (hm : m ∈ heater.sys.gateway.regmap.keys) :
    m = ['k'] ∨ m = ['p'] := by
  simpa [heater] using hm

theorem kubPset_vars : varsOf kubPset.toRegDef = {kubPath} := by
  have hmillis : ¬ millisSuffix <:+ kubPath := by decide
  ext t
  exact or_iff_left fun h => hmillis h.1

theorem scadaPset_vars : varsOf scadaPset.toRegDef = {psetPath} := by
  have hmillis : ¬ millisSuffix <:+ psetPath := by decide
  ext t
  exact or_iff_left fun h => hmillis h.1

theorem heater_exposes {m : Name} (hm : m ∈ heater.sys.gateway.regmap.keys) :
    Exposes heater.sys.gateway m ⟨0, 0⟩ := by
  cases mem_heater hm with
  | inl h =>
      subst h
      refine ⟨⟨hm, by decide, ?_, rfl⟩, rfl, rfl, Int.one_ne_zero, rfl⟩
      intro hown
      obtain ⟨k, hk, hne, hs⟩ := hown
      obtain rfl := (mem_heater hk).resolve_left hne
      exact absurd (scadaPset_vars.subset hs) (by decide)
  | inr h =>
      subst h
      refine ⟨⟨hm, by decide, ?_, rfl⟩, rfl, rfl, Int.one_ne_zero, rfl⟩
      intro hown
      obtain ⟨k, hk, hne, hs⟩ := hown
      obtain rfl := (mem_heater hk).resolve_right hne
      exact absurd (kubPset_vars.subset hs) (by decide)

theorem kubPath_plain : kubPath ∉ taskVars heater.sys.gateway.opcs := by
  intro hk
  obtain ⟨svar, hs, hname⟩ := hk
  have hplain : ∀ svar ∈ taskNames, heater.sys.gateway.opcs.getVarFullName svar.toList ≠ kubPath := by
    decide +kernel
  exact hplain svar hs hname

theorem heater_driven : Driven ['p'] ⟨0, 0⟩ heater.sys := by
  have hgood : ∀ t, (heater.sys.gateway.opcs.vars.val t).uaStatus = statusGood := fun _ => rfl
  refine ⟨⟨⟨List.mem_cons_of_mem _ List.mem_cons_self, by decide, fun m hm _ => heater_exposes hm,
    fun m _ _ => hgood _, fun _ _ _ => rfl, rfl, fun m hm _ hmn => ?_⟩, List.mem_singleton_self _,
    fun _ => rfl⟩, by decide, fun m hm _ hmn => ?_⟩
  · rw [(mem_heater hm).resolve_right hmn]
    exact ⟨5, rfl, rfl, rfl⟩
  · rw [(mem_heater hm).resolve_right hmn, heater_kub]
    exact kubPath_plain

/-- Process 12 with a level of 40 in the task's own memory. -/
def rectify : Env where
  node := fun _ => none
  unset := fun svar =>
    if svar = "Process" then .ofUi16 12 else if svar = "P.rect" then .ofUi16 40 else {}
  stack := fun _ => { w1 := 7 }

example : heater.pset rectify = 40 := by decide +kernel

/-- A pass, while a client writes elsewhere. -/
def heaterPassed : Plant :=
  act (act (act heater (.scada rectify)) (.sys (.clientWrite ['x'] {}))) (.sys (.pass fun _ => none))

def acked : ℤ → ℕ → WriteAttempt := fun _ _ => ⟨⟨true, true⟩, true⟩

theorem heaterPassed_sends : (writeMaster acked (heaterPassed.sys.gateway.plcs 0)).1.rcWrite = 0 := by
  decide +kernel

def heaterRun : List Action :=
  [.sys (.clientWrite ['x'] {})] ++ .sys (.pass fun _ => none) ::
    ([] ++ .sys (.writeOut 0 acked) :: [])

theorem heaterRun_spared :
    Runs.Along act (Spared ['p'] ⟨0, 0⟩ (heater.pset rectify)) (act heater (.scada rectify))
      heaterRun := by
  have hx : ∀ m ∈ heater.sys.gateway.regmap.keys,
      ['x'] ≠ (heater.sys.gateway.regmap.val m).strOpcname := by
    decide
  refine ⟨⟨⟨trivial, fun m hm _ _ => hx m hm⟩, hx ['p'] heater_driven.mem⟩,
    ⟨⟨trivial, fun _ _ _ _ => trivial⟩, trivial⟩, ⟨⟨fun _ => ?_, fun _ _ _ _ => trivial⟩, trivial⟩,
    trivial⟩
  exact heaterPassed_sends

end RwModbus.SetPoint
