import RwModbus.Distillation
import RwModbus.SetPoint

/-!
# A switched-off process

For a process without a power of its own `SetPower` computes no power, and the task
writes nothing to the process's variable. What a client writes there holds in every later
pass of the task, and the heater gets it like any other set-point.
-/
namespace RwModbus.SwitchOff
open Numeric Registers Reg Opc Refresh Master OneWord Sys Scada
open Settling SetPoint

/-- No variable has a power for the process. -/
def Off (process : Word) : Prop := powerVar process = none

instance (process : Word) : Decidable (Off process) := inferInstanceAs (Decidable (_ = _))

theorem Off.ne {k : Word} (h : Off k) : k ≠ 1 ∧ k ≠ 2 ∧ k ≠ 4 := by
  unfold Off powerVar at h
  refine ⟨?_, ?_, ?_⟩
  all_goals
    rintro rfl
    exact absurd h (by decide)

section
variable (env : Env) {s : ScadaState} {k : Word}

theorem choosePset_off (h : Off s.vars.process) :
    Keeps ["P.heat", "P.dist", "P.rect"] s.opcs (choosePset env s).2.opcs ∧
      (choosePset env s).2.vars.pset = shiftPset s.vars.process (pshiftOf env s) 0 := by
  obtain ⟨h1, h2, h4⟩ := h.ne
  have hread := readNumber_leaves env "Pshift" (env.unset "Pshift")
    (s.mapVars fun g => { g with pset := 0 })
  have hps : (readInt env "Pshift" (s.mapVars fun g => { g with pset := 0 })).1 =
      pshiftOf env s := rfl
  have h₁ : (readInt env "Pshift" (s.mapVars fun g => { g with pset := 0 })).2.vars =
      { s.vars with pset := 0 } := rfl
  rw [← readInt_snd] at hread
  generalize e₁ : (readInt env "Pshift" (s.mapVars fun g => { g with pset := 0 })).2 = s₁ at hread h₁
  obtain ⟨hheat, h₂⟩ := pHeat_leaves env (s := s₁) (by rw [h₁]; exact h4)
  generalize e₂ : (pHeat env s₁).2 = s₂ at hheat h₂
  obtain ⟨hdist, h₃⟩ := pDist_leaves env (s := s₂) (by rw [h₂, h₁]; exact not_or.mpr ⟨h1, h2⟩)
  generalize e₃ : (pDist env s₂).2 = s₃ at hdist h₃
  obtain ⟨hrect, h₄, -⟩ := pRect_leaves env (s := s₃)
  generalize e₄ : (pRect env s₃).2 = s₄ at hrect h₄
  have hprocess : s₄.vars.process = s.vars.process := by rw [h₄, h₃, h₂, h₁]
  have hoff : powerVar s.vars.process = none := h
  simp only [choosePset, bind_apply, setVars_apply, get_apply, mapVars_vars, mapVars_opcs, hps, e₁, e₂,
    e₃, e₄, readLevel_vars, hprocess, hoff]
  exact ⟨(hread.trans (hheat.trans (hdist.trans hrect))).opcs, rfl⟩

/-- What the task writes for an idle process. -/
def offNames : List String := "Tkub0" :: alarms ++ ["P.heat", "P.dist", "P.rect", "Pset"]

theorem pshiftOf_congr {N : List String} {s' : ScadaState} (ho : Keeps N s.opcs s'.opcs)
    (hN : "Pshift" ∉ N) : pshiftOf env s' = pshiftOf env s := by
  rw [pshiftOf, pshiftOf, reading_congr ho (by decide) hN (.refl _ _)]

/-- The set-point of a process without power. -/
theorem taskScada_off (h : Off (level env s.opcs "Process")) :
    Keeps offNames s.opcs (taskScada env s).2.opcs ∧ (taskScada env s).2.vars.pset =
      shiftPset (level env s.opcs "Process") (pshiftOf env s) 0 := by
  obtain ⟨hupdate, h₁⟩ := updateProcess_leaves env s
  generalize e₁ : (updateProcess env s).2 = s₁ at hupdate h₁
  obtain ⟨htemps, h₂⟩ := updateTemps_leaves env s₁
  generalize e₂ : (updateTemps env s₁).2 = s₂ at htemps h₂
  have hkeep : Keeps ("Tkub0" :: alarms) s.opcs s₂.opcs :=
    (hupdate.opcs.mono (List.nil_subset _)).trans htemps
  have hprocess : s₂.vars.process = level env s.opcs "Process" := by
    rw [h₂, h₁]
    rfl
  obtain ⟨hchoose, hpset⟩ := choosePset_off env (s := s₂) (by rw [hprocess]; exact h)
  have hends := taskScada_ends env s
  simp only [beforePset, bind_apply, e₁, e₂] at hends
  rw [hends, writeU16_vars, hpset, hprocess, pshiftOf_congr env hkeep (by decide)]
  refine ⟨?_, rfl⟩
  have hwrite := writeU16_leaves env "Pset" (by decide)
    (shiftPset (level env s.opcs "Process") (pshiftOf env s) 0) (choosePset env s₂).2
  exact (hkeep.mono (by decide)).trans ((hchoose.mono (by decide)).trans (hwrite.opcs.mono (by decide)))

end

/-- From process 9 on a negative correction would be added. -/
theorem shiftPset_zero {k : Word} {pshift : ℤ} (h : 9 ≤ k → 0 ≤ pshift) : shiftPset k pshift 0 = 0 := by
  unfold shiftPset
  split_ifs with hlt
  · have hle := h hlt.1
    exact absurd hlt.2 (not_lt.mpr hle)
  · rfl

theorem keeps_touches {N : List String} {o o' : OpcServer} (h : Keeps N o o') :
    OpcServer.Touches Set.univ o o' :=
  ⟨h.keys, h.wrStatus, h.isVar, h.uaType, fun _ ht => absurd (Set.mem_univ _) ht⟩

theorem refreshVar_node (data : Option NumericU) (u : UaVar) :
    (OpcServer.refreshVar data u).node = u.node := by
  cases data <;> rfl

theorem refreshRawValue_node (data : Option NumericU) (t v : Name) (o : OpcServer) :
    ((o.refreshRawValue data t).1.vars.val v).node = (o.vars.val v).node := by
  rw [OpcServer.refreshRawValue_val]
  split_ifs
  · exact refreshVar_node data _
  · rfl

theorem refreshAllValues_node (data : ReadData) (v : Name) (o : OpcServer) :
    ((o.refreshAllValues data).vars.val v).node = (o.vars.val v).node :=
  Runs.invariant (I := fun o' : OpcServer => (o'.vars.val v).node = (o.vars.val v).node)
    (fun o' t h => (refreshRawValue_node (data t) t v o').trans h) o.vars.keys rfl

/-- No pass publishes to the variable. -/
def Unpublished (v : Name) (g : Gateway) : Prop :=
  ∀ m ∈ g.regmap.keys, (g.regmap.val m).kind ≠ .scada → (g.regmap.val m).strOpcname ≠ v

theorem Unpublished.of_config {v : Name} {g g' : Gateway} (h : Unpublished v g)
    (hc : g.SameConfig g') : Unpublished v g' := by
  intro m hm hk
  rw [hc.keys] at hm
  rw [hc.defs] at hk ⊢
  exact h m hm hk

theorem jsonUpdate_node {s : Name} (hs : '/' ∈ s) (data : ReadData) (v : Name) (o : OpcServer) :
    ((jsonUpdate data s o).vars.val v).node = (o.vars.val v).node := by
  rw [jsonUpdate_eq hs]
  split_ifs
  · exact refreshRawValue_node _ _ v o
  · rfl

theorem round_node {v : Name} {t : Turn} (h : t.rm.kind ≠ .scada → t.rm.strOpcname ≠ v)
    (data : ReadData) : ((t.refresh data).1.opcs.vars.val v).node = (t.opcs.vars.val v).node := by
  unfold Turn.refresh
  dsimp only
  split_ifs with hk
  · exact jsonUpdate_node t.refreshScada.rm.path data v t.opcs
  · rw [jsonUpdate_node t.refreshModbus.rm.path, Turn.refreshModbus_opcs]
    split_ifs
    · rw [opcSetValue_eq t.rm.path]
      exact congrArg UaVar.node ((OpcServer.writeRawUnion_touches _ _ _ _).others v
        fun hm => h hk (Set.mem_singleton_iff.mp hm).symm)
    · rfl

theorem rounds_node {v : Name} {g : Gateway} (h : Unpublished v g) (data : ReadData) {ns : List Name}
    (hns : ∀ n ∈ ns, n ∈ g.regmap.keys) :
    (((Gateway.refreshEntries data ns g).1.opcs.vars.val v)).node = (g.opcs.vars.val v).node := by
  induction ns generalizing g with
  | nil => rfl
  | cons n ns ih =>
      have hc := (Gateway.refreshEntry_frame data n g).sameConfig
      have hrest := ih (h.of_config hc) fun m hm => by
        rw [hc.keys]
        exact hns m (List.mem_cons_of_mem n hm)
      exact hrest.trans (round_node (h n (hns n List.mem_cons_self)) data)

/-- The task reads the process from the variable, and no pass publishes to it. -/
structure Commands (v : Name) (s : System) : Prop where
  name : s.gateway.opcs.getVarFullName "Process".toList = v
  isVar : s.gateway.opcs.isVariable v = true
  unpublished : Unpublished v s.gateway

/-- It has the process `k`. -/
structure Switched (v : Name) (k : Word) (s : System) : Prop extends Commands v s where
  node : (s.gateway.opcs.vars.val v).node.ui16 = k

variable {v : Name} {k : Word} {s : System}

theorem Commands.of_config (h : Commands v s) {s' : System} (hc : s.gateway.SameConfig s'.gateway) :
    Commands v s' := by
  refine ⟨?_, ?_, h.unpublished.of_config hc⟩
  · rw [OpcServer.getVarFullName, hc.opcs.keys]
    exact h.name
  · rw [hc.opcs.isVariable]
    exact h.isVar

theorem Switched.of_config (h : Switched v k s) {s' : System} (hc : s.gateway.SameConfig s'.gateway)
    (hnode : (s'.gateway.opcs.vars.val v).node = (s.gateway.opcs.vars.val v).node) :
    Switched v k s' :=
  ⟨h.toCommands.of_config hc, (congrArg NumericU.ui16 hnode).trans h.node⟩

theorem Switched.step (h : Switched v k s) {e : Event} (hok : Unwritten v s e) :
    Switched v k (Sys.step s e) := by
  apply h.of_config (step_sameConfig s e)
  cases e with
  | clientWrite t x =>
      exact congrArg UaVar.node ((OpcServer.clientWrite_touches t x _).others v
        fun hm => hok (Set.mem_singleton_iff.mp hm).symm)
  | writeValue t x data =>
      exact congrArg UaVar.node ((OpcServer.writeValue_touches data t x true _).others v
        fun hm => hok (Set.mem_singleton_iff.mp hm).symm)
  | refreshAll data => exact refreshAllValues_node data v _
  | pass data => exact rounds_node h.unpublished data fun _ hm => hm
  | poll i env => rfl
  | writeOut i env => rfl

variable {n : Name} {p : RegPtr} {P : Plant}

/-- The device and the followers are well, nobody writes to the variables of the set-point
and of the process, and the task can read the latter, with a correction that is not
negative for the later processes. -/
def Unattended (n : Name) (p : RegPtr) (v : Name) (k : Word) (P : Plant) : Action → Prop
  | .sys e => Sound n p P.sys e ∧ Unwritten (P.sys.gateway.regmap.val n).strOpcname P.sys e ∧
      Unwritten v P.sys e
  | .scada env => (env.node v).isSome ∧
      (9 ≤ k → 0 ≤ pshiftOf env ⟨P.sys.gateway.opcs, P.vars, []⟩)

theorem level_of_node {env : Env} {o : OpcServer} {svar : String}
    (hname : o.getVarFullName svar.toList = v) (hvar : o.isVariable v = true)
    (hdata : (env.node v).isSome) : level env o svar = (o.vars.val v).node.ui16 := by
  obtain ⟨beyond, hbeyond⟩ := Option.isSome_iff_exists.mp hdata
  have hwords := (o.vars.val v).uaType.words_pos
  simp only [level, reading_eq, hname, hbeyond, hvar, if_true]
  simp [NumericU.overlay, NumericU.ui16, hwords]

theorem Switched.scada (h : Switched v k P.sys) (hoff : Off k) {env : Env}
    (hok : Unattended n p v k P (.scada env)) :
    Switched v k (act P (.scada env)).sys ∧ P.pset env = 0 := by
  have hlevel : level env P.sys.gateway.opcs "Process" = k :=
    (level_of_node h.name h.isVar hok.1).trans h.node
  have hoff' : Off (level env P.sys.gateway.opcs "Process") := by rwa [hlevel]
  obtain ⟨hkeep, hpset⟩ := taskScada_off env (s := ⟨P.sys.gateway.opcs, P.vars, []⟩) hoff'
  rw [hlevel, shiftPset_zero hok.2] at hpset
  have htask : P.task env = (taskScada env ⟨P.sys.gateway.opcs, P.vars, []⟩).2 := by
    unfold Plant.task
    rfl
  rw [← htask] at hkeep hpset
  have hout : shortName v ∉ offNames := by
    rw [← h.name, shortName_getVarFullName (by decide)]
    decide
  exact ⟨h.of_config (setOpcs_sameConfig (keeps_touches hkeep)) (hkeep.node v hout), hpset⟩

/-- Where the process is switched off every step spares a set-point of 0. -/
theorem Unattended.spared {a : Action} (hs : Switched v k P.sys) (hoff : Off k)
    (hok : Unattended n p v k P a) : Spared n p 0 P a ∧ Switched v k (act P a).sys := by
  cases a with
  | sys e => exact ⟨⟨hok.1, hok.2.1⟩, hs.step hok.2.2⟩
  | scada env => exact (hs.scada hoff hok).symm

theorem fair_of_spared {x : Word} {a : Action} (h : Spared n p x P a) : Fair n p P a := by
  cases a with
  | sys e => exact h.1
  | scada env => trivial

theorem act_sameConfig (P : Plant) (a : Action) :
    P.sys.gateway.SameConfig (act P a).sys.gateway := by
  cases a with
  | sys e => exact step_sameConfig P.sys e
  | scada env => exact setOpcs_sameConfig (P.task_touches env)

theorem Commands.run (h : Commands v P.sys) (es : List Action) : Commands v (Runs.run act P es).sys :=
  Runs.invariant (I := fun Q : Plant => Commands v Q.sys)
    (fun Q a hq => hq.of_config (act_sameConfig Q a))
    es h

/-- A client's write of a process. -/
theorem Commands.write (h : Commands v s) (x : NumericU) :
    Switched v x.ui16 (Sys.step s (.clientWrite v x)) := by
  refine ⟨h.of_config (step_sameConfig s _), ?_⟩
  have hwords := (s.gateway.opcs.vars.val v).uaType.words_pos
  have hval : ((Sys.step s (.clientWrite v x)).gateway.opcs.vars.val v) = _ :=
    OpcServer.clientWrite_val h.isVar x
  rw [hval]
  simp [NumericU.typed, NumericU.ui16, hwords]

theorem Commands.sound (h : Commands v s) (hw : Wired n p s) (x : NumericU) :
    Sound n p s (.clientWrite v x) :=
  ⟨trivial, fun m hm hp _ => (h.unpublished m hm (hw.exposes m hm hp).kind).symm⟩

theorem heater_commands : Commands processPath heater.sys := by
  refine ⟨by decide, by decide, fun m hm _ => ?_⟩
  have hpaths : ∀ m ∈ heater.sys.gateway.regmap.keys,
      (heater.sys.gateway.regmap.val m).strOpcname ≠ processPath := by
    decide
  exact hpaths m hm

/-- Every variable can be read. -/
def reads : Env where
  node := fun _ => some {}
  unset := fun _ => {}
  stack := fun _ => {}

def offRun : List Action :=
  [] ++ .scada reads :: ([] ++ .sys (.pass fun _ => none) :: ([] ++ .sys (.writeOut 0 acked) :: []))

/-- The heater with the process switched off, when the write-out starts. -/
def heaterOff : Plant :=
  act (act (act heater (.sys (.clientWrite processPath {}))) (.scada reads)) (.sys (.pass fun _ => none))

theorem heaterOff_sends : (writeMaster acked (heaterOff.sys.gateway.plcs 0)).1.rcWrite = 0 := by
  decide +kernel

theorem offRun_unattended : Runs.Along act (Unattended ['p'] ⟨0, 0⟩ processPath 0)
    (act heater (.sys (.clientWrite processPath {}))) offRun := by
  refine ⟨⟨rfl, fun h => absurd h (by decide)⟩,
    ⟨⟨trivial, fun _ _ _ _ => trivial⟩, trivial, trivial⟩,
    ⟨⟨fun _ => ?_, fun _ _ _ _ => trivial⟩, trivial, trivial⟩, trivial⟩
  exact heaterOff_sends

end RwModbus.SwitchOff
