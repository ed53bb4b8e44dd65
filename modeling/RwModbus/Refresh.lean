import RwModbus.OpcServer
import RwModbus.Reg

/-!
# Register refresh

One pass of `task_regs_refresh_`: a loop over the register map that compares
each entry's local value with the PLC words and with the OPC cache, publishes a
PLC value and takes an OPC value. The printing tables and the JSON text are left
out; reading the status variable next to a heartbeat variable is not, since it
refreshes that variable's cache.
-/
namespace RwModbus.Refresh
open Numeric Registers Reg Opc

/-- `PLCvec`, `REGmap` and `OPCs`. -/
structure Gateway where
  plcs : PlcVec
  regmap : KeyedMap Name RegC
  opcs : OpcServer

/-- What one round of the loop works on. -/
structure Turn where
  plcs : PlcVec
  rm : RegC
  opcs : OpcServer

structure Decision where
  isNewPlc : Bool
  isNewOpc : Bool
  published : Bool
  taken : Bool
deriving DecidableEq, Repr

def opcGetValue (o : OpcServer) (s : Name) : NumericU := o.readRawUnion (o.getVarFullName s)

def opcSetValue (s : Name) (val : NumericU) (isOK : Bool) (o : OpcServer) : OpcServer × Bool :=
  o.writeRawUnion (o.getVarFullName s) val isOK

/-- `operator!=` on `numeric_u`. -/
def differ (a b : NumericU) : Bool := a.ui64 != b.ui64

@[simp] theorem differ_eq_true {a b : NumericU} : differ a b = true ↔ a ≠ b := by
  simp [differ, NumericU.ui64_injective.eq_iff]

@[simp] theorem differ_eq_false {a b : NumericU} : differ a b = false ↔ a = b := by
  simp [differ, NumericU.ui64_injective.eq_iff]

def millisSuffix : Name := ['.', 'm', 'i', 'l', 'l', 'i', 's']
def statusSuffix : Name := ['.', 's', 't', 'a', 't', 'u', 's']

/-- The name of the status variable that belongs to a heartbeat variable. -/
def statusName (s : Name) : Name := s.take (s.length - millisSuffix.length) ++ statusSuffix

/-- The effect of `json_update` on the server. -/
def jsonUpdate (data : ReadData) (s : Name) (o : OpcServer) : OpcServer :=
  if millisSuffix <:+ s then o.readValue data (statusName s) else o

namespace Turn

-- The locals of the loop body. Those of the PLC side come from `get_plc_value` and
-- `get_plc_errors`; no branch assigns anything they depend on before them.
def opcVal (t : Turn) : NumericU := opcGetValue t.opcs t.rm.strOpcname
def opcErr (t : Turn) : Bool := !t.opcs.isGood t.rm.strOpcname
def oldVal (t : Turn) : NumericU := t.rm.number
def oldErr (t : Turn) : Bool := decide (t.rm.varErrors ≠ 0)
def isNewOpc (t : Turn) : Bool := differ t.opcVal t.oldVal
def plcVal (t : Turn) : NumericU := (t.rm.getPlcValue t.plcs).2
def plcErr (t : Turn) : Bool := decide (t.rm.getPlcErrors t.plcs ≠ 0)
def isNewPlc (t : Turn) : Bool := differ t.plcVal t.oldVal

/-- The PLC's value or its health has changed. -/
def publishes (t : Turn) : Bool := t.isNewPlc || (t.plcErr != t.oldErr)

/-- A writable entry has a new value from a good OPC variable. -/
def takes (t : Turn) : Bool :=
  decide (t.rm.varModeRw ≠ 0) && t.isNewOpc && !t.plcErr && !t.opcErr

def publish (val : NumericU) (err : Bool) (t : Turn) : Turn :=
  { t with
    rm := { t.rm with number := val, varErrors := err.toNat }
    opcs := (opcSetValue t.rm.strOpcname val (!err) t.opcs).1 }

def writeBack (val : NumericU) (err : Bool) (t : Turn) : Turn :=
  { t with
    plcs := t.rm.setPlcValue val t.plcs
    rm := { t.rm with number := val, varErrors := err.toNat } }

/-- The round of a modbus or referenced entry. -/
def refreshModbus (t : Turn) : Turn :=
  let t₁ := { t with rm := (t.rm.getPlcValue t.plcs).1 }
  let t₂ :=
    if t.publishes then t₁.publish t.plcVal t.plcErr
    else if t.oldErr && t.plcErr then
      { t₁ with rm := { t₁.rm with varErrors := t₁.rm.varErrors + 1 } }
    else t₁
  if t.takes then t₂.writeBack t.opcVal (t.plcErr || t.opcErr) else t₂

/-- The round of an entry of SCADA's own. -/
def refreshScada (t : Turn) : Turn :=
  let rm := { t.rm with varErrors := t.opcErr.toNat }
  { t with rm := if t.isNewOpc then { rm with number := t.opcVal } else rm }

/-- The loop body of `task_regs_refresh_`. -/
def refresh (data : ReadData) (t : Turn) : Turn × Decision :=
  let r := if t.rm.kind = .scada then t.refreshScada else t.refreshModbus
  ({ r with opcs := jsonUpdate data r.rm.strOpcname r.opcs },
    if t.rm.kind = .scada then ⟨false, t.isNewOpc, false, t.isNewOpc⟩
    else ⟨t.isNewPlc, t.isNewOpc, t.publishes, t.takes⟩)

end Turn

namespace Turn

theorem refreshModbus_toRegDef (t : Turn) : t.refreshModbus.rm.toRegDef = t.rm.toRegDef := by
  unfold refreshModbus publish writeBack
  dsimp only
  split_ifs <;> exact RegC.getPlcValue_toRegDef t.plcs t.rm

theorem refreshModbus_plcs (t : Turn) : t.refreshModbus.plcs =
    if t.takes then t.rm.setPlcValue t.opcVal t.plcs else t.plcs := by
  unfold refreshModbus publish writeBack
  dsimp only
  split_ifs <;> simp

theorem refreshModbus_opcs (t : Turn) : t.refreshModbus.opcs =
    if t.publishes then (opcSetValue t.rm.strOpcname t.plcVal (!t.plcErr) t.opcs).1
    else t.opcs := by
  unfold refreshModbus publish writeBack
  dsimp only
  split_ifs <;> simp

theorem refreshModbus_number {t : Turn} (h : t.rm.kind ≠ .scada) : t.refreshModbus.rm.number =
    if t.takes then t.opcVal else t.plcVal := by
  have hnum := RegC.getPlcValue_number h t.plcs
  unfold refreshModbus publish writeBack
  dsimp only
  split_ifs <;> first | rfl | exact hnum

theorem plcErr_eq_false {t : Turn} : t.plcErr = false ↔ t.rm.getPlcErrors t.plcs = 0 := by
  simp [plcErr]

theorem takes_iff {t : Turn} : t.takes = true ↔
    t.rm.varModeRw ≠ 0 ∧ t.isNewOpc = true ∧ t.plcErr = false ∧ t.opcErr = false := by
  simp [takes, and_assoc]

theorem publishes_eq_false {t : Turn} : t.publishes = false ↔
    t.isNewPlc = false ∧ t.plcErr = t.oldErr := by
  simp [publishes]

/-- A round leaves the entry without errors exactly if its sources have none. -/
theorem refreshModbus_varErrors (t : Turn) :
    t.refreshModbus.rm.varErrors = 0 ↔ t.rm.getPlcErrors t.plcs = 0 := by
  rw [← plcErr_eq_false]
  unfold refreshModbus
  dsimp only
  by_cases ht : t.takes = true
  · obtain ⟨-, -, hplc, hopc⟩ := takes_iff.mp ht
    simp [ht, writeBack, hplc, hopc]
  rw [if_neg ht]
  by_cases hp : t.publishes = true
  · cases hplc : t.plcErr <;> simp [hp, publish]
  rw [if_neg hp]
  rw [Bool.not_eq_true, publishes_eq_false] at hp
  by_cases herr : t.plcErr = true
  · simp [← hp.2, herr]
  · -- no errors before and none now
    rw [Bool.not_eq_true] at herr
    have h0 : t.rm.varErrors = 0 := by simpa [oldErr, herr] using hp.2.symm
    simp [← hp.2, herr, RegC.getPlcValue_varErrors h0 (plcErr_eq_false.mp herr)]

end Turn

namespace Gateway

def turn (g : Gateway) (n : Name) : Turn := ⟨g.plcs, g.regmap.val n, g.opcs⟩

def refreshEntry (data : ReadData) (n : Name) (g : Gateway) : Gateway × Decision :=
  let r := (g.turn n).refresh data
  ({ plcs := r.1.plcs, regmap := g.regmap.modify n fun _ => r.1.rm, opcs := r.1.opcs }, r.2)

def refreshEntries (data : ReadData) : List Name → Gateway → Gateway × List (Name × Decision)
  | [], g => (g, [])
  | n :: ns, g =>
      let r := g.refreshEntry data n
      let s := refreshEntries data ns r.1
      (s.1, (n, r.2) :: s.2)

/-- `task_regs_refresh_`. Its return value counts the rounds that took a value. -/
def taskRegsRefresh (data : ReadData) (g : Gateway) : Gateway × List (Name × Decision) :=
  refreshEntries data g.regmap.keys g

end Gateway

/-- The variables that an entry's rounds write or reread. -/
def varsOf (d : RegDef) : Set Name :=
  {s | s = d.strOpcname ∨ (millisSuffix <:+ d.strOpcname ∧ s = statusName d.strOpcname)}

theorem slash_mem_statusName {s : Name} (h : '/' ∈ s) (hm : millisSuffix <:+ s) :
    '/' ∈ statusName s := by
  obtain ⟨t, rfl⟩ := hm
  have ht : '/' ∈ t := by
    rcases List.mem_append.mp h with h | h
    · exact h
    · simp [millisSuffix] at h
  simp [statusName, ht]

theorem statusName_ne {s : Name} (hm : millisSuffix <:+ s) : statusName s ≠ s := by
  intro h
  obtain ⟨t, rfl⟩ := hm
  simp [statusName, statusSuffix, millisSuffix] at h

theorem jsonUpdate_eq {s : Name} (h : '/' ∈ s) (data : ReadData) (o : OpcServer) :
    jsonUpdate data s o = if millisSuffix <:+ s
      then (o.refreshRawValue (data (statusName s)) (statusName s)).1 else o := by
  unfold jsonUpdate
  split_ifs with hm
  · exact OpcServer.readValue_of_slash (slash_mem_statusName h hm) data o
  · rfl

theorem jsonUpdate_touches {s : Name} (h : '/' ∈ s) (data : ReadData) (o : OpcServer) :
    OpcServer.Touches {c | millisSuffix <:+ s ∧ c = statusName s} o (jsonUpdate data s o) := by
  rw [jsonUpdate_eq h]
  split_ifs with hm
  · refine (OpcServer.refreshRawValue_touches _ _ o).mono fun c hc => ?_
    exact ⟨hm, Set.mem_singleton_iff.mp hc⟩
  · exact OpcServer.Touches.refl _ o

theorem opcSetValue_eq {s : Name} (h : '/' ∈ s) (val : NumericU) (isOK : Bool) (o : OpcServer) :
    opcSetValue s val isOK o = o.writeRawUnion s val isOK := by
  rw [opcSetValue, OpcServer.getVarFullName_of_slash h]

namespace Turn

theorem refresh_toRegDef (data : ReadData) (t : Turn) :
    (t.refresh data).1.rm.toRegDef = t.rm.toRegDef := by
  unfold refresh
  dsimp only
  split_ifs
  · unfold refreshScada
    dsimp only
    split_ifs <;> rfl
  · exact refreshModbus_toRegDef t

theorem refresh_rm {t : Turn} (h : t.rm.kind ≠ .scada) (data : ReadData) :
    (t.refresh data).1.rm = t.refreshModbus.rm := by
  simp only [refresh, if_neg h]

theorem refresh_plcs {t : Turn} (h : t.rm.kind ≠ .scada) (data : ReadData) :
    (t.refresh data).1.plcs = t.refreshModbus.plcs := by
  simp only [refresh, if_neg h]

theorem refreshScada_toRegDef (t : Turn) : t.refreshScada.rm.toRegDef = t.rm.toRegDef := by
  unfold refreshScada
  dsimp only
  split_ifs <;> rfl

theorem refresh_plcs_writes (data : ReadData) (t : Turn) :
    PlcVec.Writes t.rm.sources t.plcs (t.refresh data).1.plcs := by
  unfold refresh
  dsimp only
  split_ifs
  · exact PlcVec.Writes.refl _ _
  · rw [refreshModbus_plcs]
    split_ifs
    · exact RegDef.setPlcValue_writes _ _ _
    · exact PlcVec.Writes.refl _ _

theorem refresh_opcs_touches (data : ReadData) (t : Turn) :
    OpcServer.Touches (varsOf t.rm.toRegDef) t.opcs (t.refresh data).1.opcs := by
  unfold refresh
  dsimp only
  split_ifs with hk
  · rw [show t.refreshScada.rm.strOpcname = t.rm.strOpcname by rw [refreshScada_toRegDef]]
    exact (jsonUpdate_touches t.rm.path data t.opcs).mono fun c hc => Or.inr hc
  · rw [show t.refreshModbus.rm.strOpcname = t.rm.strOpcname by rw [refreshModbus_toRegDef]]
    refine OpcServer.Touches.trans ?_
      ((jsonUpdate_touches t.rm.path data _).mono fun c hc => Or.inr hc)
    rw [refreshModbus_opcs]
    split_ifs
    · rw [opcSetValue_eq t.rm.path]
      exact (OpcServer.writeRawUnion_touches _ _ _ _).mono fun c hc => Or.inl hc
    · exact OpcServer.Touches.refl _ _

theorem refresh_opcs_own (data : ReadData) (t : Turn) :
    (t.refresh data).1.opcs.vars.val t.rm.strOpcname =
      (if t.rm.kind = .scada then t.opcs else t.refreshModbus.opcs).vars.val t.rm.strOpcname := by
  unfold refresh
  dsimp only
  split_ifs with hk
  · rw [show t.refreshScada.rm.strOpcname = t.rm.strOpcname by rw [refreshScada_toRegDef]]
    exact (jsonUpdate_touches t.rm.path data t.opcs).others _
      fun h => statusName_ne h.1 h.2.symm
  · rw [show t.refreshModbus.rm.strOpcname = t.rm.strOpcname by rw [refreshModbus_toRegDef]]
    exact (jsonUpdate_touches t.rm.path data _).others _ fun h => statusName_ne h.1 h.2.symm

end Turn

namespace Gateway

/-- The second gateway is the first but for the contents of the entries in `N`,
the variables in `V` and the registers in `P`. -/
structure Frame (N V : Set Name) (P : Set RegPtr) (g g' : Gateway) : Prop where
  plcs : PlcVec.Writes P g.plcs g'.plcs
  opcs : OpcServer.Touches V g.opcs g'.opcs
  keys : g'.regmap.keys = g.regmap.keys
  defs : ∀ m, (g'.regmap.val m).toRegDef = (g.regmap.val m).toRegDef
  entries : ∀ m, m ∉ N → g'.regmap.val m = g.regmap.val m

theorem Frame.refl (N V : Set Name) (P : Set RegPtr) (g : Gateway) : Frame N V P g g :=
  ⟨PlcVec.Writes.refl _ _, OpcServer.Touches.refl _ _, rfl, fun _ => rfl, fun _ _ => rfl⟩

theorem Frame.trans {N V : Set Name} {P : Set RegPtr} {g₁ g₂ g₃ : Gateway}
    (h : Frame N V P g₁ g₂) (h' : Frame N V P g₂ g₃) : Frame N V P g₁ g₃ :=
  ⟨h.plcs.trans h'.plcs, h.opcs.trans h'.opcs, h'.keys.trans h.keys,
    fun m => (h'.defs m).trans (h.defs m),
    fun m hm => (h'.entries m hm).trans (h.entries m hm)⟩

theorem Frame.mono {N N' V V' : Set Name} {P P' : Set RegPtr} {g g' : Gateway}
    (h : Frame N V P g g') (hN : N ⊆ N') (hV : V ⊆ V') (hP : P ⊆ P') : Frame N' V' P' g g' :=
  ⟨h.plcs.mono hP, h.opcs.mono hV, h.keys, h.defs, fun m hm => h.entries m fun hn => hm (hN hn)⟩

theorem refreshEntry_frame (data : ReadData) (n : Name) (g : Gateway) :
    Frame {n} (varsOf (g.regmap.val n).toRegDef) (g.regmap.val n).sources g
      (g.refreshEntry data n).1 := by
  have hval : ∀ m, m ≠ n → (g.refreshEntry data n).1.regmap.val m = g.regmap.val m :=
    fun m hm => KeyedMap.modify_val_of_ne g.regmap hm fun _ => ((g.turn n).refresh data).1.rm
  refine ⟨Turn.refresh_plcs_writes data (g.turn n), Turn.refresh_opcs_touches data (g.turn n), rfl,
    fun m => ?_, hval⟩
  by_cases h : m = n
  · subst h
    simp only [refreshEntry, KeyedMap.modify_val_self]
    exact Turn.refresh_toRegDef data (g.turn m)
  · rw [hval m h]

theorem refreshEntry_val (data : ReadData) (n : Name) (g : Gateway) :
    (g.refreshEntry data n).1.regmap.val n = ((g.turn n).refresh data).1.rm := by
  rw [refreshEntry, KeyedMap.modify_val_self]

theorem refreshEntries_frame (data : ReadData) (ns : List Name) (g : Gateway) :
    Frame {m | m ∈ ns} {s | ∃ m ∈ ns, s ∈ varsOf (g.regmap.val m).toRegDef}
      {p | ∃ m ∈ ns, p ∈ (g.regmap.val m).sources} g (refreshEntries data ns g).1 := by
  induction ns generalizing g with
  | nil => exact Frame.refl _ _ _ g
  | cons n ns ih =>
      have hhead := refreshEntry_frame data n g
      have htail := ih (g.refreshEntry data n).1
      simp only [hhead.defs] at htail
      refine (hhead.mono ?_ ?_ ?_).trans (htail.mono ?_ ?_ ?_)
      · exact fun m hm => List.mem_cons.mpr (Or.inl hm)
      · exact fun s hs => ⟨n, List.mem_cons_self, hs⟩
      · exact fun p hp => ⟨n, List.mem_cons_self, hp⟩
      · exact fun m hm => List.mem_cons_of_mem n hm
      · exact fun s ⟨m, hm, hs⟩ => ⟨m, List.mem_cons_of_mem n hm, hs⟩
      · exact fun p ⟨m, hm, hp⟩ => ⟨m, List.mem_cons_of_mem n hm, hp⟩

theorem refreshEntries_append (data : ReadData) (ms ns : List Name) (g : Gateway) :
    (refreshEntries data (ms ++ ns) g).1 =
      (refreshEntries data ns (refreshEntries data ms g).1).1 := by
  induction ms generalizing g with
  | nil => rfl
  | cons m ms ih => exact ih _

/-- The gateway when the loop reaches entry `n`. -/
def atTurn (data : ReadData) (n : Name) (g : Gateway) : Gateway :=
  (refreshEntries data (g.regmap.before n) g).1

theorem taskRegsRefresh_split {g : Gateway} {n : Name} (hn : n ∈ g.regmap.keys)
    (data : ReadData) : (g.taskRegsRefresh data).1 =
      (refreshEntries data (g.regmap.after n) ((g.atTurn data n).refreshEntry data n).1).1 := by
  have hsplit := g.regmap.keys_split hn
  rw [taskRegsRefresh, hsplit, refreshEntries_append]
  rfl

/-- The variables and registers that the entries other than `n` may touch. -/
def otherVars (g : Gateway) (n : Name) : Set Name :=
  {s | ∃ m ∈ g.regmap.keys, m ≠ n ∧ s ∈ varsOf (g.regmap.val m).toRegDef}

def otherSources (g : Gateway) (n : Name) : Set RegPtr :=
  {p | ∃ m ∈ g.regmap.keys, m ≠ n ∧ p ∈ (g.regmap.val m).sources}

theorem atTurn_frame (data : ReadData) (n : Name) (g : Gateway) :
    Frame {m | m ≠ n} (g.otherVars n) (g.otherSources n) g (g.atTurn data n) := by
  have hne : ∀ m ∈ g.regmap.before n, m ≠ n := fun m hm h => g.regmap.notMem_before n (h ▸ hm)
  refine (refreshEntries_frame data (g.regmap.before n) g).mono hne ?_ ?_
  · exact fun s ⟨m, hm, hs⟩ => ⟨m, KeyedMap.mem_of_mem_before hm, hne m hm, hs⟩
  · exact fun p ⟨m, hm, hp⟩ => ⟨m, KeyedMap.mem_of_mem_before hm, hne m hm, hp⟩

theorem afterTurn_frame {g : Gateway} {n : Name} (hn : n ∈ g.regmap.keys) (data : ReadData) :
    Frame {m | m ≠ n} (g.otherVars n) (g.otherSources n)
      ((g.atTurn data n).refreshEntry data n).1 (g.taskRegsRefresh data).1 := by
  have hne : ∀ m ∈ g.regmap.after n, m ≠ n := fun m hm h => g.regmap.notMem_after hn (h ▸ hm)
  have hpre := atTurn_frame data n g
  have hown := refreshEntry_frame data n (g.atTurn data n)
  rw [taskRegsRefresh_split hn]
  refine (refreshEntries_frame data (g.regmap.after n) _).mono hne ?_ ?_
  · rintro s ⟨m, hm, hs⟩
    rw [hown.defs, hpre.defs] at hs
    exact ⟨m, KeyedMap.mem_of_mem_after hm, hne m hm, hs⟩
  · rintro p ⟨m, hm, hp⟩
    rw [hown.defs, hpre.defs] at hp
    exact ⟨m, KeyedMap.mem_of_mem_after hm, hne m hm, hp⟩

theorem taskRegsRefresh_frame (data : ReadData) (g : Gateway) :
    Frame {m | m ∈ g.regmap.keys} {s | ∃ m ∈ g.regmap.keys, s ∈ varsOf (g.regmap.val m).toRegDef}
      {p | ∃ m ∈ g.regmap.keys, p ∈ (g.regmap.val m).sources} g (g.taskRegsRefresh data).1 :=
  refreshEntries_frame data g.regmap.keys g

/-- The same registers, entries and variables, whatever they hold. -/
structure SameConfig (g g' : Gateway) : Prop where
  mode : ∀ q, (g'.plcs.data q).rmode = (g.plcs.data q).rmode
  plcKeys : ∀ i, (g'.plcs i).regs.keys = (g.plcs i).regs.keys
  opcs : OpcServer.Touches Set.univ g.opcs g'.opcs
  keys : g'.regmap.keys = g.regmap.keys
  defs : ∀ m, (g'.regmap.val m).toRegDef = (g.regmap.val m).toRegDef

theorem SameConfig.refl (g : Gateway) : SameConfig g g :=
  ⟨fun _ => rfl, fun _ => rfl, OpcServer.Touches.refl _ _, rfl, fun _ => rfl⟩

theorem SameConfig.trans {g₁ g₂ g₃ : Gateway} (h : SameConfig g₁ g₂) (h' : SameConfig g₂ g₃) :
    SameConfig g₁ g₃ :=
  ⟨fun q => (h'.mode q).trans (h.mode q), fun i => (h'.plcKeys i).trans (h.plcKeys i),
    h.opcs.trans h'.opcs, h'.keys.trans h.keys, fun m => (h'.defs m).trans (h.defs m)⟩

theorem Frame.sameConfig {N V : Set Name} {P : Set RegPtr} {g g' : Gateway}
    (h : Frame N V P g g') : SameConfig g g' :=
  ⟨h.plcs.mode, h.plcs.keys, h.opcs.mono (Set.subset_univ V), h.keys, h.defs⟩

theorem SameConfig.otherVars {g g' : Gateway} (h : SameConfig g g') (n : Name) :
    g'.otherVars n = g.otherVars n := by
  simp only [Gateway.otherVars, h.keys, h.defs]

theorem SameConfig.otherSources {g g' : Gateway} (h : SameConfig g g') (n : Name) :
    g'.otherSources n = g.otherSources n := by
  simp only [Gateway.otherSources, h.keys, h.defs]

def var (g : Gateway) (n : Name) : UaVar := g.opcs.vars.val (g.regmap.val n).strOpcname

/-- Entry `n` has a variable of its type that no other entry writes or rereads. -/
structure OwnVariable (g : Gateway) (n : Name) : Prop where
  mem : n ∈ g.regmap.keys
  isVar : g.opcs.isVariable (g.regmap.val n).strOpcname = true
  own : (g.regmap.val n).strOpcname ∉ g.otherVars n
  uaType : (g.regmap.val n).prop.rtype.uaType = some (g.var n).uaType

/-- The state in which entry `n` is refreshed during a pass. -/
def turnOf (data : ReadData) (n : Name) (g : Gateway) : Turn := (g.atTurn data n).turn n

section
variable {g : Gateway} {n : Name}

theorem OwnVariable.frame {P : Set RegPtr} {g' : Gateway} (h : OwnVariable g n)
    (hf : Frame {m | m ≠ n} (g.otherVars n) P g g') :
    g'.regmap.val n = g.regmap.val n ∧ g'.var n = g.var n := by
  have hrm : g'.regmap.val n = g.regmap.val n := hf.entries n fun hn => hn rfl
  have hvar : g'.var n = g.var n := by
    rw [var, hrm]
    exact hf.opcs.others _ h.own
  exact ⟨hrm, hvar⟩

theorem OwnVariable.of_config {g' : Gateway} (h : OwnVariable g n) (hc : SameConfig g g') :
    OwnVariable g' n := by
  have hs : (g'.regmap.val n).strOpcname = (g.regmap.val n).strOpcname := by rw [hc.defs]
  refine ⟨by rw [hc.keys]; exact h.mem, ?_, ?_, ?_⟩
  · rw [hs, hc.opcs.isVariable]
    exact h.isVar
  · rw [hs, hc.otherVars]
    exact h.own
  · rw [var, hs, hc.opcs.uaType, hc.defs]
    exact h.uaType

theorem OwnVariable.atTurn (h : OwnVariable g n) (data : ReadData) :
    OwnVariable (g.atTurn data n) n := h.of_config (atTurn_frame data n g).sameConfig

theorem OwnVariable.turnOf_rm (h : OwnVariable g n) (data : ReadData) :
    (g.turnOf data n).rm = g.regmap.val n := (h.frame (atTurn_frame data n g)).1

theorem OwnVariable.atTurn_var (h : OwnVariable g n) (data : ReadData) :
    (g.atTurn data n).var n = g.var n := (h.frame (atTurn_frame data n g)).2

theorem OwnVariable.opcVal (h : OwnVariable g n) : (g.turn n).opcVal = (g.var n).rawValue := by
  rw [Turn.opcVal, opcGetValue, OpcServer.getVarFullName_of_slash (g.turn n).rm.path,
    OpcServer.readRawUnion]
  exact if_pos h.isVar

theorem OwnVariable.opcErr (h : OwnVariable g n) :
    (g.turn n).opcErr = false ↔ (g.var n).uaStatus = statusGood := by
  have hvar : (g.turn n).opcs.isVariable (g.turn n).rm.strOpcname = true := h.isVar
  simp only [Turn.opcErr, OpcServer.isGood, hvar, Bool.true_and, Bool.not_eq_false', beq_iff_eq]
  rfl

theorem OwnVariable.round_var (h : OwnVariable g n) (data : ReadData) :
    (g.refreshEntry data n).1.var n =
      (if (g.regmap.val n).kind ≠ .scada ∧ (g.turn n).publishes = true then
        OpcServer.writeVariable (g.opcs.wrStatus (g.regmap.val n).strOpcname)
          (g.turn n).plcVal (!(g.turn n).plcErr) { g.var n with rawValue := (g.turn n).plcVal }
      else g.var n) := by
  have hs : ((g.refreshEntry data n).1.regmap.val n).strOpcname = (g.turn n).rm.strOpcname := by
    rw [(refreshEntry_frame data n g).defs]
    rfl
  rw [var, hs]
  refine (Turn.refresh_opcs_own data (g.turn n)).trans ?_
  by_cases hk : (g.regmap.val n).kind = .scada
  · rw [if_pos (show (g.turn n).rm.kind = .scada from hk), if_neg fun hc => hc.1 hk]
    rfl
  rw [if_neg (show ¬ (g.turn n).rm.kind = .scada from hk), Turn.refreshModbus_opcs]
  by_cases hp : (g.turn n).publishes = true
  · rw [if_pos hp, if_pos ⟨hk, hp⟩, opcSetValue_eq (g.turn n).rm.path]
    exact OpcServer.writeRawUnion_val h.isVar _ _
  · rw [if_neg hp, if_neg fun hc => hp hc.2]
    rfl

theorem OwnVariable.pass_rm (h : OwnVariable g n) (data : ReadData) :
    (g.taskRegsRefresh data).1.regmap.val n = ((g.turnOf data n).refresh data).1.rm := by
  rw [(afterTurn_frame h.mem data).entries n fun hn => hn rfl, refreshEntry_val]
  rfl

theorem OwnVariable.pass_var (h : OwnVariable g n) (data : ReadData) :
    (g.taskRegsRefresh data).1.var n =
      (if (g.regmap.val n).kind ≠ .scada ∧ (g.turnOf data n).publishes = true then
        OpcServer.writeVariable (g.opcs.wrStatus (g.regmap.val n).strOpcname)
          (g.turnOf data n).plcVal (!(g.turnOf data n).plcErr)
          { g.var n with rawValue := (g.turnOf data n).plcVal }
      else g.var n) := by
  have hat := atTurn_frame data n g
  have hown := refreshEntry_frame data n (g.atTurn data n)
  have hround := (h.atTurn data).round_var data
  rw [h.atTurn_var, hat.defs, hat.opcs.wrStatus] at hround
  rw [← turnOf, var, hown.defs, hat.defs] at hround
  rw [var, (taskRegsRefresh_frame data g).defs, (afterTurn_frame h.mem data).opcs.others _ h.own]
  exact hround

end

end Gateway

def smallPlc (rd : Mbregdata) : ModbusPLC where
  strDevName := ['P']
  tcpPort := 502
  bounds := bounds_zero
  regs := .singleton 0 fun a => { raddr := a, data := rd }
  placed := fun _ => rfl

/-- A one-word register, an entry over it and the variable `/v`. -/
def small (rd : Mbregdata) (rm : RegC) (v : UaVar) : Gateway where
  plcs := fun _ => smallPlc rd
  regmap := .singleton ['v'] fun _ => rm
  opcs := ⟨.singleton ['/', 'v'] fun _ => v, fun _ => statusGood⟩

def smallEntry (rw : ℤ) (varErrors : ℕ) (number : NumericU) : RegC where
  toRegDef := .ofModbus ⟨0, 0⟩ rw ['/', 'v'] (by decide)
  varErrors := varErrors
  number := number

theorem smallPlc_linked (rd : Mbregdata) : Linked fun _ => smallPlc rd := by
  intro i a b h
  simp [smallPlc] at h

def smallRef (rd : Mbregdata) (rw : ℤ) (varErrors : ℕ) (number : NumericU) : RegC where
  toRegDef := .ofSource (smallPlc_linked rd) (some ⟨0, 0⟩) ⟨.uint16, 1, .sngl⟩ row_u16 rw
    ['/', 'v'] (by decide)
  varErrors := varErrors
  number := number

theorem small_ownVariable {rd : Mbregdata} {rm : RegC} {v : UaVar}
    (hname : rm.strOpcname = ['/', 'v']) (hvar : v.isVar = true)
    (htype : rm.prop.rtype.uaType = some v.uaType) : Gateway.OwnVariable (small rd rm v) ['v'] := by
  refine ⟨List.mem_singleton_self _, ?_, ?_, htype⟩
  · simp [OpcServer.isVariable, small, hname, hvar]
  · rintro ⟨m, hm, hne, -⟩
    exact hne (List.mem_singleton.mp hm)

end RwModbus.Refresh
