import RwModbus.Registers

/-!
# The OPC server's variables

`OpcServer_c` over the open62541 server. A variable keeps the server node's
scalar beside its cached raw value; folders share the map. What the library
answers is a parameter: the status of a write for each node, and, when a node is
read, either nothing or a pointer to its scalar. Eight bytes are always copied
from that pointer, so a read is given the bytes that follow the scalar.
-/
namespace RwModbus.Opc
open Numeric Registers

abbrev StatusCode := BitVec 32

def statusGood : StatusCode := 0

def badNotConnected : StatusCode := 0x808A0000

/-- `ua_var_t`, less names and time stamps; `node` is the scalar in the server. -/
structure UaVar where
  isVar : Bool := true
  uaType : UaType
  rawValue : NumericU := {}
  node : NumericU := {}
  uaStatus : StatusCode := statusGood
deriving DecidableEq, Repr

/-- `OpcServer_c`. `wrStatus` is what `UA_Server_writeDataValue` answers. -/
structure OpcServer where
  vars : KeyedMap Name UaVar
  wrStatus : Name → StatusCode

/-- The memory read through the pointer that a node read returns, beyond the
scalar; `none` if the read returns no data. -/
abbrev ReadData := Name → Option NumericU

namespace OpcServer

def isVariable (o : OpcServer) (s : Name) : Bool :=
  decide (s ∈ o.vars.keys) && (o.vars.val s).isVar

def isGood (o : OpcServer) (s : Name) : Bool :=
  o.isVariable s && (o.vars.val s).uaStatus == statusGood

def readRawUnion (o : OpcServer) (s : Name) : NumericU :=
  if o.isVariable s then (o.vars.val s).rawValue else {}

def modifyVar (o : OpcServer) (s : Name) (f : UaVar → UaVar) : OpcServer :=
  { o with vars := o.vars.modify s f }

/-- `write_Variable`: the type of the variable selects how many of the bytes at
`ptr_value` go to the node. The answer is assigned to a `bool` on its way into
`ua_status`. -/
def writeVariable (wrStatus : StatusCode) (bytes : NumericU) (isOk : Bool) (v : UaVar) : UaVar :=
  let uaStatus := if isOk then statusGood else badNotConnected
  { v with
    node := if wrStatus = statusGood then bytes.typed v.uaType.words else v.node
    uaStatus := if uaStatus = statusGood then (if wrStatus ≠ 0 then 1 else 0) else uaStatus }

def writeRawUnion (o : OpcServer) (s : Name) (rawVu : NumericU) (isOK : Bool) :
    OpcServer × Bool :=
  if s ∈ o.vars.keys then
    let o := o.modifyVar s fun v =>
      writeVariable (o.wrStatus s) rawVu isOK { v with rawValue := rawVu }
    (o, (o.vars.val s).uaStatus == statusGood)
  else (o, false)

/-- `refresh_RawValue`; reading the value of a folder returns no data. -/
def refreshRawValue (data : Option NumericU) (s : Name) (o : OpcServer) : OpcServer × Bool :=
  match data with
  | some beyond =>
      if o.isVariable s then
        (o.modifyVar s fun v => { v with rawValue := v.node.overlay v.uaType.words beyond }, true)
      else (o, false)
  | none => (o, false)

def refreshAllValues (data : ReadData) (o : OpcServer) : OpcServer :=
  o.vars.keys.foldl (fun o s => (refreshRawValue (data s) s o).1) o

/-- `ReadNumber`, with the value in `x` before and after the call. -/
def readNumber (data : Option NumericU) (s : Name) (x : NumericU) (o : OpcServer) :
    OpcServer × NumericU × Bool :=
  if o.isVariable s then
    let r := refreshRawValue data s o
    if r.2 then (r.1, (r.1.vars.val s).rawValue, r.1.isGood s) else (r.1, x, false)
  else (o, x, false)

/-- `WriteNumber`: eight bytes are copied from the address of the argument, so
`x` also stands for the bytes that follow it. -/
def writeNumber (s : Name) (x : NumericU) (isOK : Bool) (o : OpcServer) : OpcServer × Bool :=
  if o.isVariable s then
    let o := o.modifyVar s fun v =>
      writeVariable (o.wrStatus s) x isOK { v with rawValue := x }
    (o, (o.vars.val s).uaStatus == statusGood)
  else (o, false)

/-- `UpdateVar`. The value read before is returned, and the last result is what
`isOK` holds after the call. -/
def updateVar (data : Option NumericU) (s : Name) (x : NumericU) (isOK : Bool) (o : OpcServer) :
    OpcServer × NumericU × Bool :=
  let r := readNumber data s x o
  let w := writeNumber s x isOK r.1
  (w.1, r.2.1, r.2.2 && w.2)

def baseName (ss : Name) : Name := ss.rtakeWhile (· ≠ '/')

/-- The loop of `GetVarFullName` over the given keys. -/
def findFullName (s : Name) : List Name → Name
  | [] => s
  | ss :: rest =>
      if ss = s then s
      else if s <:+: ss ∧ '/' ∈ ss ∧ baseName ss = s then ss
      else findFullName s rest

def getVarFullName (o : OpcServer) (s : Name) : Name := findFullName s o.vars.keys

def writeValue (data : Option NumericU) (s : Name) (val : NumericU) (isOK : Bool)
    (o : OpcServer) : OpcServer :=
  (updateVar data (o.getVarFullName s) val isOK o).1

/-- The server after the conversion of an `OPC_server::ReadValue`, which calls
`ReadNumber` on an unset number. -/
def readValue (data : ReadData) (s : Name) (o : OpcServer) : OpcServer :=
  (readNumber (data (o.getVarFullName s)) (o.getVarFullName s) {} o).1

/-- A client writes a scalar to a node: the gateway is not told. -/
def clientWrite (s : Name) (x : NumericU) (o : OpcServer) : OpcServer :=
  if o.isVariable s then o.modifyVar s fun v => { v with node := x.typed v.uaType.words } else o

theorem slash_notMem_baseName (ss : Name) : '/' ∉ baseName ss := by
  intro h
  have := List.mem_rtakeWhile_imp h
  simp at this

theorem findFullName_of_slash {s : Name} (h : '/' ∈ s) (keys : List Name) :
    findFullName s keys = s := by
  induction keys with
  | nil => rfl
  | cons ss rest ih =>
      unfold findFullName
      split_ifs with heq hbase
      · rfl
      · exact absurd (hbase.2.2 ▸ h) (slash_notMem_baseName ss)
      · exact ih

theorem getVarFullName_of_slash {s : Name} (h : '/' ∈ s) (o : OpcServer) :
    o.getVarFullName s = s := findFullName_of_slash h o.vars.keys

/-- The second server is the first but for the contents of the variables in `S`. -/
structure Touches (S : Set Name) (o o' : OpcServer) : Prop where
  keys : o'.vars.keys = o.vars.keys
  wrStatus : o'.wrStatus = o.wrStatus
  isVar : ∀ t, (o'.vars.val t).isVar = (o.vars.val t).isVar
  uaType : ∀ t, (o'.vars.val t).uaType = (o.vars.val t).uaType
  others : ∀ t, t ∉ S → o'.vars.val t = o.vars.val t

theorem Touches.refl (S : Set Name) (o : OpcServer) : Touches S o o :=
  ⟨rfl, rfl, fun _ => rfl, fun _ => rfl, fun _ _ => rfl⟩

theorem Touches.trans {S : Set Name} {o₁ o₂ o₃ : OpcServer} (h : Touches S o₁ o₂)
    (h' : Touches S o₂ o₃) : Touches S o₁ o₃ :=
  ⟨h'.keys.trans h.keys, h'.wrStatus.trans h.wrStatus, fun t => (h'.isVar t).trans (h.isVar t),
    fun t => (h'.uaType t).trans (h.uaType t), fun t ht => (h'.others t ht).trans (h.others t ht)⟩

theorem Touches.mono {S T : Set Name} {o o' : OpcServer} (h : Touches S o o') (hST : S ⊆ T) :
    Touches T o o' :=
  ⟨h.keys, h.wrStatus, h.isVar, h.uaType, fun t ht => h.others t fun hs => ht (hST hs)⟩

theorem Touches.isVariable {S : Set Name} {o o' : OpcServer} (h : Touches S o o') (s : Name) :
    o'.isVariable s = o.isVariable s := by
  simp only [OpcServer.isVariable, h.keys, h.isVar]

theorem modifyVar_touches {f : UaVar → UaVar} (hvar : ∀ v, (f v).isVar = v.isVar)
    (htype : ∀ v, (f v).uaType = v.uaType) (s : Name) (o : OpcServer) :
    Touches {s} o (o.modifyVar s f) := by
  refine ⟨rfl, rfl, fun t => ?_, fun t => ?_, fun t ht => KeyedMap.modify_val_of_ne _ ht f⟩
  · by_cases h : t = s <;> simp [modifyVar, KeyedMap.modify_val, h, hvar]
  · by_cases h : t = s <;> simp [modifyVar, KeyedMap.modify_val, h, htype]

@[simp] theorem modifyVar_val_self (o : OpcServer) (s : Name) (f : UaVar → UaVar) :
    (o.modifyVar s f).vars.val s = f (o.vars.val s) := by
  simp [modifyVar]

theorem mem_keys_of_isVariable {o : OpcServer} {s : Name} (h : o.isVariable s = true) :
    s ∈ o.vars.keys := by
  simp only [isVariable, Bool.and_eq_true, decide_eq_true_eq] at h
  exact h.1

theorem writeVariable_accepted {a : StatusCode} (h : a = statusGood) (x : NumericU) (b : Bool)
    (v : UaVar) : writeVariable a x b v = { v with
      node := x.typed v.uaType.words
      uaStatus := if b then statusGood else badNotConnected } := by
  subst h
  cases b <;> simp [writeVariable, statusGood, badNotConnected]

/-- What both writes do to a variable that they accept. -/
theorem modifyVar_write_touches (s : Name) (x : NumericU) (b : Bool) (o : OpcServer) :
    Touches {s} o (o.modifyVar s fun v => writeVariable (o.wrStatus s) x b { v with rawValue := x }) :=
  modifyVar_touches (f := fun v => writeVariable (o.wrStatus s) x b { v with rawValue := x })
    (fun _ => rfl) (fun _ => rfl) s o

theorem writeRawUnion_touches (s : Name) (x : NumericU) (b : Bool) (o : OpcServer) :
    Touches {s} o (o.writeRawUnion s x b).1 := by
  unfold writeRawUnion
  split_ifs
  · exact modifyVar_write_touches s x b o
  · exact Touches.refl _ o

theorem writeRawUnion_val {s : Name} {o : OpcServer} (h : o.isVariable s = true) (x : NumericU)
    (b : Bool) : (o.writeRawUnion s x b).1.vars.val s =
      writeVariable (o.wrStatus s) x b { o.vars.val s with rawValue := x } := by
  rw [writeRawUnion, if_pos (mem_keys_of_isVariable h), modifyVar_val_self]

/-- What a read leaves in a variable. -/
def refreshVar (data : Option NumericU) (v : UaVar) : UaVar :=
  match data with
  | some beyond => { v with rawValue := v.node.overlay v.uaType.words beyond }
  | none => v

@[simp] theorem refreshVar_uaStatus (data : Option NumericU) (v : UaVar) :
    (refreshVar data v).uaStatus = v.uaStatus := by
  cases data <;> rfl

theorem refreshRawValue_eq (data : Option NumericU) (s : Name) (o : OpcServer) :
    (refreshRawValue data s o).1 = if o.isVariable s then o.modifyVar s (refreshVar data) else o := by
  cases data with
  | some beyond =>
      simp only [refreshRawValue]
      split_ifs <;> rfl
  | none => simp [refreshRawValue, refreshVar, modifyVar, KeyedMap.modify]

theorem refreshVar_idem (data : Option NumericU) (v : UaVar) :
    refreshVar data (refreshVar data v) = refreshVar data v := by
  cases data <;> rfl

theorem refreshRawValue_touches (data : Option NumericU) (s : Name) (o : OpcServer) :
    Touches {s} o (refreshRawValue data s o).1 := by
  rw [refreshRawValue_eq]
  split_ifs
  · exact modifyVar_touches (fun _ => by cases data <;> rfl) (fun _ => by cases data <;> rfl) s o
  · exact Touches.refl _ o

theorem refreshRawValue_val (data : Option NumericU) (s t : Name) (o : OpcServer) :
    (refreshRawValue data s o).1.vars.val t =
      if t = s ∧ o.isVariable s then refreshVar data (o.vars.val t) else o.vars.val t := by
  by_cases h : t = s
  · subst h
    rw [refreshRawValue_eq]
    by_cases hv : o.isVariable t <;> simp [hv]
  · rw [(refreshRawValue_touches data s o).others t h, if_neg fun hs => h hs.1]

theorem refreshList_val (data : ReadData) (t : Name) (ss : List Name) (o : OpcServer) :
    (ss.foldl (fun o s => (refreshRawValue (data s) s o).1) o).vars.val t =
      if t ∈ ss ∧ o.isVariable t then refreshVar (data t) (o.vars.val t) else o.vars.val t := by
  induction ss generalizing o with
  | nil => simp
  | cons s ss ih =>
      have hvar := (refreshRawValue_touches (data s) s o).isVariable t
      rw [List.foldl_cons, ih, hvar, refreshRawValue_val]
      by_cases hts : t = s
      · subst hts
        by_cases hv : o.isVariable t <;> by_cases hm : t ∈ ss <;> simp [hv, hm, refreshVar_idem]
      · simp [hts]

theorem refreshList_touches (data : ReadData) (ss : List Name) (o : OpcServer) :
    Touches Set.univ o (ss.foldl (fun o s => (refreshRawValue (data s) s o).1) o) := by
  induction ss generalizing o with
  | nil => exact Touches.refl _ o
  | cons s ss ih =>
      exact ((refreshRawValue_touches (data s) s o).mono (Set.subset_univ _)).trans (ih _)

theorem refreshAllValues_touches (data : ReadData) (o : OpcServer) :
    Touches Set.univ o (refreshAllValues data o) := refreshList_touches data o.vars.keys o

/-- `RefreshAllValues` copies every node that gives data to its cache. -/
theorem refreshAllValues_val {o : OpcServer} {t : Name} (h : o.isVariable t = true)
    (data : ReadData) :
    (refreshAllValues data o).vars.val t = refreshVar (data t) (o.vars.val t) := by
  rw [refreshAllValues, refreshList_val, if_pos ⟨mem_keys_of_isVariable h, h⟩]

theorem readNumber_fst (data : Option NumericU) (s : Name) (x : NumericU) (o : OpcServer) :
    (readNumber data s x o).1 = (refreshRawValue data s o).1 := by
  by_cases h : o.isVariable s
  · rw [readNumber, if_pos h]
    dsimp only
    split_ifs <;> rfl
  · simp [readNumber, refreshRawValue_eq, h]

theorem readValue_of_slash {s : Name} (h : '/' ∈ s) (data : ReadData) (o : OpcServer) :
    readValue data s o = (refreshRawValue (data s) s o).1 := by
  rw [readValue, getVarFullName_of_slash h, readNumber_fst]

theorem writeNumber_touches (s : Name) (x : NumericU) (b : Bool) (o : OpcServer) :
    Touches {s} o (writeNumber s x b o).1 := by
  unfold writeNumber
  split_ifs
  · exact modifyVar_write_touches s x b o
  · exact Touches.refl _ o

theorem writeValue_touches (data : Option NumericU) (s : Name) (x : NumericU) (b : Bool)
    (o : OpcServer) : Touches {o.getVarFullName s} o (writeValue data s x b o) := by
  unfold writeValue updateVar
  dsimp only
  have hread := refreshRawValue_touches data (o.getVarFullName s) o
  rw [← readNumber_fst data (o.getVarFullName s) x o] at hread
  exact hread.trans (writeNumber_touches _ x b _)

/-- An in-process write leaves its bytes in the cache and its scalar in the node. -/
theorem writeValue_val {o : OpcServer} {s : Name}
    (h : o.isVariable (o.getVarFullName s) = true) (data : Option NumericU) (x : NumericU)
    (b : Bool) : (writeValue data s x b o).vars.val (o.getVarFullName s) =
      writeVariable (o.wrStatus (o.getVarFullName s)) x b
        { o.vars.val (o.getVarFullName s) with rawValue := x } := by
  have hread := refreshRawValue_touches data (o.getVarFullName s) o
  rw [writeValue, updateVar, readNumber_fst, writeNumber, hread.isVariable, if_pos h,
    modifyVar_val_self, hread.wrStatus, refreshRawValue_val, if_pos ⟨rfl, h⟩]
  cases data <;> rfl

theorem clientWrite_touches (s : Name) (x : NumericU) (o : OpcServer) :
    Touches {s} o (clientWrite s x o) := by
  unfold clientWrite
  split_ifs
  · exact modifyVar_touches (f := fun v => { v with node := x.typed v.uaType.words })
      (fun _ => rfl) (fun _ => rfl) s o
  · exact Touches.refl _ o

@[simp] theorem clientWrite_uaStatus (s t : Name) (x : NumericU) (o : OpcServer) :
    ((clientWrite s x o).vars.val t).uaStatus = (o.vars.val t).uaStatus := by
  by_cases h : t = s
  · subst h
    unfold clientWrite
    split_ifs <;> simp
  · rw [(clientWrite_touches s x o).others t h]

theorem clientWrite_val {o : OpcServer} {s : Name} (h : o.isVariable s = true) (x : NumericU) :
    (clientWrite s x o).vars.val s =
      { o.vars.val s with node := x.typed (o.vars.val s).uaType.words } := by
  rw [clientWrite, if_pos h, modifyVar_val_self]

end OpcServer
end RwModbus.Opc
