import RwModbus.Library.Runs
import RwModbus.Master
import RwModbus.Reg

/-!
# Loading the configuration

`cfg_master` on the parsed file: the PLC objects, the entries of their registers
in `REGmap` and the SCADA variables. Tuples have the lengths and types the loader
casts them to, since anything else ends the program; messages are left out. Pointers
to registers are followed as if no PLC object moved while others are created, which is
so as long as the inventory has no more groups of the listed names than `PLCvec` has room
for. A load in which the program ends has no result.
-/
namespace RwModbus.Loader
open Numeric Registers Reg Master

/-- `(raddr, rname, rmode, rtype, rfolder)`; the type is not stored. -/
structure RegTuple where
  raddr : ℤ
  rname : Name
  rmode : Name
  rfolder : Option Name := none
deriving DecidableEq, Repr

/-- A group of the `PLC` list: `none` where `lookupValue` finds no such setting. -/
structure PlcGroup where
  name : Option Name
  folder : Option Name
  desc : Option Name
  ip : Option Name
  port : Option ℤ
  attempts : Option ℤ
  polling : Option ℤ
  timeout : Option ℤ
  regs : List RegTuple

/-- `(rname, rmode, rtype, rfolder, rsource)`. -/
structure VarTuple where
  rname : Name
  rmode : Name
  rtype : Name
  rfolder : Option Name := none
  rsource : Option Name := none
deriving DecidableEq, Repr

structure ScadaGroup where
  name : Option Name
  folder : Option Name
  desc : Option Name
  vars : List VarTuple

structure Config where
  plcList : List Name
  plcs : List PlcGroup
  scadaList : List Name
  scada : List ScadaGroup

/-- An element of `PLCvec` with the member that only loading reads. -/
structure Plc extends ModbusPLC where
  strDevFolder : Name

/-- The settings of a complete group. -/
structure PlcSettings where
  name : Name
  folder : Name
  port : ℤ
  attempts : ℤ
  regs : List RegTuple

def PlcGroup.settings (g : PlcGroup) : Option PlcSettings := do
  let name ← g.name
  let folder ← g.folder
  let _ ← g.desc
  let _ ← g.ip
  let port ← g.port
  let attempts ← g.attempts
  let _ ← g.polling
  let _ ← g.timeout
  pure ⟨name, folder, port, attempts, g.regs⟩

/-- The list names the PLC or starts with the word for all of them. -/
def listed (listPLC : List Name) (name : Name) : Bool :=
  decide (listPLC.head? = some ['a', 'l', 'l'] ∨ listPLC.head? = some ['A', 'L', 'L'] ∨
    name ∈ listPLC)

def newPlc (name : Name) (port attempts : ℤ) : ModbusPLC where
  strDevName := name
  tcpPort := port
  attempts := attempts
  bounds := bounds_zero
  regs := .empty fun a => { raddr := a }
  placed := fun _ => rfl

def RegTuple.reg (t : RegTuple) : Mbreg where
  raddr := t.raddr
  strRname := t.rname
  strMode := t.rmode
  strRfolder := t.rfolder.getD []
  data := { rvalue := 555 }

theorem placed_insert (m : ModbusPLC) (t : RegTuple) (a : ℤ) :
    ((m.regs.insert t.raddr t.reg).val a).raddr = a := by
  by_cases h : a = t.raddr
  · rw [h, KeyedMap.insert_val_self]
    rfl
  · rw [KeyedMap.insert_val_of_ne _ h]
    exact m.placed a

/-- `cfg_init_plcregs`: a later tuple with the same address replaces the register. -/
def cfgInitPlcregs (ts : List RegTuple) (m : ModbusPLC) : ModbusPLC :=
  ts.foldl (fun m t => { m with
    regs := m.regs.insert t.raddr t.reg
    placed := placed_insert m t }) m

def PlcSettings.plc (s : PlcSettings) : Plc where
  toModbusPLC := initRegs (cfgInitPlcregs s.regs (newPlc s.name s.port s.attempts))
  strDevFolder := s.folder

/-- `PLCvec` while loading: `init_regs` has prepared every element. -/
structure PlcSet where
  elems : List Plc
  prepared : ∀ D ∈ elems, ∃ m, D.toModbusPLC = initRegs m

def loadedPlcs (listPLC : List Name) (gs : List PlcGroup) : List PlcSettings :=
  (gs.filterMap PlcGroup.settings).filter fun s => listed listPLC s.name

/-- `cfg_init_plcset`. -/
def cfgInitPlcset (listPLC : List Name) (gs : List PlcGroup) : PlcSet where
  elems := (loadedPlcs listPLC gs).map PlcSettings.plc
  prepared := by
    intro D hD
    obtain ⟨s, -, rfl⟩ := List.mem_map.mp hD
    exact ⟨_, rfl⟩

namespace PlcSet

/-- An object without registers stands beyond the end. -/
def vec (P : PlcSet) : PlcVec := fun i =>
  match P.elems[i]? with
  | some D => D.toModbusPLC
  | none => initRegs (newPlc [] 0 0)

theorem vec_prepared (P : PlcSet) (i : ℕ) : ∃ m, P.vec i = initRegs m := by
  unfold vec
  split
  · rename_i D hD
    exact P.prepared D (List.mem_of_getElem? hD)
  · exact ⟨_, rfl⟩

theorem vec_of_getElem {P : PlcSet} {i : ℕ} {D : Plc} (h : P.elems[i]? = some D) :
    P.vec i = D.toModbusPLC := by
  unfold vec
  rw [h]

theorem linked (P : PlcSet) : Linked P.vec := by
  intro i a b h
  obtain ⟨m, hm⟩ := P.vec_prepared i
  rw [hm] at h
  exact initRegs_rNext h

/-- Two registers are linked exactly if their addresses are neighbours. -/
theorem rNext_eq (P : PlcSet) (i : ℕ) (a : ℤ) : ((P.vec i).regs.val a).rNext =
    if a + 1 ∈ (P.vec i).regs.keys then some (a + 1) else none := by
  obtain ⟨m, hm⟩ := P.vec_prepared i
  simp only [hm, initRegs, KeyedMap.mapVals_val, KeyedMap.mapVals_keys, m.placed]

end PlcSet

/-- `remove_dbl_slashes`: one slash of the first pair goes. -/
def removeDblSlashes : Name → Name
  | [] => []
  | c :: s => if c = '/' ∧ s.head? = some '/' then s else c :: removeDblSlashes s

/-- What both constructors do to a path: four such calls. -/
def cleanPath (s : Name) : Name := removeDblSlashes^[4] s

@[simp] theorem slash_mem_removeDblSlashes {s : Name} : '/' ∈ removeDblSlashes s ↔ '/' ∈ s := by
  induction s with
  | nil => rfl
  | cons c s ih =>
      unfold removeDblSlashes
      split_ifs with h
      · have hs : '/' ∈ s := List.mem_of_mem_head? h.2
        simp [hs]
      · rw [List.mem_cons, ih, List.mem_cons]

@[simp] theorem slash_mem_cleanPath {s : Name} : '/' ∈ cleanPath s ↔ '/' ∈ s := by
  simp [cleanPath]

/-- `rfullname` of a variable: some set names are no prefix. -/
def fullName (dname rname : Name) : Name :=
  if dname = ['-'] ∨ dname = ['.'] ∨ dname = [] then rname else dname ++ '.' :: rname

def opcBase (dfolder dname : Name) : Name := '/' :: dfolder ++ '/' :: dname ++ ['/']

/-- `check_type` with the row of `regprop_map` that both it and the constructor find. -/
def checkType (st : Name) : Option {prop : RegProp // prop.Row} :=
  match h : regpropMap.find? fun r => r.1.toList == st.map Char.toLower with
  | some r => some ⟨r.2, List.mem_map_of_mem (List.mem_of_find?_eq_some h)⟩
  | none => none

/-- An element of `REGmap`. For a variable of a SCADA set, `origin` is the set's and
the tuple's position; nothing reads it. -/
structure Entry extends RegC where
  origin : Option (ℕ × ℕ) := none

abbrev Regmap := KeyedMap Name Entry

def modbusPath (D : Plc) (r : Mbreg) : Name :=
  cleanPath ('/' :: D.strDevFolder ++ '/' :: D.strDevName ++ '/' :: r.strRfolder ++
    '/' :: r.rfullname)

/-- `Reg_c(mbreg_t*, ModbusPLC_c*)` on register `p` of `D`. -/
def modbusEntry (P : PlcSet) (D : Plc) (p : RegPtr) : Entry where
  toRegC := (RegC.getPlcValue P.vec
    { toRegDef := .ofModbus p (D.regs.val p.raddr).data.rmode (modbusPath D (D.regs.val p.raddr))
        (by simp [modbusPath]) }).1

/-- The assignments of `regs_create_from_plc`, in order. -/
def modbusEntries (P : PlcSet) : List (Name × Entry) :=
  P.elems.zipIdx.flatMap fun D => D.1.regs.keys.map fun a =>
    ((D.1.regs.val a).rfullname, modbusEntry P D.1 ⟨D.2, a⟩)

/-- An empty `REGmap`. -/
def noEntries : Regmap := .empty fun _ =>
  { toRegDef := .ofScada ⟨.uint16, 1, .sngl⟩ row_u16 0 ['/'] (by decide) }

def regsCreateFromPlc (P : PlcSet) : Regmap := noEntries.insertAll (modbusEntries P)

/-- A tuple with the name and folder of its set and its position. -/
structure ScadaVar extends VarTuple where
  dname : Name
  dfolder : Name
  origin : ℕ × ℕ
deriving DecidableEq, Repr

namespace ScadaVar

def key (v : ScadaVar) : Name := fullName v.dname v.rname

def source (v : ScadaVar) : Name := v.rsource.getD []

/-- A variable with a source is made `is_ref`, any other `is_scada`. -/
def isRef (v : ScadaVar) : Bool := decide (v.source ≠ [] ∧ v.source ≠ ['-'])

def path (v : ScadaVar) : Name :=
  cleanPath (opcBase v.dfolder v.dname ++ v.rfolder.getD [] ++ '/' :: v.key)

theorem slash_mem_path (v : ScadaVar) : '/' ∈ v.path := by simp [path]

def varModeRw (v : ScadaVar) : ℤ := if v.rmode = ['r', 'w'] then 1 else 0

end ScadaVar

/-- The loop that fills `ptr_reg`. Every round takes `r_next` from the pointer it
stores; there is no result if that one is null. -/
def walk (plcs : PlcVec) : ℕ → Option RegPtr → Option (List RegPtr)
  | 0, _ => some []
  | _ + 1, none => none
  | n + 1, some p =>
      (walk plcs n (((plcs p.plc).regs.val p.raddr).rNext.map fun a => ⟨p.plc, a⟩)).map (p :: ·)

/-- `Reg_c(mbreg_t*, mbreg_t*, string, string, string)`. -/
def construct (P : PlcSet) (src : Option RegPtr) (v : ScadaVar) (prop : RegProp)
    (row : prop.Row) : Option RegDef :=
  if v.isRef then
    match src with
    | some p => (walk P.vec prop.rsize (some p)).map fun _ =>
        .ofSource P.linked (some p) prop row v.varModeRw v.path v.slash_mem_path
    | none => some (.ofSource P.linked none prop row v.varModeRw v.path v.slash_mem_path)
  else some (.ofScada prop row v.varModeRw v.path v.slash_mem_path)

/-- `Number` after it is assigned 888. -/
def firstNumber : VarType → NumericU
  | .float | .f10 | .f100 => .setUi32 {} 0x445e0000
  | .double => .ofUi64 0x408bc00000000000
  | _ => .ofUi16 888

def scadaEntry (v : ScadaVar) (d : RegDef) : Entry where
  toRegDef := d
  number := firstNumber d.prop.rtype
  origin := some v.origin

/-- The first pointer of the source, null if there is none. -/
def pointer (R : Regmap) (v : ScadaVar) : Option RegPtr :=
  if v.isRef then (R.val v.source).ptrReg 0 else none

/-- One round of the loop in `cfg_init_scadavars`. -/
def scadaVar (P : PlcSet) (R : Regmap) (v : ScadaVar) : Option Regmap :=
  if v.isRef ∧ v.source ∉ R.keys then some R
  else
    match checkType v.rtype with
    | some prop => (construct P (pointer R v) v prop.1 prop.2).map fun d =>
        R.insert v.key (scadaEntry v d)
    | none => some R

def cfgInitScadavars (P : PlcSet) (vs : List ScadaVar) (R : Regmap) : Option Regmap :=
  vs.foldlM (scadaVar P) R

/-- The tuples of a complete set, at position `i`. -/
def ScadaGroup.tuples (g : ScadaGroup) (i : ℕ) : List ScadaVar :=
  match g.name, g.folder, g.desc with
  | some dname, some dfolder, some _ =>
      g.vars.zipIdx.map fun t => { t.1 with dname := dname, dfolder := dfolder, origin := (i, t.2) }
  | _, _, _ => []

/-- All tuples in the order in which they are read. -/
def scadaVars (gs : List ScadaGroup) : List ScadaVar :=
  gs.zipIdx.flatMap fun g => g.1.tuples g.2

/-- `cfg_init_scadaset`. The list of names only serves its messages. -/
def cfgInitScadaset (P : PlcSet) (gs : List ScadaGroup) (R : Regmap) : Option Regmap :=
  gs.zipIdx.foldlM (fun R g => cfgInitScadavars P (g.1.tuples g.2) R) R

/-- `cfg_master`. The program ends if one of the lists is empty. -/
def cfgMaster (c : Config) : Option (PlcSet × Regmap) :=
  if c.plcList = [] ∨ c.scadaList = [] then none
  else
    let P := cfgInitPlcset c.plcList c.plcs
    (cfgInitScadaset P c.scada (regsCreateFromPlc P)).map fun R => (P, R)

/-- A complete group. -/
def smallGroup (name : Name) (regs : List RegTuple) : PlcGroup where
  name := some name
  folder := some ['P', 'L', 'C']
  desc := some []
  ip := some []
  port := some 502
  attempts := some 1
  polling := some 1000
  timeout := some 1000
  regs := regs

def smallSet (name : Name) (vars : List VarTuple) : ScadaGroup where
  name := some name
  folder := some ['S']
  desc := some []
  vars := vars

def allPlcs : List Name := [['a', 'l', 'l']]

end RwModbus.Loader
