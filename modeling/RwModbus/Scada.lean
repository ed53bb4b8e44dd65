import RwModbus.OpcServer
import RwModbus.Library.Binary32

/-!
# The SCADA task

`task_scada_` and `check` over the OPC server. The globals of the scada files
are one record, and the task's programs carry it through a state monad together
with the server and a log of what they write. Temperatures are binary32.
-/
namespace RwModbus.Scada
open Numeric Registers Opc

abbrev Float32 := Binary32.Bits

/-- The globals. `Tbuf0`, `Tdef0` and `Ttsa0` are references, see below. -/
structure Globals where
  process : Word := 0
  mode : Word := 0
  pset : Word := 0
  tkub0 : Float32 := 0
  tkub1 : Float32 := 0
  tkub2 : Float32 := 0
  tdef : Float32 := 0
  tbuf : Float32 := 0
  ttsa : Float32 := 0
  pDist : Word := 0
  modDist : Word := 0
  pRect : Word := 0
  modRect : Word := 0
  pHeat : Word := 0
  modHeat : Word := 0
deriving DecidableEq, Repr

/-- `float &Tbuf0 = Tbuf;` -/
def Globals.tbuf0 (g : Globals) : Float32 := g.tbuf

/-- `float &Tdef0 = Tbuf;` -/
def Globals.tdef0 (g : Globals) : Float32 := g.tbuf

/-- `float &Ttsa0 = Ttsa;` -/
def Globals.ttsa0 (g : Globals) : Float32 := g.ttsa

/-- What a pass meets: the data of node reads, and by short name the contents of
a number that is not set before it is read and the bytes that follow a number
that is written. -/
structure Env where
  node : ReadData
  unset : String → NumericU
  stack : String → NumericU

/-- The log has the latest write first. -/
structure ScadaState where
  opcs : OpcServer
  vars : Globals
  written : List (String × NumericU) := []

abbrev ScadaM := StateM ScadaState

def ScadaState.mapVars (f : Globals → Globals) (s : ScadaState) : ScadaState :=
  { s with vars := f s.vars }

def setVars (f : Globals → Globals) : ScadaM Unit := modify (ScadaState.mapVars f)

def onlyIf (c : Bool) (m : ScadaM Unit) : ScadaM Unit := if c then m else pure ()

/-- `OPCs.ReadNumber(OPCs.GetVarFullName(svar), x)`. -/
def readNumber (env : Env) (svar : String) (x : NumericU) : ScadaM (NumericU × Bool) := fun s =>
  let name := s.opcs.getVarFullName svar.toList
  let r := OpcServer.readNumber (env.node name) name x s.opcs
  (r.2, { s with opcs := r.1 })

/-- `OPCs.WriteNumber(OPCs.GetVarFullName(svar), x, true)` for a number of `n` words. -/
def writeNumber (env : Env) (svar : String) (n : ℕ) (x : NumericU) : ScadaM Unit :=
  modify fun s =>
    let name := s.opcs.getVarFullName svar.toList
    { s with
      opcs := (OpcServer.writeNumber name (NumericU.overlay n x (env.stack svar)) true s.opcs).1
      written := (svar, x) :: s.written }

/-- `WriteValue(svar, x)` for a number of `n` words. -/
def writeValue (env : Env) (svar : String) (n : ℕ) (x : NumericU) : ScadaM Unit :=
  modify fun s =>
    let name := s.opcs.getVarFullName svar.toList
    { s with
      opcs := OpcServer.writeValue (env.node name) svar.toList
        (NumericU.overlay n x (env.stack svar)) true s.opcs
      written := (svar, x) :: s.written }

/-- `uint16_t x = ReadValue(svar);` -/
def readU16 (env : Env) (svar : String) : ScadaM Word := do
  let r ← readNumber env svar (env.unset svar)
  return r.1.ui16

/-- `int x = ReadValue(svar);` -/
def readInt (env : Env) (svar : String) : ScadaM ℤ := do
  let r ← readNumber env svar (env.unset svar)
  return r.1.ui32.toInt

/-- `float x = ReadValue(svar);` -/
def readFloat (env : Env) (svar : String) : ScadaM Float32 := do
  let r ← readNumber env svar (env.unset svar)
  return r.1.ui32

/-- The level under a short name, 0 without one. -/
def readLevel (env : Env) : Option String → ScadaM Word
  | some svar => readU16 env svar
  | none => pure 0

def writeU16 (env : Env) (svar : String) (x : Word) : ScadaM Unit :=
  writeValue env svar 1 (.ofUi16 x)

def writeInt (env : Env) (svar : String) (x : ℤ) : ScadaM Unit :=
  writeValue env svar 2 (NumericU.setUi32 {} (BitVec.ofInt 32 x))

def addAlarm (env : Env) (alarmName : String) : ScadaM Unit := do
  let r ← readNumber env alarmName {}
  writeNumber env alarmName 1 (.ofUi16 (r.1.ui16 + 1))

/-- `ReadTemp(s, t)`; `set` stores to `t`. -/
def readTemp (env : Env) (svar : String) (set : Float32 → Globals → Globals) : ScadaM Bool := do
  let r ← readNumber env svar {}
  let f := r.1.ui32
  match r.2 with
  | true =>
      setVars (set f)
      onlyIf (Binary32.lt (Binary32.ofInt 100) f) (addAlarm env "Alarm.T")
      onlyIf (Binary32.lt f (Binary32.ofInt (-54))) (addAlarm env "Alarm.DS")
      return true
  | false =>
      addAlarm env "Alarm.MB"
      return false

/-- `TempMap`, in the order of its keys. -/
def tempMap : List (String × (Float32 → Globals → Globals)) :=
  [("Tbuf", fun t g => { g with tbuf := t }), ("Tdef", fun t g => { g with tdef := t }),
   ("Tkub1", fun t g => { g with tkub1 := t }), ("Tkub2", fun t g => { g with tkub2 := t }),
   ("Ttsa", fun t g => { g with ttsa := t })]

def readTemps (env : Env) :
    List (String × (Float32 → Globals → Globals)) → Word → ScadaM Word
  | [], errorCounter => pure errorCounter
  | e :: rest, errorCounter => do
      let ok ← readTemp env e.1 e.2
      readTemps env rest (if ok then errorCounter else errorCounter + 1)

def updateTemps (env : Env) : ScadaM Word := do
  let errorCounter ← readTemps env tempMap 0
  setVars fun g => { g with tkub0 := if Binary32.lt g.tkub2 g.tkub1 then g.tkub1 else g.tkub2 }
  writeNumber env "Tkub0" 2 (NumericU.setUi32 {} (← get).vars.tkub0)
  return errorCounter

/-- What `P_heat` does in process 4. The product of two 16-bit numbers is an `int`. -/
def heatPass (env : Env) : ScadaM Unit := do
  let theat0 ← readFloat env "T_heat"
  let pid0 ← readU16 env "PID"
  let pmax0 ← readU16 env "P_MAX"
  let pmin0 : Word := BitVec.ofInt 16 (Binary32.truncate (Binary32.mul theat0 (Binary32.ofInt 10)))
  setVars fun g => { g with modHeat := if pid0 = 0 then 84 else if 99 < pid0 then 14 else 24 }
  let share : Word := BitVec.ofInt 16 ((BitVec.ofNat 32 (pid0.toNat * pmax0.toNat)).toInt.tdiv 100)
  setVars fun g => { g with pHeat := if 0 < pid0 then pmin0 + share else 0 }
  setVars fun g => { g with pHeat := if 0 < g.pHeat ∧ g.pHeat < pmin0 then pmin0 else g.pHeat }
  setVars fun g => { g with pHeat := if pmax0 < g.pHeat then pmax0 else g.pHeat }
  writeU16 env "Mode" (← get).vars.modHeat

def pHeat (env : Env) : ScadaM Unit := do
  setVars fun g => { g with pHeat := 0 }
  onlyIf ((← get).vars.process == 4) (heatPass env)
  writeU16 env "P.heat" (← get).vars.pHeat

/-- `T_IN_RANGE`. -/
def tInRange (t : Float32) (minT maxT : ℤ) : Bool :=
  Binary32.le (Binary32.ofInt minT) t && Binary32.lt t (Binary32.ofInt maxT)

/-- A branch of `Dist1` or `Dist2`: the level that it reads, if any, what it
multiplies it with and the mode that it sets. -/
structure DistRow where
  svar : Option String
  times : Word := 1
  mod : Word
deriving DecidableEq, Repr

/-- The branch that `Dist1` takes; `none` if no temperature range applies. -/
def dist1Row (tdef0 tkub0 : Float32) : Option DistRow :=
  if Binary32.lt (Binary32.ofInt 40) tdef0 then
    if tInRange tkub0 0 97 then some { svar := "P_DIST", mod := 31 }
    else if tInRange tkub0 97 101 then some { svar := "P_TAIL", mod := 71 }
    else none
  else if Binary32.lt (Binary32.ofInt 30) tdef0 then some { svar := "P_WARM", times := 2, mod := 21 }
  else if Binary32.lt (Binary32.ofInt 100) tkub0 then some { svar := none, mod := 91 }
  else some { svar := "P_MAX", mod := 11 }

/-- The branch that `Dist2` takes. -/
def dist2Row (tdef0 tkub0 : Float32) : Option DistRow :=
  if Binary32.lt tdef0 (Binary32.ofInt 40) then
    if tInRange tkub0 0 80 then some { svar := "P_MAX", mod := 12 }
    else if tInRange tkub0 80 100 then some { svar := "P_WARM", mod := 22 }
    else none
  else if tInRange tkub0 0 82 then some { svar := "P_WARM", mod := 12 }
  else if tInRange tkub0 82 97 then some { svar := "P_DIST2", mod := 32 }
  else if tInRange tkub0 97 100 then some { svar := "P_DIST3", mod := 33 }
  else none

def applyRow (env : Env) : Option DistRow → ScadaM Unit
  | some row => do
      let p ← readLevel env row.svar
      setVars fun g => { g with pDist := p * row.times, modDist := row.mod }
  | none => pure ()

/-- `Dist1` or `Dist2`. -/
def dist (env : Env) (row : Float32 → Float32 → Option DistRow) : ScadaM Unit := do
  setVars fun g => { g with pDist := 0 }
  let g := (← get).vars
  applyRow env (row g.tdef0 g.tkub0)

def dist1 (env : Env) : ScadaM Unit := dist env dist1Row

def dist2 (env : Env) : ScadaM Unit := dist env dist2Row

/-- `CheckBoil`; the float constant is `0.15f`. -/
def checkBoil (env : Env) : ScadaM Unit := do
  let tboil0 ← readFloat env "T_boil"
  let tstop0 ← readFloat env "T_heat"
  setVars fun g =>
    let boils := Binary32.lt tstop0 g.tkub0 || Binary32.lt (Binary32.add tboil0 0x3e19999a) g.tkub0
    { g with modDist := if boils then 91 else g.modDist }

def distStage (env : Env) (process : Word) : ScadaM Unit :=
  if process = 1 then dist1 env else if process = 2 then dist2 env else pure ()

/-- What `P_dist` does in the processes 1 and 2. -/
def distPass (env : Env) : ScadaM Unit := do
  distStage env (← get).vars.process
  checkBoil env
  writeU16 env "Mode" (← get).vars.modDist

def pDist (env : Env) : ScadaM Unit := do
  setVars fun g => { g with pDist := 0 }
  let process := (← get).vars.process
  onlyIf (process == 1 || process == 2) (distPass env)
  writeU16 env "P.dist" (← get).vars.pDist

/-- The configured level that `P_rect` reads in a mode. -/
def rectLevel (m : Word) : Option String :=
  if 10 ≤ m ∧ m ≤ 19 then some "P_MAX"
  else if 20 ≤ m ∧ m ≤ 29 then some "P_WARM"
  else if 30 ≤ m ∧ m ≤ 39 then some "P_HEAD"
  else if 40 ≤ m ∧ m ≤ 49 then some "P_HEAD"
  else if 50 ≤ m ∧ m ≤ 59 then some "P_BODY"
  else if 60 ≤ m ∧ m ≤ 69 then some "P_BODY"
  else if 70 ≤ m ∧ m ≤ 79 then some "P_TAIL"
  else none

def rectMode (g : Globals) : Word :=
  if 90 < g.process then 99
  else if g.process = 9 then g.mode
  else if 9 < g.process then g.process
  else 99

def pRect (env : Env) : ScadaM Unit := do
  setVars fun g => { g with pRect := 0, modRect := rectMode g }
  let p ← readLevel env (rectLevel (← get).vars.modRect)
  setVars fun g => { g with pRect := p }
  writeU16 env "P.rect" (← get).vars.pRect

/-- The variable that holds the set-point of the present process. -/
def powerVar (process : Word) : Option String :=
  if process = 1 ∨ process = 2 then some "P.dist"
  else if process = 4 then some "P.heat"
  else if process = 7 then some "P.boil"
  else if 9 ≤ process ∧ process ≤ 79 then some "P.rect"
  else none

/-- `if (Process0 >= 9 && Pset0 > Pshift) Pset0 = Pset0 - Pshift;` on `int`s. -/
def shiftPset (process : Word) (pshift : ℤ) (pset : Word) : Word :=
  if 9 ≤ process ∧ pshift < pset.toNat then BitVec.ofInt 16 (pset.toNat - pshift) else pset

/-- `SetPower`; `P_boil` is empty. -/
def setPower (env : Env) : ScadaM Unit := do
  setVars fun g => { g with pset := 0 }
  let pshift ← readInt env "Pshift"
  pHeat env
  pDist env
  pRect env
  let p ← readLevel env (powerVar (← get).vars.process)
  setVars fun g => { g with pset := p }
  setVars fun g => { g with pset := shiftPset g.process pshift g.pset }
  writeU16 env "Pset" (← get).vars.pset

def updateProcess (env : Env) : ScadaM Unit := do
  let process ← readU16 env "Process"
  setVars fun g => { g with process := process }
  let mode ← readU16 env "Mode"
  setVars fun g => { g with mode := mode }

def taskScada (env : Env) : ScadaM Unit := do
  updateProcess env
  let _err ← updateTemps env
  setPower env

/-- The pressure correction that `check` computes, in `int`s. -/
def pressureShift (absPressure overPressure : Word) : ℤ :=
  (if absPressure < 755 then (755 - (absPressure.toNat : ℤ)) * 10 else 0) +
  (if 20 < overPressure then ((overPressure.toNat : ℤ) - 20) * 10 else 0) +
  (if 30 < overPressure then ((overPressure.toNat : ℤ) - 30) * 20 else 0) +
  (if 40 < overPressure then ((overPressure.toNat : ℤ) - 40) * 40 else 0)

/-- The counters of alarms as `check` reads them. -/
structure Alarms where
  mb : Word
  ds : Word
  t : Word
  p : Word

/-- The process in which `check` stops. -/
def stopProcess (g : Globals) (tboil2 : Float32) (overPressure : Word) (alarm : Alarms) : Word :=
  if 90 ≤ g.process then g.process
  else if 90 < g.mode then g.mode
  else if Binary32.lt tboil2 g.tkub0 then 91
  else if Binary32.lt (Binary32.ofInt 99) g.tdef0 then 92
  else if Binary32.lt (Binary32.ofInt 98) g.tbuf0 then 93
  else if 59 < overPressure then 94
  else if g.process = 88 ∨ g.process = 89 then g.process
  else if Binary32.lt (Binary32.ofInt 50) g.ttsa0 then 95
  else if 10 < alarm.p then 96
  else if 5 < alarm.t then 97
  else if 10 < alarm.ds then 98
  else if 100 < alarm.mb then 99
  else g.process

/-- `check`; the float constant is `0.12f`. -/
def check (env : Env) : ScadaM Unit := do
  updateProcess env
  let overPressure ← readU16 env "DiffPress"
  let absPressure ← readU16 env "AbsPress"
  let mb ← readU16 env "Alarm.MB"
  let ds ← readU16 env "Alarm.DS"
  let t ← readU16 env "Alarm.T"
  let p ← readU16 env "Alarm.P"
  let tboil ← readFloat env "T_boil"
  writeInt env "Pshift" (pressureShift absPressure overPressure)
  let g := (← get).vars
  let stop0 := stopProcess g (Binary32.add 0x3df5c28f tboil) overPressure ⟨mb, ds, t, p⟩
  onlyIf (stop0 != g.process) (writeU16 env "Process" stop0)

end RwModbus.Scada
