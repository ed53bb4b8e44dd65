import RwModbus.PolledBlock

/-!
# Registers by address and by name

The member functions of `ModbusPLC_c` that set and get local values. They work on a
table that, unlike the objects the loader builds, can hold registers that nobody
configured: looking for an address through a subscript adds it.
-/
namespace RwModbus.Accessors
open Numeric Registers

/-- The members of `ModbusPLC_c` that the accessors use. -/
structure RegTable where
  regMax : ℤ
  regs : KeyedMap ℤ Mbreg
  rc : ℤ

/-- `set_reg(uint16_t, int)`. Its message on an address above `reg_max` looks the
register up as well. -/
def setRegAddr (rval : Word) (raddr : ℤ) (s : RegTable) : RegTable × ℤ :=
  let regs := s.regs.subscript raddr {}
  if raddr ≤ s.regMax then
    let r := setReg rval (regs.val raddr).data
    ({ s with regs := regs.modify raddr fun R => { R with data := r.1 }, rc := r.2 }, r.2)
  else ({ s with regs := regs, rc := -1 }, -1)

/-- `get_reg(int)`: the member `rc` tells whether there is such a register. -/
def getReg (raddr : ℤ) (s : RegTable) : RegTable × Word :=
  if raddr ∈ s.regs.keys then ({ s with rc := 1 }, (s.regs.val raddr).data.rvalue)
  else ({ s with rc := -1 }, 0)

/-- The register at which a loop over the map that compares `key` stops. -/
def target (key : Mbreg → Name) (name : Name) (regs : KeyedMap ℤ Mbreg) : Option ℤ :=
  regs.keys.find? fun a => decide (key (regs.val a) = name)

def setRegBy (key : Mbreg → Name) (rval : Word) (name : Name) (s : RegTable) : RegTable × ℤ :=
  match target key name s.regs with
  | some a => setRegAddr rval a s
  | none => ({ s with rc := -2 }, -2)

def getRegBy (key : Mbreg → Name) (name : Name) (s : RegTable) : RegTable × Word :=
  match target key name s.regs with
  | some a => ({ s with rc := 1 }, (s.regs.val a).data.rvalue)
  | none => ({ s with rc := -1 }, 0)

def setRegByName : Word → Name → RegTable → RegTable × ℤ := setRegBy Mbreg.strRname

def setRegByFullname : Word → Name → RegTable → RegTable × ℤ := setRegBy Mbreg.rfullname

def getRegByName : Name → RegTable → RegTable × Word := getRegBy Mbreg.strRname

/-- `get_reg_by_fullname`, which compares the short names too. -/
def getRegByFullname : Name → RegTable → RegTable × Word := getRegBy Mbreg.strRname

/-- The table of an object. -/
def tableOf (m : ModbusPLC) : RegTable := ⟨m.regMax, m.regs, m.rc⟩

/-- The set is refused without a trace. -/
structure RefusedCleanly (rval : Word) (raddr : ℤ) (s : RegTable) : Prop where
  refused : (setRegAddr rval raddr s).2 = -1
  keys : (setRegAddr rval raddr s).1.regs.keys = s.regs.keys
  vals : ∀ a ∈ s.regs.keys, (setRegAddr rval raddr s).1.regs.val a = s.regs.val a
  absent : (getReg raddr (setRegAddr rval raddr s).1).1.rc = -1

theorem setRegAddr_keys (rval : Word) (raddr : ℤ) (s : RegTable) :
    (setRegAddr rval raddr s).1.regs.keys = (s.regs.subscript raddr {}).keys := by
  unfold setRegAddr
  split_ifs <;> rfl

/-- Whatever the address, the register exists afterwards. -/
theorem mem_setRegAddr_keys (rval : Word) (raddr : ℤ) (s : RegTable) :
    raddr ∈ (setRegAddr rval raddr s).1.regs.keys := by
  rw [setRegAddr_keys]
  by_cases h : raddr ∈ s.regs.keys
  · rwa [KeyedMap.subscript_of_mem h]
  · rw [KeyedMap.subscript_of_notMem h]
    exact KeyedMap.mem_insert_keys.mpr (Or.inl rfl)

/-- A PLC with one register after `init_regs`. -/
def oneTable (a : ℤ) : RegTable := tableOf (Master.initRegs (Master.oneReg a))

/-- For every address the map does not hold, the map holds it afterwards. -/
theorem setRegAddr_never (rval : Word) (raddr : ℤ) (s : RegTable) (h : raddr ∉ s.regs.keys) :
    ¬ RefusedCleanly rval raddr s := by
  intro hclean
  have hmem := mem_setRegAddr_keys rval raddr s
  rw [hclean.keys] at hmem
  exact h hmem

theorem setRegAddr_never_five : ¬ RefusedCleanly 1 5 (oneTable 100) :=
  setRegAddr_never 1 5 (oneTable 100) (by decide)

theorem setRegAddr_adds : ¬ ∀ (rval : Word) (raddr : ℤ) (s : RegTable), raddr ∉ s.regs.keys →
    RefusedCleanly rval raddr s := by
  intro h
  have hclean := h 1 5 (oneTable 100) (by decide)
  exact absurd hclean.absent (by decide)

/-- The register at `a` takes a value. -/
def Writable (s : RegTable) (a : ℤ) : Prop :=
  a ≤ s.regMax ∧ (s.regs.val a).data.rmode = 1

theorem mem_of_target {key : Mbreg → Name} {n : Name} {m : KeyedMap ℤ Mbreg} {a : ℤ}
    (h : target key n m = some a) : a ∈ m.keys ∧ key (m.val a) = n :=
  ⟨List.mem_of_find?_eq_some h, of_decide_eq_true (List.find?_some h :)⟩

theorem setReg_accepted_iff (v : Word) (rd : Mbregdata) :
    ((setReg v rd).2 = 0 ∨ (setReg v rd).2 = 1) ↔ rd.rmode = 1 := by
  unfold setReg
  split_ifs with hmode <;> simp [hmode]

theorem setRegAddr_accepted_iff {a : ℤ} {s : RegTable} (h : a ∈ s.regs.keys) (v : Word) :
    ((setRegAddr v a s).2 = 0 ∨ (setRegAddr v a s).2 = 1) ↔ Writable s a := by
  unfold setRegAddr Writable
  rw [KeyedMap.subscript_of_mem h]
  split_ifs with hmax
  · simp [hmax, setReg_accepted_iff]
  · simp [hmax]

theorem setRegAddr_regs {a : ℤ} {s : RegTable} (h : a ∈ s.regs.keys) (hw : Writable s a)
    (v : Word) : (setRegAddr v a s).1.regs =
      s.regs.modify a fun R => { R with data := (setReg v (s.regs.val a).data).1 } := by
  simp only [setRegAddr, KeyedMap.subscript_of_mem h, if_pos hw.1]

/-- Setting values does not change which register is found. -/
theorem target_modify {key : Mbreg → Name} (hkey : ∀ R d, key { R with data := d } = key R)
    (n : Name) (m : KeyedMap ℤ Mbreg) (a : ℤ) (d : Mbregdata) :
    target key n (m.modify a fun R => { R with data := d }) = target key n m := by
  have hval : ∀ b, key ((m.modify a fun R => { R with data := d }).val b) = key (m.val b) := by
    intro b
    by_cases hb : b = a
    · rw [hb, KeyedMap.modify_val_self, hkey]
    · rw [KeyedMap.modify_val_of_ne m hb]
  simp only [target, KeyedMap.modify_keys, hval]

/-- A value set under a name is read back under it, and the other registers stay. -/
structure SetThenGet (set : Word → Name → RegTable → RegTable × ℤ)
    (get : Name → RegTable → RegTable × Word) (s : RegTable) (name : Name) (v : Word) : Prop where
  read : (get name (set v name s).1).2 = v
  others : ∃ a ∈ s.regs.keys, ∀ b ≠ a, (set v name s).1.regs.val b = s.regs.val b
  keys : (set v name s).1.regs.keys = s.regs.keys

def Matched (set : Word → Name → RegTable → RegTable × ℤ)
    (get : Name → RegTable → RegTable × Word) (s : RegTable) (name : Name) (v : Word) : Prop :=
  (set v name s).2 = 0 ∨ (set v name s).2 = 1 → SetThenGet set get s name v

/-- The register found by `key'` is the one found by `key` or holds `v` already; without
one, zero is read. -/
def SameTarget (key key' : Mbreg → Name) (s : RegTable) (name : Name) (v : Word) : Prop :=
  ∀ a, target key name s.regs = some a → Writable s a →
    (∀ b, target key' name s.regs = some b → b = a ∨ (s.regs.val b).data.rvalue = v) ∧
      (target key' name s.regs = none → v = 0)

section
variable {key key' : Mbreg → Name} {s : RegTable} {name : Name} {v : Word} {a : ℤ}

theorem setRegBy_of_target (h : target key name s.regs = some a) :
    setRegBy key v name s = setRegAddr v a s := by
  simp only [setRegBy, h]

theorem setRegBy_regs (h : target key name s.regs = some a) (hw : Writable s a) :
    (setRegBy key v name s).1.regs =
      s.regs.modify a fun R => { R with data := (setReg v (s.regs.val a).data).1 } := by
  rw [setRegBy_of_target h]
  exact setRegAddr_regs (mem_of_target h).1 hw v

theorem setRegBy_val_of_ne (h : target key name s.regs = some a) (hw : Writable s a) {b : ℤ}
    (hb : b ≠ a) : (setRegBy key v name s).1.regs.val b = s.regs.val b := by
  rw [setRegBy_regs h hw, KeyedMap.modify_val_of_ne _ hb]

/-- Reading by one kind of name what was set by another. -/
theorem getRegBy_setRegBy_iff (hkey' : ∀ R d, key' { R with data := d } = key' R)
    (h : target key name s.regs = some a) (hw : Writable s a) :
    (getRegBy key' name (setRegBy key v name s).1).2 = v ↔
      (∀ b, target key' name s.regs = some b → b = a ∨ (s.regs.val b).data.rvalue = v) ∧
        (target key' name s.regs = none → v = 0) := by
  have htarget : target key' name (setRegBy key v name s).1.regs = target key' name s.regs := by
    rw [setRegBy_regs h hw, target_modify hkey']
  unfold getRegBy
  rw [htarget]
  cases hb : target key' name s.regs with
  | none =>
      simp only [reduceCtorEq, false_implies, implies_true, true_and, true_implies]
      exact eq_comm
  | some b =>
      simp only [Option.some.injEq, forall_eq', reduceCtorEq, false_implies, and_true]
      by_cases hab : b = a
      · subst hab
        rw [setRegBy_regs h hw, KeyedMap.modify_val_self]
        simp [setReg_rvalue hw.2]
      · rw [setRegBy_val_of_ne h hw hab]
        simp [hab]

theorem setThenGet_iff (hkey' : ∀ R d, key' { R with data := d } = key' R)
    (h : target key name s.regs = some a) (hw : Writable s a) :
    SetThenGet (setRegBy key) (getRegBy key') s name v ↔
      (∀ b, target key' name s.regs = some b → b = a ∨ (s.regs.val b).data.rvalue = v) ∧
        (target key' name s.regs = none → v = 0) := by
  have hread := getRegBy_setRegBy_iff (v := v) hkey' h hw
  have hothers : ∀ b ≠ a, (setRegBy key v name s).1.regs.val b = s.regs.val b :=
    fun _ => setRegBy_val_of_ne h hw
  have hkeys : (setRegBy key v name s).1.regs.keys = s.regs.keys := by
    rw [setRegBy_regs h hw, KeyedMap.modify_keys]
  constructor
  · intro hset
    exact hread.mp hset.read
  · intro hfound
    exact ⟨hread.mpr hfound, ⟨a, (mem_of_target h).1, hothers⟩, hkeys⟩

theorem matched_iff_sameTarget (hkey' : ∀ R d, key' { R with data := d } = key' R) :
    Matched (setRegBy key) (getRegBy key') s name v ↔ SameTarget key key' s name v := by
  unfold Matched SameTarget
  cases h : target key name s.regs with
  | none => simp [setRegBy, h]
  | some a =>
      rw [setRegBy_of_target h, setRegAddr_accepted_iff (mem_of_target h).1]
      simp only [Option.some.injEq, forall_eq']
      exact forall_congr' fun hw => setThenGet_iff hkey' h hw

theorem sameTarget_self : SameTarget key key s name v := by
  intro a ha _
  rw [ha]
  exact ⟨fun b hb => Or.inl (Option.some.inj hb).symm, fun hb => absurd hb (by simp)⟩

end

/-- The pair for short names always matches. The pair for full names matches exactly
if the first register with the full name as its short name is the one that is set. -/
theorem accessors_iff (s : RegTable) (name fullname : Name) (v : Word) :
    Matched setRegByName getRegByName s name v ∧
        Matched setRegByFullname getRegByFullname s fullname v ↔
      SameTarget Mbreg.rfullname Mbreg.strRname s fullname v := by
  have hshort : Matched setRegByName getRegByName s name v :=
    (matched_iff_sameTarget fun _ _ => rfl).mpr sameTarget_self
  have hfull : Matched setRegByFullname getRegByFullname s fullname v ↔
      SameTarget Mbreg.rfullname Mbreg.strRname s fullname v :=
    matched_iff_sameTarget fun _ _ => rfl
  rw [hfull, and_iff_right hshort]

/-- After `init_regs`, what is set as `P.r` is not read as `P.r`. -/
theorem accessors_fullname : ¬ ∀ (m : ModbusPLC) (name fullname : Name) (v : Word),
    Matched setRegByName getRegByName (tableOf (Master.initRegs m)) name v ∧
      Matched setRegByFullname getRegByFullname (tableOf (Master.initRegs m)) fullname v := by
  intro h
  have hmatch := (h (Master.oneReg 0) [] ['P', '.', 'r'] 5).2 (Or.inr (by decide))
  exact absurd hmatch.read (by decide)

end RwModbus.Accessors
