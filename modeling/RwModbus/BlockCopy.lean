import RwModbus.Library.Runs
import RwModbus.Accessors

/-!
# The copy of a reply into the registers

The accessors can add registers that nobody configured. Such a register has address
zero, whatever its key, and zero is always within the bounds, since `init_regs` widens
them from there. So `read_allregs` stays inside its buffer.
-/
namespace RwModbus.Accessors
open Numeric Registers

/-- The members of `ModbusPLC_c` that `read_allregs` uses. -/
structure PollTable extends RegTable where
  regMin : ℤ

/-- A call of an accessor. -/
inductive Call where
  | setReg (rval : Word) (raddr : ℤ)
  | setRegByName (rval : Word) (rname : Name)
  | setRegByFullname (rval : Word) (rname : Name)
  | getReg (raddr : ℤ)
  | getRegByName (rname : Name)
  | getRegByFullname (rfname : Name)

/-- What the call leaves of the members. -/
def Call.apply : Call → RegTable → RegTable
  | setReg rval raddr, s => (setRegAddr rval raddr s).1
  | setRegByName rval rname, s => (Accessors.setRegByName rval rname s).1
  | setRegByFullname rval rname, s => (Accessors.setRegByFullname rval rname s).1
  | getReg raddr, s => (Accessors.getReg raddr s).1
  | getRegByName rname, s => (Accessors.getRegByName rname s).1
  | getRegByFullname rfname, s => (Accessors.getRegByFullname rfname s).1

def step (s : PollTable) (c : Call) : PollTable := { s with toRegTable := c.apply s.toRegTable }

namespace PollTable

def nbRegs (s : PollTable) : ℤ := s.regMax - s.regMin + 1

/-- `mbregs[i]`; there is no element before the first one or after the last. -/
def mbregsAt (mbregs : List Word) (i : ℤ) : Option Word :=
  if 0 ≤ i then mbregs[i.toNat]? else none

/-- A round of the loop in `read_allregs`. -/
def copyReg (mbregs : List Word) (s : PollTable) (a : ℤ) : Option PollTable :=
  let R := s.regs.val a
  if R.data.rmode = 0 ∨ R.data.rupdate = 0 then do
    let rvalue ← mbregsAt mbregs (R.raddr - s.regMin)
    some { s with regs := s.regs.modify a fun R => { R with data := { R.data with rvalue := rvalue } } }
  else some s

/-- The loop, if it stays inside the buffer. -/
def copyBlock (mbregs : List Word) (s : PollTable) : Option PollTable :=
  s.regs.keys.foldlM (copyReg mbregs) s

/-- The index of a register is one of the block. -/
structure InBlock (s : PollTable) (R : Mbreg) : Prop where
  lower : 0 ≤ R.raddr - s.regMin
  upper : R.raddr - s.regMin < s.nbRegs

end PollTable

theorem setRegAddr_raddr (rval : Word) (raddr b : ℤ) (s : RegTable) :
    ((setRegAddr rval raddr s).1.regs.val b).raddr = ((s.regs.subscript raddr {}).val b).raddr := by
  unfold setRegAddr
  split_ifs
  · by_cases hb : b = raddr
    · subst hb
      simp
    · simp [KeyedMap.modify_val_of_ne, hb]
  · rfl

@[simp] theorem setRegAddr_regMax (rval : Word) (raddr : ℤ) (s : RegTable) :
    (setRegAddr rval raddr s).1.regMax = s.regMax := by
  unfold setRegAddr
  split_ifs <;> rfl

/-- Zero and the addresses of all registers are within the bounds. -/
structure Within (lo : ℤ) (s : RegTable) : Prop where
  zero_lo : lo ≤ 0
  zero_hi : 0 ≤ s.regMax
  raddr : ∀ a ∈ s.regs.keys, lo ≤ (s.regs.val a).raddr ∧ (s.regs.val a).raddr ≤ s.regMax

section
variable {lo : ℤ} {s : RegTable}

/-- A register that the subscript adds has address zero. -/
theorem Within.setRegAddr (h : Within lo s) (rval : Word) (raddr : ℤ) :
    Within lo (setRegAddr rval raddr s).1 := by
  have hadded : ∀ b ∈ (s.regs.subscript raddr {}).keys,
      lo ≤ ((s.regs.subscript raddr {}).val b).raddr ∧
        ((s.regs.subscript raddr {}).val b).raddr ≤ s.regMax := by
    by_cases hmem : raddr ∈ s.regs.keys
    · rw [KeyedMap.subscript_of_mem hmem]
      exact h.raddr
    · rw [KeyedMap.subscript_of_notMem hmem]
      exact KeyedMap.forall_insert (P := fun (_ : ℤ) (R : Mbreg) => lo ≤ R.raddr ∧
        R.raddr ≤ s.regMax) ⟨h.zero_lo, h.zero_hi⟩ h.raddr
  constructor
  · exact h.zero_lo
  · rw [setRegAddr_regMax]
    exact h.zero_hi
  · intro b hb
    rw [setRegAddr_keys] at hb
    rw [setRegAddr_raddr, setRegAddr_regMax]
    exact hadded b hb

theorem Within.setRegBy (h : Within lo s) (key : Mbreg → Name) (rval : Word) (name : Name) :
    Within lo (setRegBy key rval name s).1 := by
  unfold Accessors.setRegBy
  cases target key name s.regs with
  | some a => exact h.setRegAddr rval a
  | none => exact ⟨h.zero_lo, h.zero_hi, h.raddr⟩

theorem Within.getRegBy (h : Within lo s) (key : Mbreg → Name) (name : Name) :
    Within lo (getRegBy key name s).1 := by
  unfold Accessors.getRegBy
  cases target key name s.regs <;> exact ⟨h.zero_lo, h.zero_hi, h.raddr⟩

theorem Within.call (h : Within lo s) (c : Call) : Within lo (c.apply s) := by
  cases c with
  | setReg rval raddr => exact h.setRegAddr rval raddr
  | setRegByName rval rname => exact h.setRegBy _ rval rname
  | setRegByFullname rval rname => exact h.setRegBy _ rval rname
  | getReg raddr =>
      change Within lo (Accessors.getReg raddr s).1
      unfold Accessors.getReg
      split_ifs <;> exact ⟨h.zero_lo, h.zero_hi, h.raddr⟩
  | getRegByName rname => exact h.getRegBy _ rname
  | getRegByFullname rfname => exact h.getRegBy _ rfname

end

namespace PollTable
variable {s : PollTable}

/-- The bounds hold of the table with its own lower one. -/
def Bounded (s : PollTable) : Prop := Within s.regMin s.toRegTable

theorem Bounded.step (h : s.Bounded) (c : Call) : (step s c).Bounded := Within.call h c

theorem Bounded.run (h : s.Bounded) (calls : List Call) : (Runs.run Accessors.step s calls).Bounded :=
  Runs.invariant (fun _ c ht => ht.step c) calls h

theorem Bounded.inBlock (h : s.Bounded) {a : ℤ} (ha : a ∈ s.regs.keys) : s.InBlock (s.regs.val a) := by
  have hR := h.raddr a ha
  constructor
  · omega
  · unfold nbRegs
    omega

/-- The word at an index of the block. -/
def wordAt (mbregs : List Word) (i : ℤ) : Word := (mbregsAt mbregs i).getD 0

theorem mbregsAt_eq {mbregs : List Word} {i : ℤ} (h0 : 0 ≤ i) (hlen : i < mbregs.length) :
    mbregsAt mbregs i = some (wordAt mbregs i) := by
  have hlt : i.toNat < mbregs.length := by omega
  simp [wordAt, mbregsAt, h0, List.getElem?_eq_getElem hlt]

/-- The round of a register inside the block. -/
theorem copyReg_eq {mbregs : List Word} (hlen : mbregs.length = s.nbRegs) {a : ℤ}
    (hR : s.InBlock (s.regs.val a)) : copyReg mbregs s a =
      some { s with regs := s.regs.modify a (Master.takePoll (wordAt mbregs) s.regMin) } := by
  have hword := mbregsAt_eq hR.lower (hR.upper.trans_eq hlen.symm)
  unfold copyReg
  dsimp only
  split_ifs with hidle
  · rw [hword]
    simp [Master.takePoll, hidle, KeyedMap.modify]
  · simp [Master.takePoll, hidle, KeyedMap.modify]

theorem takePoll_bounded (h : s.Bounded) (mbregs : ℤ → Word) (a : ℤ) :
    Bounded { s with regs := s.regs.modify a (Master.takePoll mbregs s.regMin) } := by
  constructor
  · exact h.zero_lo
  · exact h.zero_hi
  · intro b hb
    have hR := h.raddr b hb
    by_cases hba : b = a
    · subst hba
      rwa [KeyedMap.modify_val_self, Master.takePoll_raddr]
    · rwa [KeyedMap.modify_val_of_ne _ hba]

/-- What a round with the lower bound `lo` does to the table. -/
def takeReg (mbregs : List Word) (lo : ℤ) (s : PollTable) (a : ℤ) : PollTable :=
  { s with regs := s.regs.modify a (Master.takePoll (wordAt mbregs) lo) }

theorem takeReg_regs (mbregs : List Word) (lo : ℤ) (as : List ℤ) (s : PollTable) :
    (as.foldl (takeReg mbregs lo) s).regs =
      as.foldl (fun m a => m.modify a (Master.takePoll (wordAt mbregs) lo)) s.regs :=
  (List.foldl_hom (fun t : PollTable => t.regs) fun _ _ => rfl).symm

/-- A table that the loop meets after it started with `s`. -/
structure Meets (s t : PollTable) : Prop where
  bounded : t.Bounded
  keys : t.regs.keys = s.regs.keys
  regMin : t.regMin = s.regMin
  regMax : t.regMax = s.regMax

theorem Meets.round {mbregs : List Word} (hlen : mbregs.length = s.nbRegs) {t : PollTable}
    (h : Meets s t) {a : ℤ} (ha : a ∈ s.regs.keys) :
    copyReg mbregs t a = some (takeReg mbregs s.regMin t a) ∧ Meets s (takeReg mbregs s.regMin t a) := by
  have hlen' : mbregs.length = t.nbRegs := by rw [hlen, nbRegs, nbRegs, h.regMin, h.regMax]
  have hcopy := copyReg_eq hlen' (h.bounded.inBlock (h.keys ▸ ha))
  have hkeep := takePoll_bounded h.bounded (wordAt mbregs) a
  have htake : Master.takePoll (wordAt mbregs) t.regMin = Master.takePoll (wordAt mbregs) s.regMin := by
    rw [h.regMin]
  rw [htake] at hcopy hkeep
  exact ⟨hcopy, hkeep, h.keys, h.regMin, h.regMax⟩

/-- The loop copies the reply to all registers. -/
theorem Bounded.copyBlock (h : s.Bounded) {mbregs : List Word} (hlen : mbregs.length = s.nbRegs) :
    ∃ s', s.copyBlock mbregs = some s' ∧ ∀ a ∈ s.regs.keys,
      s'.regs.val a = Master.takePoll (wordAt mbregs) s.regMin (s.regs.val a) := by
  have hloop := Runs.foldlM_eq_foldl (I := Meets s) (fun t a ha ht => ht.round hlen ha)
    ⟨h, rfl, rfl, rfl⟩
  refine ⟨_, hloop.1, fun a ha => ?_⟩
  rw [takeReg_regs, KeyedMap.foldl_modify_val s.regs.nodup, if_pos ha]

/-- `R.raddr - reg_min` in `int`s. -/
def intIndex (s : PollTable) (R : Mbreg) : ℤ :=
  (BitVec.ofInt 32 R.raddr - BitVec.ofInt 32 s.regMin).toInt

/-- `reg_max - reg_min + 1` in `int`s. -/
def intNbRegs (s : PollTable) : ℤ :=
  (BitVec.ofInt 32 s.regMax - BitVec.ofInt 32 s.regMin + BitVec.ofInt 32 1).toInt

theorem toInt_ofInt_sub {a b : ℤ} (h0 : 0 ≤ a - b) (h : a - b < 2 ^ 31) :
    (BitVec.ofInt 32 a - BitVec.ofInt 32 b).toInt = a - b := by
  rw [BitVec.toInt_sub, BitVec.toInt_ofInt, BitVec.toInt_ofInt, Int.bmod_sub_bmod, Int.sub_bmod_bmod,
    Int.bmod_eq_of_le]
  · omega
  · omega

/-- `read_allregs` stays inside its buffer, and as long as the block has a length, its
`int`s do not overflow. -/
structure BlockSafe (s : PollTable) : Prop where
  inBlock : ∀ a ∈ s.regs.keys, s.InBlock (s.regs.val a)
  ints : s.nbRegs < 2 ^ 31 → s.intNbRegs = s.nbRegs ∧
    ∀ a ∈ s.regs.keys, s.intIndex (s.regs.val a) = (s.regs.val a).raddr - s.regMin
  copies : ∀ mbregs : List Word, mbregs.length = s.nbRegs → (s.copyBlock mbregs).isSome = true

theorem Bounded.blockSafe (h : s.Bounded) : s.BlockSafe := by
  have hinBlock : ∀ a ∈ s.regs.keys, s.InBlock (s.regs.val a) := fun _ ha => h.inBlock ha
  have hlo := h.zero_lo
  have hhi := h.zero_hi
  constructor
  · exact hinBlock
  · intro hspan
    constructor
    · have hdiff : s.regMax - s.regMin < 2 ^ 31 := (lt_add_one _).trans hspan
      have hone : (BitVec.ofInt 32 1).toInt = 1 := rfl
      rw [nbRegs] at hspan ⊢
      rw [intNbRegs, BitVec.toInt_add, toInt_ofInt_sub (by omega) hdiff, hone, Int.bmod_eq_of_le]
      · omega
      · omega
    · intro a ha
      obtain ⟨hlower, hupper⟩ := hinBlock a ha
      exact toInt_ofInt_sub hlower (hupper.trans hspan)
  · intro mbregs hlen
    obtain ⟨s', hcopy, -⟩ := h.copyBlock hlen
    rw [hcopy]
    rfl

end PollTable

/-- The members of an object. -/
def pollTable (m : ModbusPLC) : PollTable := { tableOf m with regMin := m.regMin }

theorem cfgInitPlcregs_unwidened (ts : List Loader.RegTuple) {m : ModbusPLC} (h : Master.Unwidened m) :
    Master.Unwidened (Loader.cfgInitPlcregs ts m) := by
  induction ts generalizing m with
  | nil => exact h
  | cons t ts ih =>
      rw [Loader.cfgInitPlcregs, List.foldl_cons]
      apply ih
      exact ⟨h.regMin, h.regMax⟩

theorem pollTable_bounded {m : ModbusPLC} (h : Master.Unwidened m) :
    (pollTable (Master.initRegs m)).Bounded := by
  obtain ⟨hleast, hgreatest⟩ := Master.initRegs_bounds h
  constructor
  · exact hleast.2 (Set.mem_insert _ _)
  · exact hgreatest.2 (Set.mem_insert _ _)
  · intro a ha
    change (Master.initRegs m).regMin ≤ ((Master.initRegs m).regs.val a).raddr ∧
      ((Master.initRegs m).regs.val a).raddr ≤ (Master.initRegs m).regMax
    rw [(Master.initRegs m).placed]
    exact ⟨hleast.2 (Set.mem_insert_of_mem _ ha), hgreatest.2 (Set.mem_insert_of_mem _ ha)⟩

/-- After any calls of the accessors on a loaded PLC, the copy of a reply stays
inside the buffer. -/
theorem run_blockSafe (ts : List Loader.RegTuple) (name : Name) (port attempts : ℤ)
    (calls : List Call) : (Runs.run step (pollTable (Master.initRegs
      (Loader.cfgInitPlcregs ts (Loader.newPlc name port attempts)))) calls).BlockSafe := by
  have hnew : Master.Unwidened (Loader.newPlc name port attempts) := ⟨rfl, rfl⟩
  have hloaded := pollTable_bounded (cfgInitPlcregs_unwidened ts hnew)
  exact (hloaded.run calls).blockSafe

end RwModbus.Accessors
