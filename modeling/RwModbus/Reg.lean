import RwModbus.Registers

/-!
# Register entries

`Reg_c` of the register map: decoding the source words, writing a value to them
and adding up their errors. A modbus entry has one source word; a referenced one
follows `r_next` from its source, so its pointers are distinct. Members that a
method assigns are passed through it.
-/
namespace RwModbus.Reg
open Numeric Registers

/-- Exactly one of `is_modbus`, `is_scada` and `is_ref`. -/
inductive Kind where
  | modbus | scada | ref
deriving DecidableEq, Repr

/-- The members of `Reg_c` that the constructors set for good. The name in the
server is a path. -/
structure RegDef where
  kind : Kind
  prop : RegProp
  row : prop.Row
  strOpcname : Name
  path : '/' ∈ strOpcname
  varModeRw : ℤ
  ptrReg : ℕ → Option RegPtr
  distinct : ∀ i j p, ptrReg i = some p → ptrReg j = some p → i = j

/-- `Reg_c`; `number` is `Number.value`, the local value. -/
structure RegC extends RegDef where
  varErrors : ℕ := 0
  number : NumericU := {}

namespace RegDef

/-- The word that `ptr_reg[i]` leads to in an entry that is not SCADA's own. -/
def source (d : RegDef) (i : ℕ) : Option RegPtr :=
  if d.kind = .scada then none else d.ptrReg i

def getPlcErrors (plcs : PlcVec) (d : RegDef) : ℕ :=
  ((List.range d.prop.rsize).map fun i =>
    match d.source i with
    | some p => (plcs.data p).rerrors.toNat
    | none => 0).sum

/-- `set_plc_reg`. The result of `set_reg` is dropped. -/
def setPlcReg (val : Word) (i : ℕ) (d : RegDef) (plcs : PlcVec) : PlcVec :=
  match d.source i with
  | some p => plcs.store p (setReg val (plcs.data p)).1
  | none => plcs

/-- `set_plc_value`: word `i` goes to source `i`, whatever the byte order. -/
def setPlcValue (v : NumericU) (d : RegDef) (plcs : PlcVec) : PlcVec :=
  (List.range d.prop.rsize).foldl (fun plcs i => d.setPlcReg (v.mb64u i) i plcs) plcs

end RegDef

namespace RegC

/-- `get_plc_reg`, which also sets `var_errors` if there is a source. -/
def getPlcReg (plcs : PlcVec) (i : ℕ) (rm : RegC) : RegC × Word :=
  match rm.source i with
  | some p =>
      ({ rm with varErrors := (plcs.data p).rerrors.toNat },
        if (plcs.data p).rerrors = 0 then (plcs.data p).rvalue else BadValue.ui16)
  | none => (rm, BadValue.ui16)

/-- The loops that gather the words, last source first, over `Number.value`. -/
def pullWords (plcs : PlcVec) (rm : RegC) : RegC × NumericU :=
  (List.range rm.prop.rsize).foldl
    (fun s i =>
      let g := s.1.getPlcReg plcs (rm.prop.rsize - i - 1)
      (g.1, s.2.setMb i g.2))
    (rm, rm.number)

/-- The byte order's part of `pull_plc_value32`. -/
def reorder32 (bo : ByteOrder) (value : NumericU) : NumericU :=
  let value := if bo = .le ∨ bo = .ls then value.be32toh else value
  if bo = .ls ∨ bo = .bs then { value with w0 := bswap16 value.w0, w1 := bswap16 value.w1 }
  else value

def reorder64 (bo : ByteOrder) (value : NumericU) : NumericU :=
  let value := if bo = .le ∨ bo = .ls then value.be64toh else value
  if bo = .ls ∨ bo = .bs then
    ⟨bswap16 value.w0, bswap16 value.w1, bswap16 value.w2, bswap16 value.w3⟩
  else value

def pullPlcValue32 (plcs : PlcVec) (rm : RegC) : RegC × NumericU :=
  let r := rm.pullWords plcs
  let value := reorder32 rm.prop.rbyteorder r.2
  ({ r.1 with number := value }, value)

def pullPlcValue64 (plcs : PlcVec) (rm : RegC) : RegC × NumericU :=
  let r := rm.pullWords plcs
  let value := reorder64 rm.prop.rbyteorder r.2
  ({ r.1 with number := value }, value)

/-- The one-word case: `bad` on errors, else what `conv` makes of the word. Only
the latter reads the word. -/
def singleValue (plcs : PlcVec) (hasErrors : Bool) (bad : NumericU) (conv : Word → NumericU)
    (rm : RegC) : RegC × NumericU :=
  if hasErrors then (rm, bad)
  else
    let g := rm.getPlcReg plcs 0
    (g.1, conv g.2)

/-- `get_plc_value` up to the assignment of `Number.value`. -/
def decodeValue (plcs : PlcVec) (rm : RegC) : RegC × NumericU :=
  let hasErrors := decide (rm.getPlcErrors plcs ≠ 0)
  if rm.prop.rsize = 1 then
    if rm.prop.rtype = .uint16 then
      rm.singleValue plcs hasErrors (.ofUi16 BadValue.ui16) .ofUi16
    else if rm.prop.rtype = .int16 then
      rm.singleValue plcs hasErrors (.ofUi16 BadValue.i16) .ofUi16
    else if rm.prop.rbyteorder = .f100 then
      rm.singleValue plcs hasErrors (.setUi32 {} BadValue.fl) fun w => .setUi32 {} (timesF100 w)
    else if rm.prop.rbyteorder = .f10 then
      rm.singleValue plcs hasErrors (.setUi32 {} BadValue.fl) fun w => .setUi32 {} (timesF10 w)
    else (rm, {})
  else if rm.prop.rsize = 2 then
    let g := rm.pullPlcValue32 plcs
    if rm.prop.rtype = .uint32 then
      (g.1, if hasErrors then g.2.setUi32 BadValue.ui32 else g.2)
    else if rm.prop.rtype = .int32 then
      (g.1, if hasErrors then g.2.setUi32 BadValue.i32 else g.2)
    else if rm.prop.rtype = .float then
      (g.1, if hasErrors then g.2.setUi32 BadValue.fl else g.2)
    else g
  else if rm.prop.rsize = 4 then
    let g := rm.pullPlcValue64 plcs
    if rm.prop.rtype = .uint64 then
      (g.1, if hasErrors then .ofUi64 BadValue.ui64 else g.2)
    else if rm.prop.rtype = .int64 then
      (g.1, if hasErrors then .ofUi64 BadValue.i64 else g.2)
    else if rm.prop.rtype = .double then
      (g.1, if hasErrors then .ofUi64 BadValue.dbl else g.2)
    else g
  else (rm, .ofUi64 1234567890)

def getPlcValue (plcs : PlcVec) (rm : RegC) : RegC × NumericU :=
  if rm.kind = .scada then (rm, {})
  else
    let r := rm.decodeValue plcs
    ({ r.1 with number := r.2 }, r.2)

end RegC

/-- `r_next` leads to the next address, as `init_regs` sets it. -/
def Linked (plcs : PlcVec) : Prop :=
  ∀ i a b, ((plcs i).regs.val a).rNext = some b → b = a + 1

/-- The source pointer after `i` steps along `r_next`. -/
def follow (plcs : PlcVec) (src : Option RegPtr) : ℕ → Option RegPtr
  | 0 => src
  | i + 1 => (follow plcs src i).bind fun p =>
      ((plcs p.plc).regs.val p.raddr).rNext.map fun a => ⟨p.plc, a⟩

theorem follow_eq {plcs : PlcVec} (hl : Linked plcs) {s p : RegPtr} {i : ℕ}
    (h : follow plcs (some s) i = some p) : p = ⟨s.plc, s.raddr + i⟩ := by
  induction i generalizing p with
  | zero =>
      obtain rfl : s = p := by simpa [follow] using h
      simp
  | succ i ih =>
      simp only [follow, Option.bind_eq_some_iff, Option.map_eq_some_iff] at h
      obtain ⟨q, hq, a, ha, rfl⟩ := h
      obtain rfl := ih hq
      have hnext := hl _ _ _ ha
      dsimp only at hnext
      simp only [RegPtr.mk.injEq, true_and]
      omega

theorem follow_distinct {plcs : PlcVec} (hl : Linked plcs) (src : Option RegPtr) (i j : ℕ)
    (p : RegPtr) (hi : follow plcs src i = some p) (hj : follow plcs src j = some p) : i = j := by
  cases src with
  | none =>
      have hnone : ∀ k, follow plcs none k = none := by
        intro k
        induction k with
        | zero => rfl
        | succ k ih => simp [follow, ih]
      simp [hnone] at hi
  | some s =>
      have hi := follow_eq hl hi
      have hj := follow_eq hl hj
      simp only [hi, RegPtr.mk.injEq, true_and] at hj
      omega

namespace RegDef

/-- The entry that `Reg_c(mbreg_t*, ModbusPLC_c*)` makes of register `p`. -/
def ofModbus (p : RegPtr) (rmode : ℤ) (strOpcname : Name) (path : '/' ∈ strOpcname) : RegDef where
  kind := .modbus
  prop := ⟨.uint16, 1, .sngl⟩
  row := row_u16
  strOpcname := strOpcname
  path := path
  varModeRw := rmode
  ptrReg := fun i => if i = 0 then some p else none
  distinct := by
    intro i j q hi hj
    split_ifs at hi hj with h h'
    omega

/-- The referenced entry that the other constructor makes of a source; a null
source leaves all pointers null. -/
def ofSource {plcs : PlcVec} (hl : Linked plcs) (src : Option RegPtr) (prop : RegProp)
    (row : prop.Row) (varModeRw : ℤ) (strOpcname : Name) (path : '/' ∈ strOpcname) : RegDef where
  kind := .ref
  prop := prop
  row := row
  strOpcname := strOpcname
  path := path
  varModeRw := varModeRw
  ptrReg := fun i => if i < prop.rsize then follow plcs src i else none
  distinct := by
    intro i j q hi hj
    split_ifs at hi hj
    exact follow_distinct hl src i j q hi hj

/-- What the other constructor makes of a variable without a source. -/
def ofScada (prop : RegProp) (row : prop.Row) (varModeRw : ℤ) (strOpcname : Name)
    (path : '/' ∈ strOpcname) : RegDef where
  kind := .scada
  prop := prop
  row := row
  strOpcname := strOpcname
  path := path
  varModeRw := varModeRw
  ptrReg := fun _ => none
  distinct := by simp

end RegDef

namespace RegDef

theorem getPlcErrors_eq_zero {plcs : PlcVec} {d : RegDef} :
    d.getPlcErrors plcs = 0 ↔
      ∀ i < d.prop.rsize, ∀ p, d.source i = some p → (plcs.data p).rerrors = 0 := by
  simp only [getPlcErrors, List.sum_eq_zero_iff_forall_eq_nat, List.mem_map, List.mem_range,
    forall_exists_index, and_imp]
  constructor
  · intro h i hi p hp
    have := h _ i hi rfl
    rw [hp] at this
    exact BitVec.eq_of_toNat_eq this
  · rintro h _ i hi rfl
    rcases hp : d.source i with _ | p
    · rfl
    · simp [h i hi p hp]

theorem getPlcErrors_congr {plcs plcs' : PlcVec} {d : RegDef}
    (h : ∀ q, (plcs'.data q).rerrors = (plcs.data q).rerrors) :
    d.getPlcErrors plcs' = d.getPlcErrors plcs := by
  simp only [getPlcErrors, h]

/-- What `get_plc_reg(i)` returns. -/
def word (plcs : PlcVec) (d : RegDef) (i : ℕ) : Word :=
  match d.source i with
  | some p => if (plcs.data p).rerrors = 0 then (plcs.data p).rvalue else BadValue.ui16
  | none => BadValue.ui16

theorem source_distinct {d : RegDef} {i j : ℕ} {p : RegPtr} (hi : d.source i = some p)
    (hj : d.source j = some p) : i = j := by
  unfold source at hi hj
  split_ifs at hi hj
  exact d.distinct i j p hi hj

def sources (d : RegDef) : Set RegPtr := {p | ∃ i < d.prop.rsize, d.source i = some p}

instance (d : RegDef) (p : RegPtr) : Decidable (p ∈ d.sources) :=
  decidable_of_iff (∃ i ∈ List.range d.prop.rsize, d.source i = some p)
    ⟨fun ⟨i, hi, h⟩ => ⟨i, List.mem_range.mp hi, h⟩, fun ⟨i, hi, h⟩ =>
      ⟨i, List.mem_range.mpr hi, h⟩⟩

theorem setPlcReg_writes (v : Word) (i : ℕ) (d : RegDef) (plcs : PlcVec) :
    PlcVec.Writes {p | d.source i = some p} plcs (d.setPlcReg v i plcs) := by
  rcases h : d.source i with _ | p
  · simp only [setPlcReg, h]
    exact PlcVec.Writes.refl _ _
  · simp only [setPlcReg, h]
    refine (PlcVec.store_setReg_writes plcs p v).mono fun q hq => ?_
    rw [Set.mem_singleton_iff.mp hq]
    rfl

theorem setWords_spec (v : NumericU) (d : RegDef) (plcs : PlcVec) (n : ℕ) :
    let plcs' := (List.range n).foldl (fun plcs i => d.setPlcReg (v.mb64u i) i plcs) plcs
    PlcVec.Writes {p | ∃ i < n, d.source i = some p} plcs plcs' ∧
      ∀ i < n, ∀ p, d.source i = some p →
        plcs'.data p = (setReg (v.mb64u i) (plcs.data p)).1 := by
  induction n with
  | zero => exact ⟨PlcVec.Writes.refl _ _, fun i hi => absurd hi (Nat.not_lt_zero i)⟩
  | succ n ih =>
      obtain ⟨hw, hval⟩ := ih
      simp only [List.range_succ, List.foldl_append, List.foldl_cons, List.foldl_nil]
      generalize (List.range n).foldl (fun plcs i => d.setPlcReg (v.mb64u i) i plcs) plcs = q at *
      have hstep := setPlcReg_writes (v.mb64u n) n d q
      refine ⟨(hw.mono fun p hp => ?_).trans (hstep.mono fun p hp => ⟨n, Nat.lt_succ_self n, hp⟩),
        fun i hi p hp => ?_⟩
      · obtain ⟨i, hi, hp⟩ := hp
        exact ⟨i, Nat.lt_succ_of_lt hi, hp⟩
      · rcases Nat.lt_succ_iff_lt_or_eq.mp hi with hi | hi
        · -- an earlier source is not the one written now
          rw [hstep.others p fun hn => (Nat.ne_of_lt hi) (source_distinct hp hn)]
          exact hval i hi p hp
        · subst hi
          have hold : q.data p = plcs.data p :=
            hw.others p fun ⟨j, hj, hjp⟩ => (Nat.ne_of_lt hj) (source_distinct hjp hp)
          simp [setPlcReg, hp, hold]

theorem setPlcValue_writes (v : NumericU) (d : RegDef) (plcs : PlcVec) :
    PlcVec.Writes d.sources plcs (d.setPlcValue v plcs) :=
  (setWords_spec v d plcs d.prop.rsize).1

theorem setPlcValue_data {d : RegDef} {i : ℕ} {p : RegPtr} (hi : i < d.prop.rsize)
    (hp : d.source i = some p) (v : NumericU) (plcs : PlcVec) :
    (d.setPlcValue v plcs).data p = (setReg (v.mb64u i) (plcs.data p)).1 :=
  (setWords_spec v d plcs d.prop.rsize).2 i hi p hp

end RegDef

namespace RegC

theorem eq_of {a b : RegC} (hdef : a.toRegDef = b.toRegDef) (herr : a.varErrors = b.varErrors)
    (hnum : a.number = b.number) : a = b := by
  cases a
  cases b
  simp only at hdef herr hnum
  subst hdef herr hnum
  rfl

@[simp] theorem getPlcReg_snd (plcs : PlcVec) (i : ℕ) (rm : RegC) :
    (rm.getPlcReg plcs i).2 = rm.word plcs i := by
  unfold getPlcReg RegDef.word
  split <;> rfl

@[simp] theorem getPlcReg_toRegDef (plcs : PlcVec) (i : ℕ) (rm : RegC) :
    (rm.getPlcReg plcs i).1.toRegDef = rm.toRegDef := by
  unfold getPlcReg
  split <;> rfl

theorem getPlcReg_varErrors {plcs : PlcVec} {i : ℕ} {rm : RegC} (h0 : rm.varErrors = 0)
    (h : ∀ p, rm.source i = some p → (plcs.data p).rerrors = 0) :
    (rm.getPlcReg plcs i).1.varErrors = 0 := by
  unfold getPlcReg
  split
  · rename_i p hp
    simp [h p hp]
  · exact h0

theorem pullWords_toRegDef (plcs : PlcVec) (rm : RegC) :
    (rm.pullWords plcs).1.toRegDef = rm.toRegDef :=
  List.foldlRecOn (motive := fun s : RegC × NumericU => s.1.toRegDef = rm.toRegDef) _ _ rfl
    fun _ hs _ _ => (getPlcReg_toRegDef ..).trans hs

theorem pullWords_varErrors {plcs : PlcVec} {rm : RegC} (h0 : rm.varErrors = 0)
    (herr : rm.getPlcErrors plcs = 0) : (rm.pullWords plcs).1.varErrors = 0 := by
  refine (List.foldlRecOn (motive := fun s : RegC × NumericU =>
    s.1.toRegDef = rm.toRegDef ∧ s.1.varErrors = 0) _ _ ⟨rfl, h0⟩ ?_).2
  intro s hs i hi
  refine ⟨(getPlcReg_toRegDef ..).trans hs.1, getPlcReg_varErrors hs.2 fun p hp => ?_⟩
  rw [hs.1] at hp
  rw [List.mem_range] at hi
  exact RegDef.getPlcErrors_eq_zero.mp herr _ (by omega) p hp

/-- Two words: the last source fills the low word, the upper half stays stale. -/
theorem pullWords_two {rm : RegC} (h : rm.prop.rsize = 2) (plcs : PlcVec) :
    (rm.pullWords plcs).2 =
      ⟨rm.word plcs 1, rm.word plcs 0, rm.number.w2, rm.number.w3⟩ := by
  simp [pullWords, h, List.range_succ, NumericU.setMb]

theorem pullWords_four {rm : RegC} (h : rm.prop.rsize = 4) (plcs : PlcVec) :
    (rm.pullWords plcs).2 =
      ⟨rm.word plcs 3, rm.word plcs 2, rm.word plcs 1, rm.word plcs 0⟩ := by
  simp [pullWords, h, List.range_succ, NumericU.setMb]

theorem singleValue_snd (plcs : PlcVec) (hasErrors : Bool) (bad : NumericU)
    (conv : Word → NumericU) (rm : RegC) : (rm.singleValue plcs hasErrors bad conv).2 =
      if hasErrors then bad else conv (rm.word plcs 0) := by
  unfold singleValue
  split_ifs <;> simp

theorem singleValue_toRegDef (plcs : PlcVec) (hasErrors : Bool) (bad : NumericU)
    (conv : Word → NumericU) (rm : RegC) :
    (rm.singleValue plcs hasErrors bad conv).1.toRegDef = rm.toRegDef := by
  unfold singleValue
  split_ifs <;> simp

@[simp] theorem decodeValue_toRegDef (plcs : PlcVec) (rm : RegC) :
    (rm.decodeValue plcs).1.toRegDef = rm.toRegDef := by
  unfold decodeValue pullPlcValue32 pullPlcValue64
  dsimp only
  split_ifs <;> first | rfl | exact singleValue_toRegDef .. | exact pullWords_toRegDef ..

theorem decodeValue_varErrors {plcs : PlcVec} {rm : RegC} (h0 : rm.varErrors = 0)
    (herr : rm.getPlcErrors plcs = 0) : (rm.decodeValue plcs).1.varErrors = 0 := by
  have hsingle : rm.prop.rsize = 1 → ∀ b bad conv,
      (rm.singleValue plcs b bad conv).1.varErrors = 0 := by
    intro hsize b bad conv
    unfold singleValue
    split_ifs
    · exact h0
    · exact getPlcReg_varErrors h0
        (RegDef.getPlcErrors_eq_zero.mp herr 0 (by omega))
  unfold decodeValue pullPlcValue32 pullPlcValue64
  dsimp only
  split_ifs with h1 <;>
    first | exact h0 | exact hsingle h1 _ _ _ | exact pullWords_varErrors h0 herr

/-- The words of the local value that decoding replaces. -/
def freshWords (p : RegProp) : ℕ := if p.rsize = 2 then 2 else 4

/-- The number that error-free words stand for, the upper half clear. -/
def meaning (p : RegProp) (w : ℕ → Word) : NumericU :=
  match p.rsize, p.rtype with
  | 1, .uint16 | 1, .int16 => .ofUi16 (w 0)
  | 1, .f100 => .setUi32 {} (timesF100 (w 0))
  | 1, .f10 => .setUi32 {} (timesF10 (w 0))
  | 1, _ => {}
  | 2, _ => reorder32 p.rbyteorder ⟨w 1, w 0, 0, 0⟩
  | 4, _ => reorder64 p.rbyteorder ⟨w 3, w 2, w 1, w 0⟩
  | _, _ => .ofUi64 1234567890

theorem meaning_two {p : RegProp} (h : p.rsize = 2) (w : ℕ → Word) :
    meaning p w = reorder32 p.rbyteorder ⟨w 1, w 0, 0, 0⟩ := by
  simp only [meaning, h]

theorem meaning_four {p : RegProp} (h : p.rsize = 4) (w : ℕ → Word) :
    meaning p w = reorder64 p.rbyteorder ⟨w 3, w 2, w 1, w 0⟩ := by
  simp only [meaning, h]

/-- The number that stands for an error. -/
def badNumber : VarType → NumericU
  | .uint16 => .ofUi16 BadValue.ui16
  | .int16 => .ofUi16 BadValue.i16
  | .uint32 => .setUi32 {} BadValue.ui32
  | .int32 => .setUi32 {} BadValue.i32
  | .float | .f10 | .f100 => .setUi32 {} BadValue.fl
  | .uint64 => .ofUi64 BadValue.ui64
  | .int64 => .ofUi64 BadValue.i64
  | .double => .ofUi64 BadValue.dbl
  | _ => {}

theorem decodeValue_one {rm : RegC} (h : rm.prop.rsize = 1) (plcs : PlcVec) :
    (rm.decodeValue plcs).2 =
      if rm.getPlcErrors plcs = 0 then meaning rm.prop (rm.word plcs)
      else badNumber rm.prop.rtype := by
  unfold decodeValue
  rw [if_pos h]
  rcases rm.row.single h with ht | ht | ⟨ht, hb⟩ | ⟨ht, hb⟩ | ⟨ht, hb⟩ | ⟨ht, hb⟩ <;>
    simp [*, singleValue_snd, meaning, badNumber]

theorem reorder32_stale (bo : ByteOrder) (a b : Word) (n : NumericU) :
    reorder32 bo ⟨a, b, n.w2, n.w3⟩ = (reorder32 bo ⟨a, b, 0, 0⟩).overlay 2 n := by
  unfold reorder32
  split_ifs <;> simp [NumericU.overlay, NumericU.be32toh]

theorem decodeValue_two {rm : RegC} (h : rm.prop.rsize = 2) (plcs : PlcVec) :
    (rm.decodeValue plcs).2 =
      (if rm.getPlcErrors plcs = 0 then meaning rm.prop (rm.word plcs)
        else badNumber rm.prop.rtype).overlay 2 rm.number := by
  have hpull : (rm.pullPlcValue32 plcs).2 = (meaning rm.prop (rm.word plcs)).overlay 2 rm.number := by
    simp only [pullPlcValue32, pullWords_two h, meaning, h]
    exact reorder32_stale _ _ _ rm.number
  have hset : ∀ x : BitVec 32, (rm.pullPlcValue32 plcs).2.setUi32 x =
      (NumericU.setUi32 {} x).overlay 2 rm.number := by
    intro x
    rw [hpull]
    simp [NumericU.overlay, NumericU.setUi32]
  unfold decodeValue
  rw [if_neg (by omega), if_pos h]
  rcases rm.row.multiword.1 h with ht | ht | ht <;>
    · simp only [ht, badNumber, hpull]
      split_ifs <;> simp_all

theorem decodeValue_four {rm : RegC} (h : rm.prop.rsize = 4) (plcs : PlcVec) :
    (rm.decodeValue plcs).2 =
      if rm.getPlcErrors plcs = 0 then meaning rm.prop (rm.word plcs)
      else badNumber rm.prop.rtype := by
  have hpull : (rm.pullPlcValue64 plcs).2 = meaning rm.prop (rm.word plcs) := by
    simp only [pullPlcValue64, pullWords_four h, meaning, h]
  unfold decodeValue
  rw [if_neg (by omega), if_neg (by omega), if_pos h]
  rcases rm.row.multiword.2.1 h with ht | ht | ht <;> simp [ht, badNumber, hpull]

/-- What decoding returns: the meaning of the words, or the bad value, but for
the upper half of the local value in two-word types. -/
theorem decodeValue_snd (plcs : PlcVec) (rm : RegC) :
    (rm.decodeValue plcs).2 =
      (if rm.getPlcErrors plcs = 0 then meaning rm.prop (rm.word plcs)
        else badNumber rm.prop.rtype).overlay (freshWords rm.prop) rm.number := by
  rcases rm.row.rsize with h | h | h | h
  · have herr : rm.getPlcErrors plcs = 0 := by simp [RegDef.getPlcErrors, h]
    simp [decodeValue, h, herr, freshWords, meaning]
  · simp [freshWords, h, decodeValue_one h plcs]
  · simp [freshWords, h, decodeValue_two h plcs]
  · simp [freshWords, h, decodeValue_four h plcs]

theorem meaning_congr {p : RegProp} (hp : p.Row) {w w' : ℕ → Word}
    (h : ∀ i < p.rsize, w' i = w i) : meaning p w' = meaning p w := by
  rcases hp.rsize with hs | hs | hs | hs <;> simp only [meaning, hs]
  · rw [h 0 (by omega)]
    cases p.rtype <;> rfl
  · simp only [h 0 (by omega), h 1 (by omega)]
  · simp only [h 0 (by omega), h 1 (by omega), h 2 (by omega), h 3 (by omega)]

theorem typed_overlay_fresh {d : RegDef} {t : UaType} (ht : d.prop.rtype.uaType = some t)
    (v n : NumericU) :
    (v.overlay (freshWords d.prop) n).typed t.words = v.typed t.words := by
  unfold freshWords
  split_ifs with h
  · rw [(d.row.uaType ht).2 h, NumericU.typed_overlay]
  · rw [NumericU.overlay_four]

@[simp] theorem getPlcValue_toRegDef (plcs : PlcVec) (rm : RegC) :
    (rm.getPlcValue plcs).1.toRegDef = rm.toRegDef := by
  unfold getPlcValue
  split_ifs
  · rfl
  · exact decodeValue_toRegDef plcs rm

theorem getPlcValue_number {rm : RegC} (h : rm.kind ≠ .scada) (plcs : PlcVec) :
    (rm.getPlcValue plcs).1.number = (rm.getPlcValue plcs).2 := by
  rw [getPlcValue, if_neg h]

theorem getPlcValue_snd {rm : RegC} (h : rm.kind ≠ .scada) (plcs : PlcVec) :
    (rm.getPlcValue plcs).2 =
      (if rm.getPlcErrors plcs = 0 then meaning rm.prop (rm.word plcs)
        else badNumber rm.prop.rtype).overlay (freshWords rm.prop) rm.number := by
  rw [getPlcValue, if_neg h]
  exact decodeValue_snd plcs rm

theorem getPlcValue_varErrors {plcs : PlcVec} {rm : RegC} (h0 : rm.varErrors = 0)
    (herr : rm.getPlcErrors plcs = 0) : (rm.getPlcValue plcs).1.varErrors = 0 := by
  unfold getPlcValue
  split_ifs
  · exact h0
  · exact decodeValue_varErrors h0 herr

end RegC
end RwModbus.Reg
