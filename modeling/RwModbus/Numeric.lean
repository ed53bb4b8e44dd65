import Mathlib

/-!
# The value union and the register types

`numeric_u` is eight bytes seen as integers, floats or Modbus words. Its member
`mb64u[4]` determines all the others, so the model stores those four words;
the host is little-endian and word 0 is the least significant. A scalar of a
type occupies the first one, two or four words. Floats are kept as their
IEEE binary32 and binary64 bit patterns.
-/
namespace RwModbus.Numeric

abbrev Word := BitVec 16

/-- `numeric_u`; a fresh one is zero (`uint64_t ui64 = 0`). -/
@[ext] structure NumericU where
  w0 : Word := 0
  w1 : Word := 0
  w2 : Word := 0
  w3 : Word := 0
deriving DecidableEq, Repr

namespace NumericU

/-- Reading `mb64u[i]`; `mb32u[i]` names the same two low words. -/
def mb64u (v : NumericU) : ℕ → Word
  | 0 => v.w0
  | 1 => v.w1
  | 2 => v.w2
  | _ => v.w3

/-- Assigning `mb64u[i]` leaves the other words alone. -/
def setMb (v : NumericU) (i : ℕ) (w : Word) : NumericU :=
  match i with
  | 0 => { v with w0 := w }
  | 1 => { v with w1 := w }
  | 2 => { v with w2 := w }
  | _ => { v with w3 := w }

def ui16 (v : NumericU) : Word := v.w0
def ui32 (v : NumericU) : BitVec 32 := v.w1 ++ v.w0
def ui64 (v : NumericU) : BitVec 64 := v.w3 ++ v.w2 ++ v.w1 ++ v.w0

def setUi16 (v : NumericU) (x : Word) : NumericU := { v with w0 := x }

def setUi32 (v : NumericU) (x : BitVec 32) : NumericU :=
  { v with w0 := x.extractLsb' 0 16, w1 := x.extractLsb' 16 16 }

def ofUi64 (x : BitVec 64) : NumericU :=
  ⟨x.extractLsb' 0 16, x.extractLsb' 16 16, x.extractLsb' 32 16, x.extractLsb' 48 16⟩

def ofUi16 (x : Word) : NumericU := { w0 := x }

@[simp] theorem ui16_ofUi16 (x : Word) : (ofUi16 x).ui16 = x := rfl
@[simp] theorem ui16_setUi16 (v : NumericU) (x : Word) : (v.setUi16 x).ui16 = x := rfl
@[simp] theorem mb64u_zero (v : NumericU) : v.mb64u 0 = v.ui16 := rfl

@[simp] theorem ui32_setUi32 (v : NumericU) (x : BitVec 32) : (v.setUi32 x).ui32 = x := by
  apply BitVec.eq_of_getLsbD_eq
  intro i hi
  simp only [setUi32, ui32, BitVec.getLsbD_append, BitVec.getLsbD_extractLsb']
  grind

theorem ofUi16_injective : Function.Injective ofUi16 := fun _ _ h =>
  congrArg NumericU.w0 h

@[simp] theorem ofUi16_inj {x y : Word} : ofUi16 x = ofUi16 y ↔ x = y :=
  ofUi16_injective.eq_iff

/-- `operator!=` compares `ui64`, which is comparison of all four words. -/
theorem ui64_injective : Function.Injective ui64 := by
  intro a b h
  have word : ∀ (v : NumericU),
      v = ⟨v.ui64.extractLsb' 0 16, v.ui64.extractLsb' 16 16,
        v.ui64.extractLsb' 32 16, v.ui64.extractLsb' 48 16⟩ := by
    intro v
    ext1 <;> apply BitVec.eq_of_getLsbD_eq <;> intro i hi <;>
      simp only [ui64, BitVec.getLsbD_append, BitVec.getLsbD_extractLsb'] <;> grind
  rw [word a, word b, h]

/-- The first `n` words, the rest cleared: what a scalar of `n` words shows. -/
def typed (n : ℕ) (v : NumericU) : NumericU :=
  ⟨if 0 < n then v.w0 else 0, if 1 < n then v.w1 else 0,
    if 2 < n then v.w2 else 0, if 3 < n then v.w3 else 0⟩

/-- Eight bytes copied from an `n`-word scalar: the rest is whatever follows
the scalar in memory. -/
def overlay (n : ℕ) (scalar beyond : NumericU) : NumericU :=
  ⟨if 0 < n then scalar.w0 else beyond.w0, if 1 < n then scalar.w1 else beyond.w1,
    if 2 < n then scalar.w2 else beyond.w2, if 3 < n then scalar.w3 else beyond.w3⟩

@[simp] theorem typed_overlay (n : ℕ) (scalar beyond : NumericU) :
    typed n (overlay n scalar beyond) = typed n scalar := by
  ext1 <;> simp only [typed, overlay] <;> split_ifs <;> rfl

@[simp] theorem overlay_overlay (n : ℕ) (scalar v beyond : NumericU) :
    overlay n scalar (overlay n v beyond) = overlay n scalar beyond := by
  ext1 <;> simp only [overlay] <;> split_ifs <;> rfl

@[simp] theorem overlay_four (scalar beyond : NumericU) : overlay 4 scalar beyond = scalar := by
  simp [overlay]

@[simp] theorem typed_typed (n : ℕ) (v : NumericU) : typed n (typed n v) = typed n v := by
  ext1 <;> simp only [typed] <;> split_ifs <;> rfl

@[simp] theorem typed_four (v : NumericU) : typed 4 v = v := by
  simp [typed]

@[simp] theorem typed_one (v : NumericU) : typed 1 v = ofUi16 v.ui16 := by
  simp [typed, ofUi16, ui16]

theorem mb64u_eq_of_typed {n i : ℕ} (hi : i < n) (hn : n ≤ 4) {a b : NumericU}
    (h : typed n a = typed n b) : a.mb64u i = b.mb64u i := by
  simp only [typed, NumericU.mk.injEq] at h
  obtain ⟨h0, h1, h2, h3⟩ := h
  match i with
  | 0 => simpa [mb64u, hi] using h0
  | 1 => simpa [mb64u, hi] using h1
  | 2 => simpa [mb64u, hi] using h2
  | i + 3 =>
      have h : 3 < n := by omega
      simpa [mb64u, h] using h3

end NumericU

def bswap16 (w : Word) : Word := w.extractLsb' 0 8 ++ w.extractLsb' 8 8

@[simp] theorem bswap16_bswap16 (w : Word) : bswap16 (bswap16 w) = w := by
  simp only [bswap16]
  grind

namespace NumericU

/-- `be32toh(value.ui32)` on a little-endian host reverses the four bytes. -/
def be32toh (v : NumericU) : NumericU :=
  { v with w0 := bswap16 v.w1, w1 := bswap16 v.w0 }

/-- `be64toh(value.ui64)` on a little-endian host reverses the eight bytes. -/
def be64toh (v : NumericU) : NumericU :=
  ⟨bswap16 v.w3, bswap16 v.w2, bswap16 v.w1, bswap16 v.w0⟩

end NumericU

/-- The magnitude `mant * 2 ^ exp` rounded to the nearest binary32, ties to
even, for results in the normal range. -/
def roundBinary32 (mant : ℕ) (exp : ℤ) : ℕ :=
  if mant = 0 then 0 else
    let top := mant.log2
    let scaled :=
      if top ≤ 23 then mant <<< (23 - top)
      else
        let cut := top - 23
        let kept := mant >>> cut
        let rest := mant % 2 ^ cut
        if 2 ^ (cut - 1) < rest ∨ (rest = 2 ^ (cut - 1) ∧ kept % 2 = 1) then kept + 1 else kept
    -- adding the significand carries into the exponent when rounding overflows
    (exp + (top : ℤ) + 126).toNat <<< 23 + scaled

/-- `(int16_t)reg * c` for the float constant `c = mant * 2 ^ exp`. -/
def scaleFloat (mant : ℕ) (exp : ℤ) (reg : Word) : BitVec 32 :=
  BitVec.ofNat 32 (roundBinary32 (reg.toInt.natAbs * mant) exp) |||
    if reg.toInt < 0 then 0x80000000#32 else 0

/-- `(int16_t)reg * 0.01f`; `0.01f` is `10737418 * 2 ^ -30`. -/
def timesF100 : Word → BitVec 32 := scaleFloat 10737418 (-30)

/-- `(int16_t)reg * 0.1f`; `0.1f` is `13421773 * 2 ^ -27`. -/
def timesF10 : Word → BitVec 32 := scaleFloat 13421773 (-27)

example : timesF100 25 = 0x3e800000#32 ∧ timesF100 3674 = 0x4212f5c2#32 ∧
    timesF10 (-5) = 0xbf000000#32 := by decide +kernel

namespace BadValue
def i16 : Word := 0x8000
def ui16 : Word := 0xffff
def i32 : BitVec 32 := 0x80000000
def ui32 : BitVec 32 := 0xffffffff
def i64 : BitVec 64 := 0x8000000000000000
def ui64 : BitVec 64 := 0xffffffffffffffff
/-- `-9999.75f`. -/
def fl : BitVec 32 := 0xc61c3f00
/-- `-99999.875`. -/
def dbl : BitVec 64 := 0xc0f869fe00000000
end BadValue

/-- `var_type_ua`: a `UA_TYPES_*` code or one of the gateway's own codes. -/
inductive VarType where
  | int16 | uint16 | int32 | uint32 | int64 | uint64 | float | double
  | f10 | f100 | hex16 | binary | ref | nothing | second | third | fourth
deriving DecidableEq, Repr

/-- `byteorder_t`, the members that occur in `regprop_map`. -/
inductive ByteOrder where
  | sngl | be | bs | le | ls | f10 | f100 | hex | binary
  | second | third | fourth | ref | nothing
deriving DecidableEq, Repr

/-- `regprop_t`: type, number of Modbus words and byte order. -/
structure RegProp where
  rtype : VarType
  rsize : ℕ
  rbyteorder : ByteOrder
deriving DecidableEq, Repr

/-- `regprop_map`, the rows of the loader's type table. -/
def regpropMap : List (String × RegProp) :=
  [("*", ⟨.ref, 0, .ref⟩), ("-", ⟨.nothing, 0, .nothing⟩),
   ("u", ⟨.uint16, 1, .sngl⟩), ("i", ⟨.int16, 1, .sngl⟩), ("f", ⟨.f100, 1, .f100⟩),
   ("u16", ⟨.uint16, 1, .sngl⟩), ("i16", ⟨.int16, 1, .sngl⟩),
   ("f10", ⟨.f10, 1, .f10⟩), ("f100", ⟨.f100, 1, .f100⟩),
   ("hex", ⟨.hex16, 1, .hex⟩), ("bin", ⟨.binary, 1, .binary⟩),
   ("u32", ⟨.uint32, 2, .be⟩), ("i32", ⟨.int32, 2, .be⟩),
   ("u64", ⟨.uint64, 4, .be⟩), ("i64", ⟨.int64, 4, .be⟩),
   ("float", ⟨.float, 2, .be⟩), ("double", ⟨.double, 4, .be⟩),
   ("u32be", ⟨.uint32, 2, .be⟩), ("i32be", ⟨.int32, 2, .be⟩),
   ("u32bs", ⟨.uint32, 2, .bs⟩), ("i32bs", ⟨.int32, 2, .bs⟩),
   ("u32le", ⟨.uint32, 2, .le⟩), ("i32le", ⟨.int32, 2, .le⟩),
   ("u32ls", ⟨.uint32, 2, .ls⟩), ("i32ls", ⟨.int32, 2, .ls⟩),
   ("u64be", ⟨.uint64, 4, .be⟩), ("i64be", ⟨.int64, 4, .be⟩),
   ("u64bs", ⟨.uint64, 4, .bs⟩), ("i64bs", ⟨.int64, 4, .bs⟩),
   ("u64le", ⟨.uint64, 4, .le⟩), ("i64le", ⟨.int64, 4, .le⟩),
   ("u64ls", ⟨.uint64, 4, .ls⟩), ("i64ls", ⟨.int64, 4, .ls⟩),
   ("fhh", ⟨.float, 2, .be⟩), ("fbe", ⟨.float, 2, .be⟩),
   ("float_be", ⟨.float, 2, .be⟩), ("float_abcd", ⟨.float, 2, .be⟩),
   ("flh", ⟨.float, 2, .bs⟩), ("fbs", ⟨.float, 2, .bs⟩),
   ("float_bs", ⟨.float, 2, .bs⟩), ("float_badc", ⟨.float, 2, .bs⟩),
   ("fll", ⟨.float, 2, .le⟩), ("fle", ⟨.float, 2, .le⟩),
   ("float_le", ⟨.float, 2, .le⟩), ("float_dcba", ⟨.float, 2, .le⟩),
   ("fhl", ⟨.float, 2, .ls⟩), ("fls", ⟨.float, 2, .ls⟩),
   ("float_ls", ⟨.float, 2, .ls⟩), ("float_cdab", ⟨.float, 2, .ls⟩),
   ("f_abcd", ⟨.float, 2, .be⟩), ("f_badc", ⟨.float, 2, .bs⟩),
   ("f_dcba", ⟨.float, 2, .le⟩), ("f_cdab", ⟨.float, 2, .ls⟩),
   ("dhh", ⟨.double, 4, .be⟩), ("dbe", ⟨.double, 4, .be⟩), ("double_be", ⟨.double, 4, .be⟩),
   ("dlh", ⟨.double, 4, .bs⟩), ("dbs", ⟨.double, 4, .bs⟩), ("double_bs", ⟨.double, 4, .bs⟩),
   ("dll", ⟨.double, 4, .le⟩), ("dle", ⟨.double, 4, .le⟩), ("double_le", ⟨.double, 4, .le⟩),
   ("dhl", ⟨.double, 4, .ls⟩), ("dls", ⟨.double, 4, .ls⟩), ("double_ls", ⟨.double, 4, .ls⟩),
   ("2nd", ⟨.second, 0, .second⟩), ("2", ⟨.second, 0, .second⟩),
   ("3rd", ⟨.third, 0, .third⟩), ("3", ⟨.third, 0, .third⟩),
   ("4th", ⟨.fourth, 0, .fourth⟩), ("4", ⟨.fourth, 0, .fourth⟩)]

/-- The rows as such: a register's three type attributes always come from one. -/
def RegProp.Row (p : RegProp) : Prop := p ∈ regpropMap.map Prod.snd

instance (p : RegProp) : Decidable p.Row := inferInstanceAs (Decidable (_ ∈ _))

theorem row_u16 : RegProp.Row ⟨.uint16, 1, .sngl⟩ := by decide

/-- Two words or four are always one number with one of the four orders. -/
theorem RegProp.Row.multiword {p : RegProp} (h : p.Row) :
    (p.rsize = 2 → p.rtype = .uint32 ∨ p.rtype = .int32 ∨ p.rtype = .float) ∧
    (p.rsize = 4 → p.rtype = .uint64 ∨ p.rtype = .int64 ∨ p.rtype = .double) ∧
    (p.rsize = 2 ∨ p.rsize = 4 → p.rbyteorder = .be ∨ p.rbyteorder = .bs ∨
      p.rbyteorder = .le ∨ p.rbyteorder = .ls) := by
  have hrows : ∀ p ∈ regpropMap.map Prod.snd,
      (p.rsize = 2 → p.rtype = .uint32 ∨ p.rtype = .int32 ∨ p.rtype = .float) ∧
      (p.rsize = 4 → p.rtype = .uint64 ∨ p.rtype = .int64 ∨ p.rtype = .double) ∧
      (p.rsize = 2 ∨ p.rsize = 4 → p.rbyteorder = .be ∨ p.rbyteorder = .bs ∨
        p.rbyteorder = .le ∨ p.rbyteorder = .ls) := by decide
  exact hrows p h

theorem RegProp.Row.single {p : RegProp} (h : p.Row) (hsize : p.rsize = 1) :
    p.rtype = .uint16 ∨ p.rtype = .int16 ∨ (p.rtype = .f100 ∧ p.rbyteorder = .f100) ∨
      (p.rtype = .f10 ∧ p.rbyteorder = .f10) ∨ (p.rtype = .hex16 ∧ p.rbyteorder = .hex) ∨
      (p.rtype = .binary ∧ p.rbyteorder = .binary) := by
  have hrows : ∀ p ∈ regpropMap.map Prod.snd, p.rsize = 1 →
      p.rtype = .uint16 ∨ p.rtype = .int16 ∨ (p.rtype = .f100 ∧ p.rbyteorder = .f100) ∨
      (p.rtype = .f10 ∧ p.rbyteorder = .f10) ∨ (p.rtype = .hex16 ∧ p.rbyteorder = .hex) ∨
      (p.rtype = .binary ∧ p.rbyteorder = .binary) := by decide
  exact hrows p h hsize

theorem RegProp.Row.rsize {p : RegProp} (h : p.Row) :
    p.rsize = 0 ∨ p.rsize = 1 ∨ p.rsize = 2 ∨ p.rsize = 4 := by
  have hrows : ∀ p ∈ regpropMap.map Prod.snd,
      p.rsize = 0 ∨ p.rsize = 1 ∨ p.rsize = 2 ∨ p.rsize = 4 := by decide
  exact hrows p h

/-- The scalar types in `ua_types_map`. -/
inductive UaType where
  | int16 | uint16 | int32 | uint32 | int64 | uint64 | float | double
deriving DecidableEq, Repr

def UaType.words : UaType → ℕ
  | .int16 | .uint16 => 1
  | .int32 | .uint32 | .float => 2
  | .int64 | .uint64 | .double => 4

theorem UaType.words_le (t : UaType) : t.words ≤ 4 := by
  cases t <;> decide

theorem UaType.words_pos (t : UaType) : 0 < t.words := by
  cases t <;> decide

/-- The type of the variable that `opc_regs_init` adds for a register; for the
types missing here it adds none. -/
def VarType.uaType : VarType → Option UaType
  | .uint16 => some .uint16
  | .int16 => some .int16
  | .uint32 => some .uint32
  | .int32 => some .int32
  | .uint64 => some .uint64
  | .int64 => some .int64
  | .f100 | .f10 | .float => some .float
  | .double => some .double
  | _ => none

theorem RegProp.Row.uaType {p : RegProp} (h : p.Row) {t : UaType} (ht : p.rtype.uaType = some t) :
    p.rsize ≠ 0 ∧ (p.rsize = 2 → t.words = 2) := by
  have hrows : ∀ p ∈ regpropMap.map Prod.snd, ∀ t ∈ p.rtype.uaType,
      p.rsize ≠ 0 ∧ (p.rsize = 2 → t.words = 2) := by decide
  exact hrows p h t ht

end RwModbus.Numeric
