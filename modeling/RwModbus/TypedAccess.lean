import RwModbus.OpcServer

/-!
# Typed access to variables

`ReadNumber` and `WriteNumber` are templates over the C++ type. Both reinterpret
bytes: a write hands the address of its argument to the server, which copies as
many bytes as the variable's own type has, and a read takes as many bytes as the
requested type has from the eight that were copied off the node.
-/
namespace RwModbus.TypedAccess
open Numeric Registers Opc

/-- The integer types in `ua_types_map`, of C++ and of variables alike. -/
inductive IntType where
  | int16 | uint16 | int32 | uint32 | int64 | uint64
deriving DecidableEq, Repr

namespace IntType

def uaType : IntType → UaType
  | .int16 => .int16
  | .uint16 => .uint16
  | .int32 => .int32
  | .uint32 => .uint32
  | .int64 => .int64
  | .uint64 => .uint64

def words (t : IntType) : ℕ := t.uaType.words

def signed : IntType → Bool
  | .int16 | .int32 | .int64 => true
  | .uint16 | .uint32 | .uint64 => false

theorem words_pos (t : IntType) : 0 < t.words := by
  cases t <;> decide

theorem words_le (t : IntType) : t.words ≤ 4 := t.uaType.words_le

/-- The integers of the type. -/
def Represents (t : IntType) (n : ℤ) : Prop :=
  if t.signed then -2 ^ (16 * t.words - 1) ≤ n ∧ n < 2 ^ (16 * t.words - 1)
  else 0 ≤ n ∧ n < 2 ^ (16 * t.words)

instance (t : IntType) (n : ℤ) : Decidable (t.Represents n) :=
  if h : t.signed then
    decidable_of_iff (-2 ^ (16 * t.words - 1) ≤ n ∧ n < 2 ^ (16 * t.words - 1))
      (by simp [Represents, h])
  else decidable_of_iff (0 ≤ n ∧ n < 2 ^ (16 * t.words)) (by simp [Represents, h])

/-- The value of the object of this type at the first of the given bytes. -/
def decode (t : IntType) (v : NumericU) : ℤ :=
  let x := v.ui64.setWidth (16 * t.words)
  if t.signed then x.toInt else x.toNat

/-- The bytes from the address of an object of this type: its own, then whatever
follows it in memory. -/
def inMemory (t : IntType) (n : ℤ) (beyond : NumericU) : NumericU :=
  NumericU.overlay t.words (.ofUi64 (BitVec.ofInt 64 n)) beyond

end IntType

/-- `WriteNumber<T>(s, n, isOK)`. -/
def writeInt (t : IntType) (s : Name) (n : ℤ) (beyond : NumericU) (isOK : Bool) (o : OpcServer) :
    OpcServer :=
  (OpcServer.writeNumber s (t.inMemory n beyond) isOK o).1

/-- The number that `ReadNumber<U>(s, x)` leaves in `x`. -/
def readInt (u : IntType) (data : Option NumericU) (s : Name) (x : NumericU) (o : OpcServer) : ℤ :=
  u.decode (OpcServer.readNumber data s x o).2.1

theorem ui64_ofUi64 (x : BitVec 64) : (NumericU.ofUi64 x).ui64 = x := by
  apply BitVec.eq_of_getLsbD_eq
  intro i hi
  simp only [NumericU.ofUi64, NumericU.ui64, BitVec.getLsbD_append, BitVec.getLsbD_extractLsb']
  grind

theorem typed_eq (k : ℕ) (v : NumericU) :
    NumericU.typed k v = .ofUi64 ((v.ui64.setWidth (16 * k)).setWidth 64) := by
  ext1 <;> simp only [NumericU.typed, NumericU.ofUi64] <;> apply BitVec.eq_of_getLsbD_eq <;>
    intro i hi <;>
    simp only [NumericU.ui64, BitVec.getLsbD_extractLsb', BitVec.getLsbD_setWidth,
      BitVec.getLsbD_append] <;> split_ifs <;> grind

theorem setWidth_typed (k : ℕ) (v : NumericU) :
    (NumericU.typed k v).ui64.setWidth (16 * k) = v.ui64.setWidth (16 * k) := by
  apply BitVec.eq_of_getLsbD_eq
  intro i hi
  simp only [NumericU.ui64, NumericU.typed, BitVec.getLsbD_setWidth, BitVec.getLsbD_append]
  grind

theorem setWidth_ui64_eq_iff (k : ℕ) (a b : NumericU) :
    a.ui64.setWidth (16 * k) = b.ui64.setWidth (16 * k) ↔
      NumericU.typed k a = NumericU.typed k b := by
  constructor
  · intro h
    rw [typed_eq, typed_eq, h]
  · intro h
    rw [← setWidth_typed, h, setWidth_typed]

theorem setWidth_ofInt {m k : ℕ} (h : m ≤ k) (n : ℤ) :
    (BitVec.ofInt k n).setWidth m = BitVec.ofInt m n := by
  apply BitVec.eq_of_toInt_eq
  have hdvd : ((2 ^ m : ℕ) : ℤ) ∣ ((2 ^ k : ℕ) : ℤ) :=
    Int.natCast_dvd_natCast.mpr (Nat.pow_dvd_pow 2 h)
  rw [BitVec.toInt_ofInt, BitVec.toInt_setWidth, BitVec.toNat_ofInt,
    Int.toNat_of_nonneg (Int.emod_nonneg _ (by positivity)), ← Int.emod_bmod,
    Int.emod_emod_of_dvd _ hdvd, Int.emod_bmod]

theorem toInt_eq_iff {w : ℕ} {x : BitVec w} {n : ℤ} (hw : 0 < w)
    (hn : -2 ^ (w - 1) ≤ n ∧ n < 2 ^ (w - 1)) : x.toInt = n ↔ x = BitVec.ofInt w n := by
  constructor
  · rintro rfl
    exact BitVec.ofInt_toInt.symm
  · rintro rfl
    exact BitVec.toInt_ofInt_eq_self hw hn.1 hn.2

theorem toNat_eq_iff {w : ℕ} {x : BitVec w} {n : ℤ} (hn : 0 ≤ n ∧ n < 2 ^ w) :
    (x.toNat : ℤ) = n ↔ x = BitVec.ofInt w n := by
  obtain ⟨k, rfl⟩ := Int.eq_ofNat_of_zero_le hn.1
  have hk : k < 2 ^ w := by exact_mod_cast hn.2
  rw [BitVec.ofInt_natCast]
  constructor
  · intro h
    apply BitVec.eq_of_toNat_eq
    rw [BitVec.toNat_ofNat, Nat.mod_eq_of_lt hk]
    exact_mod_cast h
  · rintro rfl
    rw [BitVec.toNat_ofNat, Nat.mod_eq_of_lt hk]
/-- An object of the type holds `n` exactly if its words are those of `n`. -/
theorem decode_eq_iff {t : IntType} {n : ℤ} (hn : t.Represents n) (v : NumericU) :
    t.decode v = n ↔
      NumericU.typed t.words v = NumericU.typed t.words (.ofUi64 (BitVec.ofInt 64 n)) := by
  have hwidth : 16 * t.words ≤ 64 := by
    have := t.words_le
    omega
  rw [← setWidth_ui64_eq_iff, ui64_ofUi64, setWidth_ofInt hwidth]
  have hpos := t.words_pos
  unfold IntType.decode
  unfold IntType.Represents at hn
  split_ifs at hn ⊢ with hs
  · exact toInt_eq_iff (by omega) hn
  · exact toNat_eq_iff hn

theorem mb64u_overlay {i : ℕ} (hi : i < 4) (k : ℕ) (a b : NumericU) :
    (NumericU.overlay k a b).mb64u i = if i < k then a.mb64u i else b.mb64u i := by
  match i with
  | 0 => rfl
  | 1 => rfl
  | 2 => rfl
  | 3 => rfl

theorem typed_eq_iff {k : ℕ} (hk : k ≤ 4) (a b : NumericU) :
    NumericU.typed k a = NumericU.typed k b ↔ ∀ i < k, a.mb64u i = b.mb64u i := by
  constructor
  · exact fun h i hi => NumericU.mb64u_eq_of_typed hi hk h
  · intro h
    have h0 := h 0
    have h1 := h 1
    have h2 := h 2
    have h3 := h 3
    simp only [NumericU.mb64u] at h0 h1 h2 h3
    ext1 <;> simp only [NumericU.typed] <;> split_ifs with hlt <;> first | rfl | grind

theorem overlay_typed (k : ℕ) (a b : NumericU) :
    NumericU.overlay k (NumericU.typed k a) b = NumericU.overlay k a b := by
  ext1 <;> simp only [NumericU.overlay, NumericU.typed] <;> split_ifs <;> rfl

section
variable {o : OpcServer} {s : Name} {d t u : IntType} {n : ℤ}

theorem readNumber_writeInt (hv : o.isVariable s = true) (hd : (o.vars.val s).uaType = d.uaType)
    (hwr : o.wrStatus s = statusGood) (isOK : Bool) (after beyond x : NumericU) :
    (OpcServer.readNumber (some beyond) s x (writeInt t s n after isOK o)).2.1 =
      NumericU.overlay d.words (t.inMemory n after) beyond := by
  have hw := OpcServer.writeNumber_touches s (t.inMemory n after) isOK o
  have hv' : (writeInt t s n after isOK o).isVariable s = true := (hw.isVariable s).trans hv
  have hval : (writeInt t s n after isOK o).vars.val s = OpcServer.writeVariable (o.wrStatus s)
      (t.inMemory n after) isOK { o.vars.val s with rawValue := t.inMemory n after } := by
    rw [writeInt, OpcServer.writeNumber, if_pos hv, OpcServer.modifyVar_val_self]
  rw [OpcServer.readNumber, if_pos hv', OpcServer.refreshRawValue, if_pos hv']
  simp only [if_true, OpcServer.modifyVar_val_self, hval, OpcServer.writeVariable_accepted hwr, hd]
  exact overlay_typed _ _ _

/-- What is read is `n` exactly if the bytes that stand in for those that the
write or the read lacks are those of `n`. -/
theorem readInt_writeInt_eq_iff (hv : o.isVariable s = true)
    (hd : (o.vars.val s).uaType = d.uaType) (hwr : o.wrStatus s = statusGood)
    (hn : u.Represents n) (isOK : Bool) (after beyond x : NumericU) :
    readInt u (some beyond) s x (writeInt t s n after isOK o) = n ↔
      ∀ i < u.words,
        (i < d.words → t.words ≤ i → after.mb64u i = (NumericU.ofUi64 (BitVec.ofInt 64 n)).mb64u i) ∧
        (d.words ≤ i → beyond.mb64u i = (NumericU.ofUi64 (BitVec.ofInt 64 n)).mb64u i) := by
  rw [readInt, readNumber_writeInt hv hd hwr, decode_eq_iff hn, typed_eq_iff u.words_le]
  refine forall₂_congr fun i hi => ?_
  have hi4 : i < 4 := hi.trans_le u.words_le
  rw [IntType.inMemory, mb64u_overlay hi4, mb64u_overlay hi4]
  split_ifs with hd ht
  · exact iff_of_true rfl ⟨fun _ h => by omega, fun h => by omega⟩
  · exact ⟨fun h => ⟨fun _ _ => h, fun h => by omega⟩, fun h => h.1 hd (by omega)⟩
  · exact ⟨fun h => ⟨fun h => by omega, fun _ => h⟩, fun h => h.2 (by omega)⟩

/-- Some bytes have none of the words of others. -/
theorem exists_differing (a : NumericU) : ∃ b : NumericU, ∀ i, b.mb64u i ≠ a.mb64u i := by
  have hword : ∀ w : Word, w + 1 ≠ w := fun w h => by
    have hnat := congrArg BitVec.toNat h
    have := w.isLt
    rw [BitVec.toNat_add, show (1 : Word).toNat = 1 from rfl] at hnat
    omega
  refine ⟨⟨a.w0 + 1, a.w1 + 1, a.w2 + 1, a.w3 + 1⟩, fun i => ?_⟩
  match i with
  | 0 => exact hword _
  | 1 => exact hword _
  | 2 => exact hword _
  | _ + 3 => exact hword _

/-- A number written as a `T` is read back as a `U` whatever the neighbouring
bytes are exactly if `U` is no wider than `T` and the variable. -/
theorem readInt_writeInt_iff (hv : o.isVariable s = true)
    (hd : (o.vars.val s).uaType = d.uaType) (hwr : o.wrStatus s = statusGood)
    (hn : u.Represents n) (isOK : Bool) (x : NumericU) :
    (∀ after beyond, readInt u (some beyond) s x (writeInt t s n after isOK o) = n) ↔
      u.words ≤ t.words ∧ u.words ≤ d.words := by
  simp only [readInt_writeInt_eq_iff hv hd hwr hn]
  constructor
  · intro h
    obtain ⟨b, hb⟩ := exists_differing (.ofUi64 (BitVec.ofInt 64 n))
    have hwide : u.words ≤ d.words := by
      by_contra hlt
      exact hb d.words ((h b b d.words (by omega)).2 le_rfl)
    refine ⟨?_, hwide⟩
    by_contra hlt
    exact hb t.words ((h b b t.words (by omega)).1 (by omega) le_rfl)
  · rintro ⟨ht, hd⟩ after beyond i hi
    exact ⟨fun _ h => by omega, fun h => by omega⟩

end

/-- A server with one 16-bit variable, `Pshift`. -/
def pshiftServer : OpcServer :=
  ⟨KeyedMap.singleton "/SCADA/Pshift".toList fun _ => { uaType := .int16 }, fun _ => statusGood⟩

theorem readInt_writeInt_pshift : readInt .int16 (some { w1 := 1 }) "/SCADA/Pshift".toList {}
    (writeInt .int32 "/SCADA/Pshift".toList 120 { w1 := 7 } true pshiftServer) = 120 := by
  have hserver : (pshiftServer.vars.val "/SCADA/Pshift".toList).uaType = IntType.int16.uaType := rfl
  exact (readInt_writeInt_iff (by decide) hserver rfl (by decide) true {}).mpr (by decide) _ _

/-- The correction is written as an `int` and read as an `int`, but the variable
has 16 bits: the upper half of what is read is not the number's. -/
theorem readInt_writeInt_wide : ¬ ∀ (o : OpcServer) (s : Name) (d t u : IntType) (n : ℤ)
    (isOK : Bool) (after beyond x : NumericU), o.isVariable s = true →
    (o.vars.val s).uaType = d.uaType → o.wrStatus s = statusGood →
    d.Represents n → t.Represents n → u.Represents n →
    readInt u (some beyond) s x (writeInt t s n after isOK o) = n := by
  intro h
  have hread := h pshiftServer "/SCADA/Pshift".toList .int16 .int32 .int32 120 true {} { w1 := 1 } {}
    (by decide) rfl rfl (by decide) (by decide) (by decide)
  revert hread
  decide

end RwModbus.TypedAccess
