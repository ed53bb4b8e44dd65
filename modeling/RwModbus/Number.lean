import RwModbus.Library.Extended
import RwModbus.TypedAccess

/-!
# Numbers with a type

`Number_c`: the value union with a type that is chosen at run time. Types are looked
up in one table, by a global code or by the C++ type. What the platform's
`long double` does with integers is assumed of it; the rest of its conversions is
left open. Objects that are copied from are given by their bytes.
-/
namespace RwModbus.Number
open Numeric Registers TypedAccess

/-- `UA_TYPES_*`. -/
def code : UaType → ℤ
  | .int16 => 3
  | .uint16 => 4
  | .int32 => 5
  | .uint32 => 6
  | .int64 => 7
  | .uint64 => 8
  | .float => 9
  | .double => 10

/-- `NOTUA_TYPES_F10`. -/
def f10 : ℤ := 1010

/-- `NOTUA_TYPES_F100`. -/
def f100 : ℤ := 1100

/-- `std::type_index` of a C++ type: the one that stands for a type of variables,
`bool`, or any other. -/
inductive TypeIndex where
  | ua (t : UaType)
  | bool
  | other
deriving DecidableEq, Repr

/-- `type_attribute_t`; the name of the type is not used. -/
structure TypeAttribute where
  gType : ℤ
  uaType : ℤ
  sizeBytes : ℕ
  typeIdx : TypeIndex
  cFormat : Name
deriving DecidableEq, Repr

def typeAttr : List TypeAttribute :=
  [⟨code .int16, code .int16, 2, .ua .int16, ['%', 'i']⟩,
    ⟨code .int32, code .int32, 4, .ua .int32, ['%', 'i']⟩,
    ⟨code .int64, code .int64, 8, .ua .int64, ['%', 'l', 'i']⟩,
    ⟨code .uint16, code .uint16, 2, .ua .uint16, ['%', 'u']⟩,
    ⟨code .uint32, code .uint32, 4, .ua .uint32, ['%', 'u']⟩,
    ⟨code .uint64, code .uint64, 8, .ua .uint64, ['%', 'l', 'u']⟩,
    ⟨code .double, code .double, 8, .ua .double, ['%', '.', '5', 'l', 'f']⟩,
    ⟨code .float, code .float, 4, .ua .float, ['%', '.', '3', 'f']⟩,
    ⟨f100, code .float, 4, .ua .float, ['%', '.', '2', 'f']⟩,
    ⟨f10, code .float, 4, .ua .float, ['%', '.', '1', 'f']⟩]

/-- `_get_type_ptr(int)`. -/
def getTypePtr (gtype : ℤ) : Option TypeAttribute := typeAttr.find? fun ta => gtype == ta.gType

/-- `_get_type_ptr(type_index)`. -/
def getTypePtrIdx (ti : TypeIndex) : Option TypeAttribute :=
  typeAttr.find? fun ta => ti == ta.typeIdx

/-- `Number_c`, less the buffer for its text. -/
structure NumberC where
  value : NumericU := {}
  isgood : Bool := true
  typeUa : ℤ := 0
  typeBytes : ℕ := 0
  typeIndex : TypeIndex := .bool
  typeIsInt : Bool := false
  statusCode : ℤ := 0
  statusName : Name := []
  typeFmt : Option Name := none
deriving DecidableEq, Repr

/-- What a `const void*` argument leads to: nothing, the bytes of another object, or
the number's own value. -/
inductive Source where
  | null
  | bytes (v : NumericU)
  | own

/-- `fmt` of a number without a type. -/
def notSupported : Name := "Number_c: TYPE not supported".toList

namespace NumberC

/-- `_set_attributes`. -/
def setAttributes (ta : Option TypeAttribute) (n : NumberC) : NumberC × Bool :=
  match ta with
  | some ta =>
      ({ n with
        typeUa := ta.uaType
        typeIndex := ta.typeIdx
        typeBytes := ta.sizeBytes
        typeFmt := some ta.cFormat
        typeIsInt := decide (ta.uaType < code .float)
        isgood := true
        value := {} }, true)
  | none =>
      ({ n with
        typeUa := 0
        typeIndex := .bool
        typeFmt := some notSupported
        typeIsInt := false
        isgood := false
        value := {} }, false)

/-- `_init`; `memcpy` of `_type_bytes` bytes. -/
def init (psrc : Source) (isok : Bool) (n : NumberC) : NumberC :=
  let n := { n with isgood := isok, value := {} }
  match psrc with
  | .null => n
  | .bytes v => { n with value := v.overlay (n.typeBytes / 2) n.value }
  | .own => { n with value := n.value.overlay (n.typeBytes / 2) n.value }

/-- `_set_attr`. -/
def setAttr (ta : Option TypeAttribute) (psrc : Source) (isok : Bool) (n : NumberC) :
    NumberC × Bool :=
  let r := n.setAttributes ta
  if r.2 then (r.1.init psrc isok, true) else (r.1, false)

/-- The bytes that a new value of `k` words takes; the number's own are clear by then. -/
def taken (k : ℕ) : Source → NumericU
  | .bytes v => v.typed k
  | _ => {}

@[simp] theorem taken_own (k : ℕ) : taken k .own = {} := rfl

@[simp] theorem taken_bytes (k : ℕ) (v : NumericU) : taken k (.bytes v) = v.typed k := rfl

@[simp] theorem typed_taken (k : ℕ) (psrc : Source) : (taken k psrc).typed k = taken k psrc := by
  cases psrc with
  | bytes v => exact NumericU.typed_typed k v
  | null | own =>
      ext1 <;> simp only [taken, NumericU.typed] <;> split_ifs <;> rfl

theorem setAttr_some (ta : TypeAttribute) (psrc : Source) (isok : Bool) (n : NumberC) :
    n.setAttr (some ta) psrc isok =
      ({ n with
        typeUa := ta.uaType
        typeIndex := ta.typeIdx
        typeBytes := ta.sizeBytes
        typeFmt := some ta.cFormat
        typeIsInt := decide (ta.uaType < code .float)
        isgood := isok
        value := taken (ta.sizeBytes / 2) psrc }, true) := by
  have hown : ({} : NumericU).overlay (ta.sizeBytes / 2) {} = {} := by
    ext1 <;> simp only [NumericU.overlay] <;> split_ifs <;> rfl
  cases psrc with
  | null => rfl
  | bytes v => rfl
  | own => simp only [setAttr, setAttributes, init, hown, taken, if_true]

theorem setAttr_none (psrc : Source) (isok : Bool) (n : NumberC) :
    (n.setAttr none psrc isok).2 = false ∧ (n.setAttr none psrc isok).1.typeUa = 0 := ⟨rfl, rfl⟩

/-- `_set_type`. -/
def setTypeFrom (gtype : ℤ) (psrc : Source) (isok : Bool) (n : NumberC) : NumberC × Bool :=
  n.setAttr (getTypePtr gtype) psrc isok

/-- `_set_ti`. -/
def setTi (ti : TypeIndex) (psrc : Source) (isok : Bool) (n : NumberC) : NumberC × Bool :=
  n.setAttr (getTypePtrIdx ti) psrc isok

/-- `set_type`. -/
def setType (gtype : ℤ) (n : NumberC) : NumberC × Bool := n.setTypeFrom gtype .null true

/-- The body of `set`, when the bytes of `V` are at `psrc`. -/
def copyFrom (V : NumberC) (psrc : Source) (n : NumberC) : NumberC × Bool :=
  let r := n.setTypeFrom V.typeUa psrc V.isgood
  if r.2 then ({ r.1 with statusCode := V.statusCode, statusName := V.statusName }, true)
  else (r.1, false)

/-- `set` with another number. -/
def set (V n : NumberC) : NumberC × Bool := copyFrom V (.bytes V.value) n

/-- `n.set(n)`. -/
def setSelf (n : NumberC) : NumberC × Bool := copyFrom n .own n

/-- `set_status`. -/
def setStatus (stcode : ℤ) (stname : Name) (isok : Bool) (n : NumberC) : NumberC :=
  { n with isgood := isok, statusCode := stcode, statusName := stname }

/-- `Number_c()`. -/
def new : NumberC := (({} : NumberC).setTypeFrom (code .uint16) .null true).1

/-- `Number_c(const Number_c &)`. -/
def copy (V : NumberC) : NumberC := (set V {}).1

end NumberC

/-- `long double` on this platform. It holds every 64-bit integer; where a conversion
to an integer type is undefined it gives anything. -/
structure LongDouble extends Rounding (-2 ^ 63) (2 ^ 64 - 1) where
  ofFloat : BitVec 32 → Extended
  ofDouble : BitVec 64 → Extended
  toFloat : Extended → BitVec 32
  toDouble : Extended → BitVec 64
  undefined : IntType → Extended → ℤ

/-- `static_cast` to an integer type. -/
def LongDouble.toInt (L : LongDouble) (t : IntType) : Extended → ℤ
  | .fin q => if t.Represents (Extended.truncate q) then Extended.truncate q else L.undefined t (.fin q)
  | f => L.undefined t f

/-- An object of an arithmetic type. The last kind is an integer of a type that the
table does not have. -/
inductive Scalar where
  | int (t : IntType) (n : ℤ) (h : t.Represents n)
  | float (bits : BitVec 32)
  | double (bits : BitVec 64)
  | foreign (n : ℤ)

namespace Scalar

def typeIndex : Scalar → TypeIndex
  | int t _ _ => .ua t.uaType
  | float _ => .ua .float
  | double _ => .ua .double
  | foreign _ => .other

/-- Its bytes; none are taken from an object of a type that is not in the table. -/
def bytes : Scalar → NumericU
  | int t n _ => t.inMemory n {}
  | float b => NumericU.setUi32 {} b
  | double b => .ofUi64 b
  | foreign _ => {}

/-- Its conversion to `long double`. -/
def float128 (L : LongDouble) : Scalar → Extended
  | int _ n _ => L.ofInt n
  | float b => L.ofFloat b
  | double b => L.ofDouble b
  | foreign n => L.ofInt n

end Scalar

/-- The member of the union that the switches over `_type_ua` pick. -/
def caseOf (typeUa : ℤ) : Option UaType :=
  [(code .int16, .int16), (code .int32, .int32), (code .int64, .int64), (code .uint16, .uint16),
    (code .uint32, .uint32), (code .uint64, .uint64), (code .float, .float),
    (code .double, .double), (f10, .float), (f100, .float)].lookup typeUa

namespace NumberC

/-- `Number_c(T)`. -/
def ofScalar (x : Scalar) : NumberC := (({} : NumberC).setTi x.typeIndex (.bytes x.bytes) true).1

/-- `fl128`; also `(long double)`, since no number has that type. -/
def fl128 (L : LongDouble) (n : NumberC) : Extended :=
  match caseOf n.typeUa with
  | some .int16 => L.ofInt (IntType.int16.decode n.value)
  | some .int32 => L.ofInt (IntType.int32.decode n.value)
  | some .int64 => L.ofInt (IntType.int64.decode n.value)
  | some .uint16 => L.ofInt (IntType.uint16.decode n.value)
  | some .uint32 => L.ofInt (IntType.uint32.decode n.value)
  | some .uint64 => L.ofInt (IntType.uint64.decode n.value)
  | some .float => L.ofFloat n.value.ui32
  | some .double => L.ofDouble n.value.ui64
  | none => L.ofInt (IntType.uint16.decode n.value)

/-- `_set_value`: assigning a member leaves the bytes beyond it alone. -/
def setValue (L : LongDouble) (f : Extended) (n : NumberC) : NumberC × Bool :=
  match caseOf n.typeUa with
  | some .int16 => ({ n with value := IntType.int16.inMemory (L.toInt .int16 f) n.value }, true)
  | some .int32 => ({ n with value := IntType.int32.inMemory (L.toInt .int32 f) n.value }, true)
  | some .int64 => ({ n with value := IntType.int64.inMemory (L.toInt .int64 f) n.value }, true)
  | some .uint16 => ({ n with value := IntType.uint16.inMemory (L.toInt .uint16 f) n.value }, true)
  | some .uint32 => ({ n with value := IntType.uint32.inMemory (L.toInt .uint32 f) n.value }, true)
  | some .uint64 => ({ n with value := IntType.uint64.inMemory (L.toInt .uint64 f) n.value }, true)
  | some .float => ({ n with value := n.value.setUi32 (L.toFloat f) }, true)
  | some .double => ({ n with value := .ofUi64 (L.toDouble f) }, true)
  | none => (n, false)

/-- `operator= (T)`. -/
def assign (L : LongDouble) (x : Scalar) (n : NumberC) : NumberC :=
  if n.typeBytes = 0 ∨ n.typeUa = 0 then (n.setTi x.typeIndex (.bytes x.bytes) true).1
  else (n.setValue L (x.float128 L)).1

/-- `operator T` for an integer type. -/
def convert (L : LongDouble) (t : IntType) (n : NumberC) : ℤ :=
  if n.typeIndex = .ua t.uaType then t.decode n.value else L.toInt t (n.fl128 L)

/-- `DBL_EPSILON`. -/
def dblEpsilon : ℚ := 1 / 2 ^ 52

/-- `fabsl(a - b) <= DBL_EPSILON`. -/
def near (L : LongDouble) (a b : Extended) : Bool := (L.sub a b).abs.le (.fin dblEpsilon)

/-- `fabsl(a - b) > DBL_EPSILON`. -/
def apart (L : LongDouble) (a b : Extended) : Bool := (Extended.fin dblEpsilon).lt (L.sub a b).abs

/-- `operator== (Number_c &)`. -/
def eq (L : LongDouble) (n v2 : NumberC) : Bool :=
  if n.typeUa = v2.typeUa ∧ n.typeIsInt then n.value.ui64 == v2.value.ui64
  else near L (n.fl128 L) (v2.fl128 L)

/-- `operator!= (Number_c &)`. -/
def ne (L : LongDouble) (n v2 : NumberC) : Bool :=
  if n.typeUa = v2.typeUa ∧ n.typeIsInt then n.value.ui64 != v2.value.ui64
  else apart L (n.fl128 L) (v2.fl128 L)

/-- `operator< (Number_c &)`. -/
def lt (L : LongDouble) (n v2 : NumberC) : Bool := (n.fl128 L).lt (v2.fl128 L)

/-- `operator> (Number_c &)`. -/
def gt (L : LongDouble) (n v2 : NumberC) : Bool := (v2.fl128 L).lt (n.fl128 L)

variable (L : LongDouble) (t : IntType) (x : ℤ) (n : NumberC)

/-- `operator== (T)` for an `x` of type `t`. -/
def eqInt : Bool :=
  if n.typeIndex = .ua t.uaType ∧ n.typeIsInt then decide (t.decode n.value = x)
  else near L (n.fl128 L) (L.ofInt x)

/-- `operator!= (T)`. -/
def neInt : Bool :=
  if n.typeIndex = .ua t.uaType ∧ n.typeIsInt then decide (t.decode n.value ≠ x)
  else apart L (n.fl128 L) (L.ofInt x)

/-- `operator< (T)`. -/
def ltInt : Bool :=
  if n.typeIndex = .ua t.uaType then decide (t.decode n.value < x)
  else (n.fl128 L).lt (L.ofInt x)

/-- `operator> (T)`. -/
def gtInt : Bool :=
  if n.typeIndex = .ua t.uaType then decide (x < t.decode n.value)
  else (L.ofInt x).lt (n.fl128 L)

end NumberC

end RwModbus.Number
