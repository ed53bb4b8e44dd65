import RwModbus.IntegerNumbers

/-!
# Copies of numbers

`set` finds the attributes of the copy by the UA type of the original, which the
rows for F10 and F100 share with the one for floats, and takes the value after it
has cleared its own.
-/
namespace RwModbus.Number
open Numeric Registers

namespace NumberC

/-- The copy shows what the original showed: the bytes of its value, its type and
format, and its status. -/
structure SameAs (V m : NumberC) : Prop where
  value : m.value.typed (V.typeBytes / 2) = V.value.typed (V.typeBytes / 2)
  typeUa : m.typeUa = V.typeUa
  typeIndex : m.typeIndex = V.typeIndex
  typeBytes : m.typeBytes = V.typeBytes
  typeIsInt : m.typeIsInt = V.typeIsInt
  typeFmt : m.typeFmt = V.typeFmt
  isgood : m.isgood = V.isgood
  statusCode : m.statusCode = V.statusCode
  statusName : m.statusName = V.statusName

/-- The ways to copy `V`: into another number by `set` or `=`, into a new one, or
into itself. -/
inductive Copying (V : NumberC) where
  | set (n : NumberC)
  | assign (n : NumberC)
  | construct
  | setSelf
  | assignSelf

/-- The number copied to, afterwards. -/
def Copying.result {V : NumberC} : Copying V → NumberC
  | .set n => (NumberC.set V n).1
  | .assign n => (NumberC.set V n).1
  | .construct => copy V
  | .setSelf => V.setSelf.1
  | .assignSelf => V.setSelf.1

def Copying.isSelf {V : NumberC} : Copying V → Bool
  | .setSelf | .assignSelf => true
  | _ => false

/-- The row that a copy gets has everything from the original's but the format. -/
theorem row_of_copy {row : TypeAttribute} (h : row ∈ typeAttr) :
    ∃ row', getTypePtr row.uaType = some row' ∧ row'.uaType = row.uaType ∧
      row'.typeIdx = row.typeIdx ∧ row'.sizeBytes = row.sizeBytes ∧
      (row'.cFormat = row.cFormat ↔ row.gType = row.uaType) := by
  simp only [typeAttr, List.mem_cons, List.not_mem_nil, or_false] at h
  rcases h with rfl | rfl | rfl | rfl | rfl | rfl | rfl | rfl | rfl | rfl <;>
    exact ⟨_, rfl, rfl, rfl, rfl, by decide⟩

section
variable {V : NumberC} {row : TypeAttribute} (hrow : row ∈ typeAttr) (hV : V.HasRow row)
include hrow hV

theorem sameAs_copyFrom_iff (psrc : Source) (n : NumberC) :
    SameAs V (copyFrom V psrc n).1 ↔ row.gType = row.uaType ∧
      taken (V.typeBytes / 2) psrc = V.value.typed (V.typeBytes / 2) := by
  obtain ⟨row', hfound, hua, hidx, hbytes, hfmt⟩ := row_of_copy hrow
  have hcopy : (copyFrom V psrc n).1 =
      { (n.setAttr (some row') psrc V.isgood).1 with
        statusCode := V.statusCode
        statusName := V.statusName } := by
    simp only [copyFrom, setTypeFrom, hV.typeUa, hfound, setAttr_some, if_true]
  have hwords : row'.sizeBytes / 2 = V.typeBytes / 2 := by rw [hbytes, hV.typeBytes]
  rw [hcopy, setAttr_some, hwords, ← hfmt]
  constructor
  · intro hsame
    have hshown := hsame.typeFmt
    rw [hV.typeFmt, Option.some.injEq] at hshown
    exact ⟨hshown, (typed_taken _ psrc).symm.trans hsame.value⟩
  · rintro ⟨hshown, hvalue⟩
    exact
      { value := (typed_taken _ psrc).trans hvalue
        typeUa := hua.trans hV.typeUa.symm
        typeIndex := hidx.trans hV.typeIndex.symm
        typeBytes := hbytes.trans hV.typeBytes.symm
        typeIsInt := by rw [hV.typeIsInt, hua]
        typeFmt := by rw [hV.typeFmt, hshown]
        isgood := rfl
        statusCode := rfl
        statusName := rfl }

/-- A copy is faithful exactly if the type has a row of its own and, in a copy into
itself, there was no value to lose. -/
theorem copying_sameAs_iff (c : Copying V) : SameAs V c.result ↔
    row.gType = row.uaType ∧ (c.isSelf = true → V.value.typed (V.typeBytes / 2) = {}) := by
  have hother : ∀ n, SameAs V (NumberC.set V n).1 ↔ row.gType = row.uaType := fun n =>
    (sameAs_copyFrom_iff hrow hV (.bytes V.value) n).trans (and_iff_left rfl)
  have hself : SameAs V V.setSelf.1 ↔
      row.gType = row.uaType ∧ V.value.typed (V.typeBytes / 2) = {} :=
    (sameAs_copyFrom_iff hrow hV .own V).trans (and_congr_right fun _ => eq_comm)
  cases c with
  | set n | assign n | construct =>
      exact (hother _).trans (and_iff_left fun h => absurd h Bool.false_ne_true).symm
  | setSelf | assignSelf =>
      exact hself.trans (and_congr_right fun _ => ⟨fun h _ => h, fun h => h rfl⟩)

end

/-- Every number with a type that a program can have has a row. -/
theorem Reachable.hasRow {L : LongDouble} {V : NumberC} (h : Reachable L V) (ht : V.typeUa ≠ 0) :
    ∃ row ∈ typeAttr, V.HasRow row := by
  obtain ⟨row, hrow, hV, -⟩ := h.proper.resolve_left ht
  exact ⟨row, hrow, hV⟩

/-- The number 5, whose last reading failed. -/
def failedFive : NumberC :=
  (new.setTypeFrom (code .uint16) (.bytes (.ofUi16 5)) true).1.setStatus (-2146959360)
    ['B', 'a', 'd', 'T', 'i', 'm', 'e', 'o', 'u', 't'] false

theorem copying_sameAs_failedFive : SameAs failedFive (copy failedFive) := by
  have hfound : getTypePtr (code .uint16) =
      some ⟨code .uint16, code .uint16, 2, .ua .uint16, ['%', 'u']⟩ := rfl
  exact (copying_sameAs_iff (V := failedFive) (getTypePtr_mem hfound) ⟨rfl, rfl, rfl, rfl, rfl⟩
    .construct).mpr ⟨rfl, fun h => absurd h Bool.false_ne_true⟩

/-- A number with two decimals, copied, shows three. -/
theorem copying_sameAs_fails : ¬ ∀ (V : NumberC) (row : TypeAttribute), row ∈ typeAttr →
    V.HasRow row → ∀ c : Copying V, SameAs V c.result := by
  intro h
  have hfound : getTypePtr f100 =
      some ⟨f100, code .float, 4, .ua .float, ['%', '.', '2', 'f']⟩ := rfl
  have hsame := h (new.setType f100).1 _ (getTypePtr_mem hfound) (hasRow_setType hfound new)
    .construct
  exact absurd hsame.typeFmt (by decide)

end NumberC

end RwModbus.Number
