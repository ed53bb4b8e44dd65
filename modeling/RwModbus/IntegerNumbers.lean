import RwModbus.Number

/-!
# Integers in numbers

Numbers of an integer type keep the bytes beyond their value clear, whatever is done
to them, so comparing eight bytes is comparing values. Everything else goes through
`long double`, which holds all the integers there are.
-/
namespace RwModbus.Number
open Numeric Registers TypedAccess

theorem represents_decode (t : IntType) (v : NumericU) : t.Represents (t.decode v) := by
  have hpos := t.words_pos
  unfold IntType.Represents IntType.decode
  dsimp only
  split_ifs
  · exact ⟨BitVec.le_toInt _, BitVec.toInt_lt⟩
  · exact ⟨Int.natCast_nonneg _, by exact_mod_cast BitVec.isLt _⟩

theorem represents_bounds {t : IntType} {n : ℤ} (h : t.Represents n) :
    -2 ^ 63 ≤ n ∧ n ≤ 2 ^ 64 - 1 := by
  cases t <;> simp only [IntType.Represents, IntType.signed, IntType.words, IntType.uaType,
    UaType.words] at h <;> norm_num at h ⊢ <;> omega

theorem decode_eq_decode_iff (t : IntType) (v w : NumericU) :
    t.decode v = t.decode w ↔ v.typed t.words = w.typed t.words := by
  have hw := (decode_eq_iff (represents_decode t w) w).mp rfl
  rw [decode_eq_iff (represents_decode t w), ← hw]

theorem decode_inMemory {t : IntType} {n : ℤ} (h : t.Represents n) (v : NumericU) :
    t.decode (t.inMemory n v) = n := by
  rw [decode_eq_iff h, IntType.inMemory, NumericU.typed_overlay]

theorem typed_overlay_self {k : ℕ} {v : NumericU} (h : v.typed k = v) (a : NumericU) :
    (a.overlay k v).typed k = a.overlay k v := by
  have hsplit : a.overlay k v = a.overlay k (v.typed k) := by rw [h]
  rw [NumericU.typed_overlay, hsplit]
  ext1 <;> simp only [NumericU.typed, NumericU.overlay] <;> split_ifs <;> rfl

namespace LongDouble
variable (L : LongDouble) {t : IntType} {n : ℤ}

theorem ofInt_represents (h : t.Represents n) : L.ofInt n = .fin n :=
  L.ofInt_eq (represents_bounds h).1 (represents_bounds h).2

theorem toInt_fin (h : t.Represents n) : L.toInt t (.fin n) = n := by
  rw [toInt, Extended.truncate_intCast, if_pos h]

end LongDouble

namespace NumberC

/-- The number has the attributes of a row of the table. -/
structure HasRow (row : TypeAttribute) (n : NumberC) : Prop where
  typeUa : n.typeUa = row.uaType
  typeIndex : n.typeIndex = row.typeIdx
  typeBytes : n.typeBytes = row.sizeBytes
  typeFmt : n.typeFmt = some row.cFormat
  typeIsInt : n.typeIsInt = decide (row.uaType < code .float)

/-- The number has no type, or it has a row and no byte beyond its value is set. -/
def Proper (n : NumberC) : Prop := n.typeUa = 0 ∨ ∃ row ∈ typeAttr, n.HasRow row ∧
  n.value.typed (n.typeBytes / 2) = n.value

theorem getTypePtr_mem {gtype : ℤ} {row : TypeAttribute} (h : getTypePtr gtype = some row) :
    row ∈ typeAttr := List.mem_of_find?_eq_some h

theorem getTypePtrIdx_mem {ti : TypeIndex} {row : TypeAttribute}
    (h : getTypePtrIdx ti = some row) : row ∈ typeAttr := List.mem_of_find?_eq_some h

theorem hasRow_setAttr (row : TypeAttribute) (psrc : Source) (isok : Bool) (n : NumberC) :
    HasRow row (n.setAttr (some row) psrc isok).1 := by
  rw [setAttr_some]
  exact ⟨rfl, rfl, rfl, rfl, rfl⟩

/-- A type from the table comes with the attributes of its row. -/
theorem hasRow_setType {gtype : ℤ} {row : TypeAttribute} (h : getTypePtr gtype = some row)
    (n : NumberC) : HasRow row (n.setType gtype).1 := by
  rw [setType, setTypeFrom, h]
  exact hasRow_setAttr row _ _ n

/-- The number is of type `t`, and no byte beyond its value is set. -/
structure OfType (t : UaType) (n : NumberC) : Prop where
  typeUa : n.typeUa = code t
  typeIndex : n.typeIndex = .ua t
  typeBytes : n.typeBytes = 2 * t.words
  typeIsInt : n.typeIsInt = decide (code t < code .float)
  clean : n.value.typed t.words = n.value

theorem caseOf_code (t : UaType) : caseOf (code t) = some t := by
  cases t <;> rfl

theorem code_injective : Function.Injective code := by
  intro s t h
  have := (caseOf_code s).symm.trans ((congrArg caseOf h).trans (caseOf_code t))
  exact Option.some.inj this

theorem code_ne_zero (t : UaType) : code t ≠ 0 := by
  cases t <;> decide

theorem code_lt_float (t : IntType) : code t.uaType < code .float := by
  cases t <;> decide

theorem row_spec {row : TypeAttribute} (h : row ∈ typeAttr) :
    ∃ t : UaType, row.uaType = code t ∧ row.typeIdx = .ua t ∧ row.sizeBytes = 2 * t.words := by
  simp only [typeAttr, List.mem_cons, List.not_mem_nil, or_false] at h
  rcases h with rfl | rfl | rfl | rfl | rfl | rfl | rfl | rfl | rfl | rfl <;>
    exact ⟨_, rfl, rfl, rfl⟩

theorem HasRow.ofType {row : TypeAttribute} (hrow : row ∈ typeAttr) {n : NumberC}
    (h : n.HasRow row) (hclean : n.value.typed (n.typeBytes / 2) = n.value) :
    ∃ t, n.OfType t ∧ n.typeBytes / 2 = t.words := by
  obtain ⟨t, hua, hidx, hbytes⟩ := row_spec hrow
  have hwords : n.typeBytes / 2 = t.words := by
    rw [h.typeBytes, hbytes, Nat.mul_div_cancel_left _ (by norm_num)]
  refine ⟨t, ⟨h.typeUa.trans hua, h.typeIndex.trans hidx, h.typeBytes.trans hbytes, ?_, ?_⟩, hwords⟩
  · rw [h.typeIsInt, hua]
  · rw [← hwords, hclean]

theorem proper_setAttr {ta : Option TypeAttribute} (h : ∀ row ∈ ta, row ∈ typeAttr)
    (psrc : Source) (isok : Bool) (n : NumberC) : (n.setAttr ta psrc isok).1.Proper := by
  cases ta with
  | none => exact Or.inl (setAttr_none psrc isok n).2
  | some row =>
      refine Or.inr ⟨row, h row rfl, hasRow_setAttr row psrc isok n, ?_⟩
      rw [setAttr_some]
      exact typed_taken _ psrc

theorem proper_setTypeFrom (gtype : ℤ) (psrc : Source) (isok : Bool) (n : NumberC) :
    (n.setTypeFrom gtype psrc isok).1.Proper :=
  proper_setAttr (fun _ h => getTypePtr_mem h) psrc isok n

theorem proper_setTi (ti : TypeIndex) (psrc : Source) (isok : Bool) (n : NumberC) :
    (n.setTi ti psrc isok).1.Proper :=
  proper_setAttr (fun _ h => getTypePtrIdx_mem h) psrc isok n

theorem proper_copyFrom (V : NumberC) (psrc : Source) (n : NumberC) :
    (copyFrom V psrc n).1.Proper := by
  have h := proper_setTypeFrom V.typeUa psrc V.isgood n
  unfold copyFrom
  dsimp only
  split_ifs
  · refine h.imp id ?_
    rintro ⟨row, hrow, hn, hclean⟩
    exact ⟨row, hrow, ⟨hn.typeUa, hn.typeIndex, hn.typeBytes, hn.typeFmt, hn.typeIsInt⟩, hclean⟩
  · exact h

/-- Assigning to a number with a type changes the bytes of its value and nothing else. -/
theorem setValue_frame {t : UaType} {n : NumberC} (h : n.OfType t) (L : LongDouble) (f : Extended) :
    ∃ v : NumericU, v.typed t.words = v ∧ (n.setValue L f).1 = { n with value := v } := by
  have hclean := h.clean
  unfold setValue
  rw [h.typeUa, caseOf_code]
  cases t with
  | float =>
      refine ⟨_, ?_, rfl⟩
      have h2 := congrArg NumericU.w2 hclean
      have h3 := congrArg NumericU.w3 hclean
      ext1 <;> simp [NumericU.typed, NumericU.setUi32, UaType.words, ← h2, ← h3]
  | double => exact ⟨_, NumericU.typed_four _, rfl⟩
  | _ => exact ⟨_, typed_overlay_self hclean _, rfl⟩

theorem proper_assign {n : NumberC} (h : n.Proper) (L : LongDouble) (x : Scalar) :
    (n.assign L x).Proper := by
  unfold assign
  split_ifs with hnone
  · exact proper_setTi _ _ _ n
  · obtain ⟨row, hrow, hn, hclean⟩ := h.resolve_left fun hzero => hnone (Or.inr hzero)
    obtain ⟨t, ht, hwords⟩ := hn.ofType hrow hclean
    obtain ⟨v, hv, heq⟩ := setValue_frame ht L (x.float128 L)
    rw [heq]
    refine Or.inr ⟨row, hrow, ⟨hn.typeUa, hn.typeIndex, hn.typeBytes, hn.typeFmt, hn.typeIsInt⟩, ?_⟩
    rw [hwords, hv]

/-- The numbers a program can have: constructed, copied, assigned and given types. -/
inductive Reachable (L : LongDouble) : NumberC → Prop
  | new : Reachable L new
  | ofScalar (x : Scalar) : Reachable L (ofScalar x)
  | copy {V : NumberC} : Reachable L V → Reachable L (copy V)
  | assign {n : NumberC} (x : Scalar) : Reachable L n → Reachable L (n.assign L x)
  | set {V n : NumberC} : Reachable L V → Reachable L n → Reachable L (set V n).1
  | setSelf {n : NumberC} : Reachable L n → Reachable L n.setSelf.1
  | setType {n : NumberC} (gtype : ℤ) : Reachable L n → Reachable L (n.setType gtype).1

theorem Reachable.proper {L : LongDouble} {n : NumberC} (h : Reachable L n) : n.Proper := by
  induction h with
  | new => exact proper_setTypeFrom _ _ _ _
  | ofScalar x => exact proper_setTi _ _ _ _
  | copy _ _ => exact proper_copyFrom _ _ _
  | assign x _ ih => exact proper_assign ih L x
  | set _ _ _ _ => exact proper_copyFrom _ _ _
  | setSelf _ _ => exact proper_copyFrom _ _ _
  | setType gtype _ _ => exact proper_setTypeFrom _ _ _ _

theorem Reachable.ofType {L : LongDouble} {n : NumberC} (h : Reachable L n) {t : UaType}
    (ht : n.typeUa = code t) : n.OfType t := by
  rcases h.proper with hzero | ⟨row, hrow, hn, hclean⟩
  · exact absurd (ht.symm.trans hzero) (code_ne_zero t)
  · obtain ⟨s, hs, -⟩ := hn.ofType hrow hclean
    obtain rfl : s = t := code_injective (hs.typeUa.symm.trans ht)
    exact hs

theorem OfType.isInt {t : IntType} {n : NumberC} (h : n.OfType t.uaType) : n.typeIsInt = true := by
  rw [h.typeIsInt, decide_eq_true_iff]
  exact code_lt_float t

theorem OfType.fl128 {t : IntType} {n : NumberC} (h : n.OfType t.uaType) (L : LongDouble) :
    n.fl128 L = .fin (t.decode n.value) := by
  rw [← L.ofInt_represents (represents_decode t n.value), NumberC.fl128, h.typeUa, caseOf_code]
  cases t <;> rfl

theorem near_iff (L : LongDouble) (i j : ℤ) : near L (.fin i) (.fin j) = true ↔ i = j :=
  Rounding.le_abs_sub_iff (by norm_num) (by norm_num) (by norm_num [dblEpsilon])
    (by norm_num [dblEpsilon])

theorem apart_iff (L : LongDouble) (i j : ℤ) : apart L (.fin i) (.fin j) = true ↔ i ≠ j :=
  Rounding.lt_abs_sub_iff (by norm_num) (by norm_num) (by norm_num [dblEpsilon])
    (by norm_num [dblEpsilon])

/-- Four answers are those of the comparison of two integers, and exactly one of the
first three is yes. -/
structure Compares (lt eq gt ne : Bool) (i j : ℤ) : Prop where
  lt_iff : lt = true ↔ i < j
  eq_iff : eq = true ↔ i = j
  gt_iff : gt = true ↔ j < i
  ne_iff : ne = true ↔ i ≠ j
  one : [lt, eq, gt].count true = 1

theorem compares_of_iff {lt eq gt ne : Bool} {i j : ℤ} (hlt : lt = true ↔ i < j)
    (heq : eq = true ↔ i = j) (hgt : gt = true ↔ j < i) (hne : ne = true ↔ i ≠ j) :
    Compares lt eq gt ne i j := by
  refine ⟨hlt, heq, hgt, hne, ?_⟩
  rw [Bool.eq_iff_iff.mpr (hlt.trans decide_eq_true_iff.symm),
    Bool.eq_iff_iff.mpr (heq.trans decide_eq_true_iff.symm),
    Bool.eq_iff_iff.mpr (hgt.trans decide_eq_true_iff.symm)]
  rcases lt_trichotomy i j with h | h | h
  · simp [h, h.ne, h.not_gt]
  · simp [h]
  · simp [h, h.ne', h.not_gt]

section
variable {L : LongDouble} {a b : NumberC} {ta tb : IntType}

theorem compares_numbers (ha : a.OfType ta.uaType) (hb : b.OfType tb.uaType) :
    Compares (a.lt L b) (a.eq L b) (a.gt L b) (a.ne L b) (ta.decode a.value)
      (tb.decode b.value) := by
  have hsame : a.typeUa = b.typeUa ∧ a.typeIsInt = true ↔ ta.uaType = tb.uaType := by
    rw [ha.typeUa, hb.typeUa, code_injective.eq_iff, and_iff_left ha.isInt]
  have hvalue : ta.uaType = tb.uaType →
      (a.value = b.value ↔ ta.decode a.value = tb.decode b.value) := by
    intro h
    obtain rfl : ta = tb := by cases ta <;> cases tb <;> first | rfl | cases h
    have hca : a.value.typed ta.words = a.value := ha.clean
    have hcb : b.value.typed ta.words = b.value := hb.clean
    rw [decode_eq_decode_iff, hca, hcb]
  refine compares_of_iff ?_ ?_ ?_ ?_
  · rw [lt, ha.fl128, hb.fl128, Extended.lt_fin, decide_eq_true_iff]
    exact Int.cast_lt
  · unfold eq
    split_ifs with h
    · rw [beq_iff_eq, NumericU.ui64_injective.eq_iff]
      exact hvalue (hsame.mp h)
    · rw [ha.fl128, hb.fl128, near_iff]
  · rw [gt, ha.fl128, hb.fl128, Extended.lt_fin, decide_eq_true_iff]
    exact Int.cast_lt
  · unfold ne
    split_ifs with h
    · rw [bne_iff_ne, Ne, NumericU.ui64_injective.eq_iff]
      exact (hvalue (hsame.mp h)).not
    · rw [ha.fl128, hb.fl128, apart_iff]

theorem compares_integer (ha : a.OfType ta.uaType) {t : IntType} {x : ℤ} (hx : t.Represents x) :
    Compares (a.ltInt L t x) (a.eqInt L t x) (a.gtInt L t x) (a.neInt L t x)
      (ta.decode a.value) x := by
  have hsame : a.typeIndex = .ua t.uaType → t = ta := by
    intro h
    rw [ha.typeIndex, TypeIndex.ua.injEq] at h
    cases ta <;> cases t <;> first | rfl | cases h
  refine compares_of_iff ?_ ?_ ?_ ?_
  · unfold ltInt
    split_ifs with h
    · rw [decide_eq_true_iff, hsame h]
    · rw [ha.fl128, L.ofInt_represents hx, Extended.lt_fin, decide_eq_true_iff]
      exact Int.cast_lt
  · unfold eqInt
    split_ifs with h
    · rw [decide_eq_true_iff, hsame h.1]
    · rw [ha.fl128, L.ofInt_represents hx, near_iff]
  · unfold gtInt
    split_ifs with h
    · rw [decide_eq_true_iff, hsame h]
    · rw [ha.fl128, L.ofInt_represents hx, Extended.lt_fin, decide_eq_true_iff]
      exact Int.cast_lt
  · unfold neInt
    split_ifs with h
    · rw [decide_eq_true_iff, hsame h.1]
    · rw [ha.fl128, L.ofInt_represents hx, apart_iff]

end

/-- Numbers of integer types compare as the integers they hold, with each other and
with integers of C++. -/
theorem comparison_exact (L : LongDouble) {a b : NumberC} {ta tb : IntType}
    (ha : Reachable L a) (hb : Reachable L b) (hta : a.typeUa = code ta.uaType)
    (htb : b.typeUa = code tb.uaType) :
    Compares (a.lt L b) (a.eq L b) (a.gt L b) (a.ne L b) (ta.decode a.value) (tb.decode b.value) ∧
      ∀ (t : IntType) (x : ℤ), t.Represents x →
        Compares (a.ltInt L t x) (a.eqInt L t x) (a.gtInt L t x) (a.neInt L t x)
          (ta.decode a.value) x :=
  ⟨compares_numbers (ha.ofType hta) (hb.ofType htb),
    fun _ _ hx => compares_integer (ha.ofType hta) hx⟩

/-- Exact arithmetic, with the values of floats left out. -/
def exactDouble : LongDouble where
  round := id
  mono := monotone_id
  exact := fun _ _ _ => rfl
  ofFloat := fun _ => .nan
  ofDouble := fun _ => .nan
  toFloat := fun _ => 0
  toDouble := fun _ => 0
  undefined := fun _ _ => 0

def leastI64 : NumberC := ofScalar (.int .int64 (-2 ^ 63) (by decide))

def greatestU64 : NumberC := ofScalar (.int .uint64 (2 ^ 64 - 1) (by decide))

theorem leastI64_lt_greatestU64 : leastI64.lt exactDouble greatestU64 = true :=
  (@comparison_exact exactDouble leastI64 greatestU64 .int64 .uint64 (.ofScalar _) (.ofScalar _)
    rfl rfl).1.lt_iff.mpr (by decide)

/-- Converting to any integer type that has `x` gives `x`. -/
def Yields (L : LongDouble) (n : NumberC) (x : ℤ) : Prop :=
  ∀ U : IntType, U.Represents x → n.convert L U = x

theorem yields_decode {n : NumberC} {t : IntType} (h : n.OfType t.uaType) (L : LongDouble) :
    Yields L n (t.decode n.value) := by
  intro u hu
  unfold convert
  split_ifs with hsame
  · rw [h.typeIndex, TypeIndex.ua.injEq] at hsame
    obtain rfl : t = u := by cases t <;> cases u <;> first | rfl | cases hsame
    rfl
  · rw [h.fl128, L.toInt_fin hu]

theorem setValue_integer {n : NumberC} {t : IntType} (h : caseOf n.typeUa = some t.uaType)
    (L : LongDouble) (f : Extended) :
    (n.setValue L f).1 = { n with value := t.inMemory (L.toInt t f) n.value } := by
  unfold setValue
  rw [h]
  cases t <;> rfl

theorem exists_row (t : IntType) : ∃ row, getTypePtrIdx (.ua t.uaType) = some row ∧
    row.typeIdx = .ua t.uaType := by
  cases t <;> exact ⟨_, rfl, rfl⟩

/-- An integer found under its C++ type gives the number that type. -/
theorem setTi_integer {t : IntType} {x : ℤ} (hx : t.Represents x) (n : NumberC) :
    OfType t.uaType (n.setTi (.ua t.uaType) (.bytes (t.inMemory x {})) true).1 ∧
      t.decode (n.setTi (.ua t.uaType) (.bytes (t.inMemory x {})) true).1.value = x := by
  obtain ⟨row, hrow, hidx⟩ := exists_row t
  obtain ⟨s, hua, hidx', hbytes⟩ := row_spec (getTypePtrIdx_mem hrow)
  obtain rfl : s = t.uaType := TypeIndex.ua.inj (hidx'.symm.trans hidx)
  have hwords : row.sizeBytes / 2 = t.words := by
    rw [hbytes, Nat.mul_div_cancel_left _ (by norm_num)]
    rfl
  rw [setTi, hrow, setAttr_some, hwords, taken_bytes]
  refine ⟨⟨hua, hidx, hbytes, by rw [hua], NumericU.typed_typed _ _⟩, ?_⟩
  rw [decode_eq_iff hx, NumericU.typed_typed, ← decode_eq_iff hx, decode_inMemory hx]

/-- What assigning the integer `x` of type `T` makes of `n`: with an integer type that
has `x`, a number of the same type that holds `x`; without a type, one of type `T`. -/
structure AssignsInteger (L : LongDouble) (T : IntType) (x : ℤ) (n m : NumberC) : Prop where
  keeps : ∀ D : IntType, n.typeUa = code D.uaType → D.Represents x →
    { m with value := n.value } = n ∧ Yields L m x
  adopts : (∀ row ∈ typeAttr, n.typeUa ≠ row.uaType) →
    m.OfType T.uaType ∧ T.decode m.value = x ∧ Yields L m x

theorem assign_typed {L : LongDouble} {n : NumberC} {D : IntType} (h : n.OfType D.uaType)
    {x : Scalar} : n.assign L x =
      { n with value := D.inMemory (L.toInt D (x.float128 L)) n.value } := by
  have htype : ¬ (n.typeBytes = 0 ∨ n.typeUa = 0) := by
    have hpos : 0 < D.uaType.words := D.words_pos
    have hcode := code_ne_zero D.uaType
    rw [h.typeBytes, h.typeUa]
    omega
  rw [assign, if_neg htype]
  exact setValue_integer (by rw [h.typeUa, caseOf_code]) L _

theorem Proper.untyped {n : NumberC} (h : n.Proper)
    (hnone : ∀ row ∈ typeAttr, n.typeUa ≠ row.uaType) : n.typeUa = 0 := by
  refine h.resolve_right ?_
  rintro ⟨row, hrow, hn, -⟩
  exact hnone row hrow hn.typeUa

/-- A number of an integer type that has the assigned integer keeps its type; one
without a type takes that of the integer. Either yields the integer afterwards. -/
theorem assign_integer (L : LongDouble) {n : NumberC} (hn : Reachable L n) {T : IntType} {x : ℤ}
    (hx : T.Represents x) : AssignsInteger L T x n (n.assign L (.int T x hx)) := by
  constructor
  · intro D hD hDx
    have ht := hn.ofType hD
    have hcast : L.toInt D (Scalar.float128 L (.int T x hx)) = x := by
      rw [Scalar.float128, L.ofInt_represents hx, L.toInt_fin hDx]
    rw [assign_typed ht, hcast]
    refine ⟨rfl, ?_⟩
    have ht' : OfType D.uaType { n with value := D.inMemory x n.value } :=
      ⟨ht.typeUa, ht.typeIndex, ht.typeBytes, ht.typeIsInt, typed_overlay_self ht.clean _⟩
    have hyields := yields_decode ht' L
    rwa [decode_inMemory hDx] at hyields
  · intro hnone
    obtain ⟨ht, hheld⟩ := setTi_integer hx n
    have hassign : n.assign L (.int T x hx) =
        (n.setTi (.ua T.uaType) (.bytes (T.inMemory x {})) true).1 := by
      rw [assign, if_pos (Or.inr (hn.proper.untyped hnone))]
      rfl
    rw [hassign]
    have hyields := yields_decode ht L
    rw [hheld] at hyields
    exact ⟨ht, hheld, hyields⟩

/-- Seven, assigned to a 16-bit number as an `int32_t` and read as an `int64_t`. -/
theorem assign_integer_seven :
    (new.assign exactDouble (.int .int32 7 (by decide))).convert exactDouble .int64 = 7 :=
  ((assign_integer exactDouble .new (by decide)).keeps .uint16 rfl (by decide)).2 .int64 (by decide)

end NumberC

end RwModbus.Number
