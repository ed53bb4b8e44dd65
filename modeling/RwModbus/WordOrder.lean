import RwModbus.Reg

/-!
# Writing a number and reading it back

`set_plc_value` sends union word `i` to source `i`; `get_plc_value` takes the
sources last word first and then reorders by the byte order. The two are inverse
for the little-endian swapped order only. For each other order the numbers that
survive are described by their words.
-/
namespace RwModbus.WordOrder
open Numeric Registers Reg

variable {plcs : PlcVec} {rm : RegC}

/-- Every source word exists, is writable and has no errors. -/
def SourcesReady (plcs : PlcVec) (d : RegDef) : Prop :=
  ∀ i < d.prop.rsize, ∃ p, d.source i = some p ∧
    (plcs.data p).rmode = 1 ∧ (plcs.data p).rerrors = 0

theorem SourcesReady.getPlcErrors {d : RegDef} (h : SourcesReady plcs d) :
    d.getPlcErrors plcs = 0 := by
  refine RegDef.getPlcErrors_eq_zero.mpr fun i hi p hp => ?_
  obtain ⟨q, hq, -, herr⟩ := h i hi
  rw [hq, Option.some.injEq] at hp
  exact hp ▸ herr

theorem SourcesReady.word {d : RegDef} (h : SourcesReady plcs d) (v : NumericU) {i : ℕ}
    (hi : i < d.prop.rsize) : d.word (d.setPlcValue v plcs) i = v.mb64u i := by
  obtain ⟨p, hp, hmode, herr⟩ := h i hi
  simp [RegDef.word, hp, RegDef.setPlcValue_data hi hp, herr, setReg_rvalue hmode]

/-- The numbers of `n` words that the decoder of a byte order returns unchanged. -/
def Survives (bo : ByteOrder) (n : ℕ) (v : NumericU) : Prop :=
  match bo with
  | .ls => True
  | .be => ∀ i < n, v.mb64u (n - 1 - i) = v.mb64u i
  | .le => ∀ i < n, bswap16 (v.mb64u i) = v.mb64u i
  | .bs => ∀ i < n, bswap16 (v.mb64u (n - 1 - i)) = v.mb64u i
  | _ => False

instance (bo : ByteOrder) (n : ℕ) (v : NumericU) : Decidable (Survives bo n v) :=
  match bo with
  | .ls => inferInstanceAs (Decidable True)
  | .be => inferInstanceAs (Decidable (∀ i < n, v.mb64u (n - 1 - i) = v.mb64u i))
  | .le => inferInstanceAs (Decidable (∀ i < n, bswap16 (v.mb64u i) = v.mb64u i))
  | .bs => inferInstanceAs (Decidable (∀ i < n, bswap16 (v.mb64u (n - 1 - i)) = v.mb64u i))
  | .sngl | .f10 | .f100 | .hex | .binary | .second | .third | .fourth | .ref | .nothing =>
      inferInstanceAs (Decidable False)

theorem forall_lt_two {P : ℕ → Prop} : (∀ i < 2, P i) ↔ P 0 ∧ P 1 := by
  simp only [Nat.forall_lt_succ_right, Nat.not_lt_zero, false_implies, implies_true, true_and]

theorem forall_lt_four {P : ℕ → Prop} : (∀ i < 4, P i) ↔ ((P 0 ∧ P 1) ∧ P 2) ∧ P 3 := by
  simp only [Nat.forall_lt_succ_right, Nat.not_lt_zero, false_implies, implies_true, true_and]

theorem typed_two_iff {a b : NumericU} : a.typed 2 = b.typed 2 ↔ a.w0 = b.w0 ∧ a.w1 = b.w1 := by
  simp [NumericU.typed]

theorem typed_four_iff {a b : NumericU} : a.typed 4 = b.typed 4 ↔
    ((a.w0 = b.w0 ∧ a.w1 = b.w1) ∧ a.w2 = b.w2) ∧ a.w3 = b.w3 := by
  rw [NumericU.typed_four, NumericU.typed_four, NumericU.ext_iff, and_assoc, and_assoc]

theorem meaning_typed_iff {p : RegProp} (hp : p.Row) (hsize : p.rsize = 2 ∨ p.rsize = 4)
    (v : NumericU) :
    (RegC.meaning p v.mb64u).typed p.rsize = v.typed p.rsize ↔ Survives p.rbyteorder p.rsize v := by
  have hbo := hp.multiword.2.2 hsize
  rcases hsize with hs | hs
  · rw [RegC.meaning_two hs, hs, typed_two_iff]
    rcases hbo with hb | hb | hb | hb <;> simp only [hb, Survives, forall_lt_two]
    · exact Iff.rfl
    · exact Iff.rfl
    · exact Iff.rfl
    · simp [RegC.reorder32, NumericU.be32toh, NumericU.mb64u]
  · rw [RegC.meaning_four hs, hs, typed_four_iff]
    rcases hbo with hb | hb | hb | hb <;> simp only [hb, Survives, forall_lt_four]
    · exact Iff.rfl
    · exact Iff.rfl
    · exact Iff.rfl
    · simp [RegC.reorder64, NumericU.be64toh, NumericU.mb64u]

theorem SourcesReady.kind {d : RegDef} (h : SourcesReady plcs d) (hsize : d.prop.rsize ≠ 0) :
    d.kind ≠ .scada := by
  intro hk
  obtain ⟨p, hp, -⟩ := h 0 (Nat.pos_of_ne_zero hsize)
  simp [RegDef.source, hk] at hp

/-- A two- or four-word register whose sources are ready reads back the number
written to it exactly if its byte order lets the number survive. -/
theorem getPlcValue_setPlcValue_iff (hsize : rm.prop.rsize = 2 ∨ rm.prop.rsize = 4)
    (h : SourcesReady plcs rm.toRegDef) (v : NumericU) :
    (rm.getPlcValue (rm.setPlcValue v plcs)).2.typed rm.prop.rsize = v.typed rm.prop.rsize ↔
      Survives rm.prop.rbyteorder rm.prop.rsize v := by
  have herr : rm.getPlcErrors (rm.setPlcValue v plcs) = 0 := by
    rw [RegDef.getPlcErrors_congr (RegDef.setPlcValue_writes v rm.toRegDef plcs).errors]
    exact h.getPlcErrors
  have hmeaning : RegC.meaning rm.prop (rm.word (rm.setPlcValue v plcs)) =
      RegC.meaning rm.prop v.mb64u :=
    RegC.meaning_congr rm.row fun i hi => h.word v hi
  have hfresh : ∀ a b : NumericU, (a.overlay (RegC.freshWords rm.prop) b).typed rm.prop.rsize =
      a.typed rm.prop.rsize := by
    intro a b
    rcases hsize with hs | hs <;> simp [RegC.freshWords, hs]
  rw [RegC.getPlcValue_snd (h.kind (by omega)), if_pos herr, hmeaning, hfresh]
  exact meaning_typed_iff rm.row hsize v

def pairReg (a : ℤ) : Mbreg where
  raddr := a
  strMode := ['r', 'w']
  data := { rmode := 1 }
  rNext := if a = 0 then some 1 else none

def pairPlc : ModbusPLC where
  strDevName := ['P']
  tcpPort := 502
  regMax := 1
  bounds := by decide
  regs := ⟨[0, 1], by decide, pairReg⟩
  placed := fun _ => rfl

theorem pairPlc_linked : Linked fun _ => pairPlc := by
  intro i a b h
  simp only [pairPlc, pairReg] at h
  split_ifs at h with ha
  simp_all

def pairEntry : RegC where
  toRegDef := .ofSource pairPlc_linked (some ⟨0, 0⟩) ⟨.uint32, 2, .be⟩ (by decide) 1
    ['/', 'n'] (by decide)

theorem pairEntry_ready : SourcesReady (fun _ => pairPlc) pairEntry.toRegDef := by
  intro i hi
  have hi : i < 2 := hi
  match i with
  | 0 => exact ⟨⟨0, 0⟩, by decide, by decide, by decide⟩
  | 1 => exact ⟨⟨0, 1⟩, by decide, by decide, by decide⟩

theorem getPlcValue_setPlcValue_pair :
    (pairEntry.getPlcValue (pairEntry.setPlcValue ⟨7, 7, 0, 0⟩ fun _ => pairPlc)).2.typed 2 =
      ⟨7, 7, 0, 0⟩ :=
  (getPlcValue_setPlcValue_iff (Or.inl rfl) pairEntry_ready ⟨7, 7, 0, 0⟩).mpr (by decide)

/-- Words 1 and 2 come back as 2 and 1 in big-endian order. -/
theorem getPlcValue_setPlcValue_ne :
    ¬ ∀ (plcs : PlcVec) (rm : RegC), rm.kind = .ref → (rm.prop.rsize = 2 ∨ rm.prop.rsize = 4) →
      SourcesReady plcs rm.toRegDef → ∀ v : NumericU,
        (rm.getPlcValue (rm.setPlcValue v plcs)).2.typed rm.prop.rsize =
          v.typed rm.prop.rsize := by
  intro h
  have hpair := h (fun _ => pairPlc) pairEntry rfl (Or.inl rfl) pairEntry_ready ⟨2, 1, 0, 0⟩
  revert hpair
  decide

end RwModbus.WordOrder
