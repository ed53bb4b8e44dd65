import RwModbus.Library.WireBytes
import RwModbus.WordOrder

/-!
# Decoding by the documented byte orders

`byteorder_t` names its orders by where the bytes of the wire go in a big-endian
number: ABCD, BADC, DCBA or CDAB. `get_plc_value` gathers the words last source first
and then reverses and swaps; each composition is the order it is named for.
-/
namespace RwModbus.ByteOrders
open Numeric Registers Reg WireBytes

/-- The bytes of the words, laid out by the order: as they come (ABCD), each word
swapped (BADC), all reversed (DCBA), or the words reversed (CDAB). -/
def laidOut (bo : ByteOrder) (ws : List Word) : List Byte :=
  match bo with
  | .bs => swapPairs (wire ws)
  | .le => (wire ws).reverse
  | .ls => wire ws.reverse
  | _ => wire ws

example : [.be, .bs, .le, .ls].map (laidOut · [0xa1b2, 0xc3d4]) =
    [[0xa1, 0xb2, 0xc3, 0xd4], [0xb2, 0xa1, 0xd4, 0xc3], [0xd4, 0xc3, 0xb2, 0xa1],
      [0xc3, 0xd4, 0xa1, 0xb2]] := by decide

/-- The words, highest first, of the number that the order makes of them. -/
def ordered (bo : ByteOrder) (ws : List Word) : List Word :=
  match bo with
  | .bs => ws.map bswap16
  | .le => ws.reverse.map bswap16
  | .ls => ws.reverse
  | _ => ws

theorem laidOut_eq (bo : ByteOrder) (ws : List Word) : laidOut bo ws = wire (ordered bo ws) := by
  cases bo with
  | bs => exact swapPairs_wire ws
  | le => exact reverse_wire ws
  | _ => rfl

theorem ui32_toNat (v : NumericU) : v.ui32.toNat = bigEndian (wire [v.w1, v.w0]) := by
  rw [bigEndian_wire, NumericU.ui32, toNat_append]
  simp

theorem ui64_toNat (v : NumericU) : v.ui64.toNat = bigEndian (wire [v.w3, v.w2, v.w1, v.w0]) := by
  rw [bigEndian_wire, NumericU.ui64, toNat_append, toNat_append, toNat_append]
  simp

theorem reorder32_words {bo : ByteOrder} (h : bo = .be ∨ bo = .bs ∨ bo = .le ∨ bo = .ls)
    (a b : Word) : [(RegC.reorder32 bo ⟨b, a, 0, 0⟩).w1, (RegC.reorder32 bo ⟨b, a, 0, 0⟩).w0] =
      ordered bo [a, b] := by
  rcases h with rfl | rfl | rfl | rfl <;> simp [RegC.reorder32, NumericU.be32toh, ordered]

theorem reorder64_words {bo : ByteOrder} (h : bo = .be ∨ bo = .bs ∨ bo = .le ∨ bo = .ls)
    (a b c d : Word) :
    [(RegC.reorder64 bo ⟨d, c, b, a⟩).w3, (RegC.reorder64 bo ⟨d, c, b, a⟩).w2,
      (RegC.reorder64 bo ⟨d, c, b, a⟩).w1, (RegC.reorder64 bo ⟨d, c, b, a⟩).w0] =
      ordered bo [a, b, c, d] := by
  rcases h with rfl | rfl | rfl | rfl <;> simp [RegC.reorder64, NumericU.be64toh, ordered]

variable {plcs : PlcVec} {rm : RegC} {p : ℕ → RegPtr}

/-- The words of the sources, first source first. -/
def sourceWords (plcs : PlcVec) (p : ℕ → RegPtr) (n : ℕ) : List Word :=
  (List.range n).map fun i => (plcs.data (p i)).rvalue

theorem word_eq (hp : ∀ i < rm.prop.rsize, rm.source i = some (p i))
    (herr : ∀ i < rm.prop.rsize, (plcs.data (p i)).rerrors = 0) {i : ℕ} (hi : i < rm.prop.rsize) :
    rm.word plcs i = (plcs.data (p i)).rvalue := by
  simp [RegDef.word, hp i hi, herr i hi]

theorem getPlcErrors_eq_zero_iff (hp : ∀ i < rm.prop.rsize, rm.source i = some (p i)) :
    rm.getPlcErrors plcs = 0 ↔ ∀ i < rm.prop.rsize, (plcs.data (p i)).rerrors = 0 := by
  rw [RegDef.getPlcErrors_eq_zero]
  constructor
  · exact fun h i hi => h i hi (p i) (hp i hi)
  · intro h i hi q hq
    rw [hp i hi, Option.some.injEq] at hq
    exact hq ▸ h i hi

/-- The 32- or 64-bit pattern of a number of this many words. -/
def pattern (n : ℕ) (v : NumericU) : ℕ := if n = 2 then v.ui32.toNat else v.ui64.toNat

theorem pattern_overlay {n : ℕ} (hn : n = 2 ∨ n = 4) (v beyond : NumericU) :
    pattern n (v.overlay n beyond) = pattern n v := by
  rcases hn with rfl | rfl
  · simp [pattern, NumericU.overlay, NumericU.ui32]
  · rw [NumericU.overlay_four]

theorem pattern_meaning (hsize : rm.prop.rsize = 2 ∨ rm.prop.rsize = 4) (w : ℕ → Word) :
    pattern rm.prop.rsize (RegC.meaning rm.prop w) =
      bigEndian (laidOut rm.prop.rbyteorder ((List.range rm.prop.rsize).map w)) := by
  have hbo := rm.row.multiword.2.2 hsize
  rw [laidOut_eq]
  rcases hsize with hs | hs
  · rw [RegC.meaning_two hs, hs, pattern, if_pos rfl, ui32_toNat, reorder32_words hbo]
    rfl
  · rw [RegC.meaning_four hs, hs, pattern, if_neg (by decide), ui64_toNat, reorder64_words hbo]
    rfl

/-- Whatever the union held before, error-free words are decoded by their byte order, and
an error in any of them makes the number bad. -/
theorem getPlcValue_decodes (hsize : rm.prop.rsize = 2 ∨ rm.prop.rsize = 4)
    (hp : ∀ i < rm.prop.rsize, rm.source i = some (p i)) :
    ((∀ i < rm.prop.rsize, (plcs.data (p i)).rerrors = 0) →
      pattern rm.prop.rsize (rm.getPlcValue plcs).2 =
        bigEndian (laidOut rm.prop.rbyteorder (sourceWords plcs p rm.prop.rsize))) ∧
    ((∃ i < rm.prop.rsize, (plcs.data (p i)).rerrors ≠ 0) →
      pattern rm.prop.rsize (rm.getPlcValue plcs).2 =
        pattern rm.prop.rsize (RegC.badNumber rm.prop.rtype)) := by
  have hkind : rm.kind ≠ .scada := by
    intro hk
    have := hp 0 (by omega)
    simp [RegDef.source, hk] at this
  have hfresh : RegC.freshWords rm.prop = rm.prop.rsize := by
    rcases hsize with hs | hs <;> simp [RegC.freshWords, hs]
  rw [RegC.getPlcValue_snd hkind, hfresh, pattern_overlay hsize]
  constructor
  · intro herr
    rw [if_pos ((getPlcErrors_eq_zero_iff hp).mpr herr), pattern_meaning hsize]
    congr 2
    exact List.map_congr_left fun i hi => word_eq hp herr (List.mem_range.mp hi)
  · rintro ⟨i, hi, herr⟩
    rw [if_neg fun h => herr ((getPlcErrors_eq_zero_iff hp).mp h i hi)]

theorem getPlcValue_decodes_pair :
    ((∀ i < (2 : ℕ), (PlcVec.data (fun _ => WordOrder.pairPlc) ⟨0, i⟩).rerrors = 0) →
      pattern 2 (WordOrder.pairEntry.getPlcValue fun _ => WordOrder.pairPlc).2 =
        bigEndian (laidOut .be (sourceWords (fun _ => WordOrder.pairPlc) (fun i => ⟨0, i⟩) 2))) ∧
    ((∃ i < (2 : ℕ), (PlcVec.data (fun _ => WordOrder.pairPlc) ⟨0, i⟩).rerrors ≠ 0) →
      pattern 2 (WordOrder.pairEntry.getPlcValue fun _ => WordOrder.pairPlc).2 =
        pattern 2 (RegC.badNumber .uint32)) := by
  refine @getPlcValue_decodes (fun _ => WordOrder.pairPlc) WordOrder.pairEntry (fun i => ⟨0, i⟩)
    (Or.inl rfl) fun i hi => ?_
  have hi : i < 2 := hi
  match i with
  | 0 => decide
  | 1 => decide

end RwModbus.ByteOrders
