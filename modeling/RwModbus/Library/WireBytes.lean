import Mathlib

/-!
# Words as bytes on the wire

A sixteen-bit word goes over the wire high byte first. Swapping the bytes of each
word, or reversing all bytes, are operations on words again.
-/
namespace WireBytes

abbrev Byte := BitVec 8

def ofWord (w : BitVec 16) : List Byte := [w.extractLsb' 8 8, w.extractLsb' 0 8]

def wire (ws : List (BitVec 16)) : List Byte := ws.flatMap ofWord

/-- The word with its bytes swapped. -/
def swap (w : BitVec 16) : BitVec 16 := w.extractLsb' 0 8 ++ w.extractLsb' 8 8

/-- Every two neighbouring elements swapped. -/
def swapPairs {α : Type*} : List α → List α
  | a :: b :: s => b :: a :: swapPairs s
  | s => s

/-- The number whose base-256 digits these are, the highest first. -/
def bigEndian (bs : List Byte) : ℕ := bs.foldl (fun n b => n * 2 ^ 8 + b.toNat) 0

@[simp] theorem wire_nil : wire [] = [] := rfl

@[simp] theorem wire_cons (w : BitVec 16) (ws : List (BitVec 16)) :
    wire (w :: ws) = w.extractLsb' 8 8 :: w.extractLsb' 0 8 :: wire ws := rfl

theorem toNat_append {n m : ℕ} (a : BitVec n) (b : BitVec m) :
    (a ++ b).toNat = a.toNat * 2 ^ m + b.toNat := by
  rw [BitVec.toNat_append, ← Nat.shiftLeft_eq, Nat.shiftLeft_add_eq_or_of_lt b.isLt]

theorem halves_append (w : BitVec 16) : w.extractLsb' 8 8 ++ w.extractLsb' 0 8 = w := by
  apply BitVec.eq_of_getLsbD_eq
  intro i hi
  simp only [BitVec.getLsbD_append, BitVec.getLsbD_extractLsb']
  grind

theorem ofWord_swap (w : BitVec 16) :
    ofWord (swap w) = [w.extractLsb' 0 8, w.extractLsb' 8 8] := by
  have hhigh : (swap w).extractLsb' 8 8 = w.extractLsb' 0 8 := by
    apply BitVec.eq_of_getLsbD_eq
    intro i hi
    simp only [swap, BitVec.getLsbD_append, BitVec.getLsbD_extractLsb']
    grind
  have hlow : (swap w).extractLsb' 0 8 = w.extractLsb' 8 8 := by
    apply BitVec.eq_of_getLsbD_eq
    intro i hi
    simp only [swap, BitVec.getLsbD_append, BitVec.getLsbD_extractLsb']
    grind
  rw [ofWord, hhigh, hlow]

theorem swapPairs_wire (ws : List (BitVec 16)) : swapPairs (wire ws) = wire (ws.map swap) := by
  induction ws with
  | nil => rfl
  | cons w ws ih =>
      rw [wire_cons, swapPairs, ih, List.map_cons, wire, wire, List.flatMap_cons, ofWord_swap]
      rfl

theorem reverse_wire (ws : List (BitVec 16)) :
    (wire ws).reverse = wire (ws.reverse.map swap) := by
  induction ws with
  | nil => rfl
  | cons w ws ih =>
      rw [wire_cons, List.reverse_cons, List.reverse_cons, ih, List.reverse_cons, List.map_append,
        List.map_singleton, wire, wire, List.flatMap_append, List.flatMap_singleton, ofWord_swap,
        List.append_assoc]
      rfl

theorem bigEndian_wire (ws : List (BitVec 16)) :
    bigEndian (wire ws) = ws.foldl (fun n w => n * 2 ^ 16 + w.toNat) 0 := by
  unfold bigEndian
  generalize 0 = n
  induction ws generalizing n with
  | nil => rfl
  | cons w ws ih =>
      have hword := congrArg BitVec.toNat (halves_append w)
      rw [toNat_append] at hword
      have hstep : (n * 2 ^ 8 + (w.extractLsb' 8 8).toNat) * 2 ^ 8 + (w.extractLsb' 0 8).toNat =
          n * 2 ^ 16 + w.toNat := by
        linarith only [hword]
      simp only [wire_cons, List.foldl_cons]
      rw [hstep]
      exact ih _

end WireBytes
