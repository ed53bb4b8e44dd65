import RwModbus.Loader

/-!
# The block a PLC is polled for

`reg_min` and `reg_max` are zero when `init_regs` starts to widen them, so the block
that `read_allregs` asks for always contains address zero.
-/
namespace RwModbus.Master
open Registers

theorem isLeast_insert_min {α : Type*} [LinearOrder α] {a b x : α} {s : Set α}
    (h : IsLeast (insert (min b a) s) x) : IsLeast (insert b (insert a s)) x := by
  have hx : x ≤ min b a := h.2 (Set.mem_insert _ _)
  constructor
  · rcases Set.mem_insert_iff.mp h.1 with rfl | hs
    · rcases min_choice b a with hmin | hmin <;> simp [hmin]
    · exact Set.mem_insert_of_mem _ (Set.mem_insert_of_mem _ hs)
  · rintro y (rfl | rfl | hy)
    · exact hx.trans (min_le_left _ _)
    · exact hx.trans (min_le_right _ _)
    · exact h.2 (Set.mem_insert_of_mem _ hy)

theorem isGreatest_insert_max {α : Type*} [LinearOrder α] {a b x : α} {s : Set α}
    (h : IsGreatest (insert (max b a) s) x) : IsGreatest (insert b (insert a s)) x :=
  isLeast_insert_min (α := αᵒᵈ) h

theorem widen_eq (b : ℤ × ℤ) (a : ℤ) : widen b a = (min b.1 a, max b.2 a) := by
  simp only [widen, Prod.mk.injEq]
  constructor <;> split_ifs <;> omega

/-- The bounds end at the extreme ones of all addresses and the presets. -/
theorem foldl_widen_spec (as : List ℤ) (b : ℤ × ℤ) :
    IsLeast (insert b.1 {a | a ∈ as}) (as.foldl widen b).1 ∧
      IsGreatest (insert b.2 {a | a ∈ as}) (as.foldl widen b).2 := by
  induction as generalizing b with
  | nil => simp
  | cons a as ih =>
      have hset : {x | x ∈ a :: as} = insert a {x | x ∈ as} := by
        ext x
        exact List.mem_cons
      obtain ⟨hleast, hgreatest⟩ := ih (widen b a)
      rw [widen_eq] at hleast hgreatest
      rw [hset, List.foldl_cons, widen_eq]
      exact ⟨isLeast_insert_min hleast, isGreatest_insert_max hgreatest⟩

/-- The configured addresses. -/
def addresses (m : ModbusPLC) : Set ℤ := {a | a ∈ m.regs.keys}

theorem initRegs_addresses (m : ModbusPLC) : addresses (initRegs m) = addresses m := rfl

/-- A PLC object whose bounds are as declared. -/
structure Unwidened (m : ModbusPLC) : Prop where
  regMin : m.regMin = 0
  regMax : m.regMax = 0

theorem initRegs_bounds {m : ModbusPLC} (h : Unwidened m) :
    IsLeast (insert 0 (addresses m)) (initRegs m).regMin ∧
      IsGreatest (insert 0 (addresses m)) (initRegs m).regMax := by
  have hspec := foldl_widen_spec (m.regs.keys.map fun a => (m.regs.val a).raddr)
    (m.regMin, m.regMax)
  have hkeys : {x | x ∈ m.regs.keys.map fun a => (m.regs.val a).raddr} = addresses m := by
    simp only [m.placed, List.map_id']
    rfl
  rw [hkeys, h.regMin, h.regMax] at hspec
  simp only [initRegs, h.regMin, h.regMax]
  exact hspec

/-- The bounds are the first and the last configured address, and a poll asks for
the block between them. -/
structure BlockExact (m : ModbusPLC) : Prop where
  least : IsLeast (addresses m) m.regMin
  greatest : IsGreatest (addresses m) m.regMax
  request : ∀ device e first last, IsLeast (addresses m) first → IsGreatest (addresses m) last →
    (readAllregs device e m).2 = [.read first (last - first + 1) e.reply]

theorem readAllregs_calls (device : ℤ → Numeric.Word) (e : ReadAttempt) (m : ModbusPLC) :
    (readAllregs device e m).2 = [.read m.regMin (m.regMax - m.regMin + 1) e.reply] := by
  by_cases h : e.reply = m.regMax - m.regMin + 1 <;> simp [readAllregs, nbRegs, h]

theorem blockExact_of_bounds {m : ModbusPLC} (hleast : IsLeast (addresses m) m.regMin)
    (hgreatest : IsGreatest (addresses m) m.regMax) : BlockExact m := by
  refine ⟨hleast, hgreatest, fun device e first last hfirst hlast => ?_⟩
  rw [readAllregs_calls, hleast.unique hfirst, hgreatest.unique hlast]

/-- Without negative addresses the lower bound stays at zero. -/
theorem initRegs_regMin {m : ModbusPLC} (h : Unwidened m) (hpos : ∀ a ∈ addresses m, 0 ≤ a) :
    (initRegs m).regMin = 0 := by
  have hleast := (initRegs_bounds h).1
  have hle : (initRegs m).regMin ≤ 0 := hleast.2 (Set.mem_insert _ _)
  rcases Set.mem_insert_iff.mp hleast.1 with hzero | hmem
  · exact hzero
  · exact le_antisymm hle (hpos _ hmem)

theorem initRegs_regMax {m : ModbusPLC} (h : Unwidened m) (hne : (addresses m).Nonempty)
    (hpos : ∀ a ∈ addresses m, 0 ≤ a) : IsGreatest (addresses m) (initRegs m).regMax := by
  have hgreatest := (initRegs_bounds h).2
  refine ⟨?_, fun a ha => hgreatest.2 (Set.mem_insert_of_mem _ ha)⟩
  rcases Set.mem_insert_iff.mp hgreatest.1 with hzero | hmem
  · obtain ⟨a, ha⟩ := hne
    have hle := hgreatest.2 (Set.mem_insert_of_mem 0 ha)
    rw [hzero] at hle ⊢
    rwa [le_antisymm hle (hpos a ha)] at ha
  · exact hmem

/-- Among non-negative addresses the block is exact if and only if it starts at zero. -/
theorem blockExact_iff_zero {m : ModbusPLC} (h : Unwidened m) (hne : (addresses m).Nonempty)
    (hpos : ∀ a ∈ addresses m, 0 ≤ a) : BlockExact (initRegs m) ↔ 0 ∈ addresses m := by
  constructor
  · intro hexact
    have hmem := hexact.least.1
    rwa [initRegs_regMin h hpos] at hmem
  · intro hzero
    refine blockExact_of_bounds ?_ (initRegs_regMax h hne hpos)
    rw [initRegs_regMin h hpos]
    exact ⟨hzero, hpos⟩

/-- A PLC with one register, as the loader fills it. -/
def oneReg (a : ℤ) : ModbusPLC :=
  Loader.cfgInitPlcregs [⟨a, ['r'], ['r', 'w'], none⟩] (Loader.newPlc ['P'] 502 1)

theorem oneReg_unwidened (a : ℤ) : Unwidened (oneReg a) := ⟨rfl, rfl⟩

theorem oneReg_addresses (a : ℤ) : addresses (oneReg a) = {a} := by
  ext x
  exact List.mem_singleton

def zeroAndNine : ModbusPLC :=
  Loader.cfgInitPlcregs [⟨0, ['r'], ['r', 'w'], none⟩, ⟨9, ['s'], ['r'], none⟩]
    (Loader.newPlc ['P'] 502 1)

theorem zeroAndNine_addresses : addresses zeroAndNine = {0, 9} := by
  have hkeys : zeroAndNine.regs.keys = [0, 9] := by decide
  ext x
  rw [addresses, hkeys]
  simp

theorem blockExact_zeroAndNine : BlockExact (initRegs zeroAndNine) :=
  (blockExact_iff_zero ⟨rfl, rfl⟩ (by simp [zeroAndNine_addresses])
    (by simp [zeroAndNine_addresses])).mpr (by simp [zeroAndNine_addresses])

/-- A register at address 100 is polled as a block of 101 from address zero. -/
theorem blockExact_apart : ¬ ∀ m : ModbusPLC, Unwidened m → (addresses m).Nonempty →
    (∀ a ∈ addresses m, 0 ≤ a) → BlockExact (initRegs m) := by
  intro h
  have hexact := h (oneReg 100) (oneReg_unwidened 100) (by simp [oneReg_addresses])
    (by simp [oneReg_addresses])
  have hmem := hexact.least.1
  rw [initRegs_addresses, oneReg_addresses, initRegs_regMin (oneReg_unwidened 100)
    (by simp [oneReg_addresses])] at hmem
  simp at hmem

end RwModbus.Master
