import RwModbus.Library.GrowVec
import RwModbus.Loader

/-!
# Room in `PLCvec`

`r_next`, `dev_name` and `lock_mux` of a configured PLC point into its object, so the
objects must not move while the others are created. `cfg_init_plcset` reserves for
the inventory or for the list, whichever it goes by, but creates one object for
every entry that the list names, however often the name comes.
-/
namespace RwModbus.Loader
open Registers

/-- `isCheckName`. -/
def isCheckName (listPLC : List Name) : Bool :=
  decide (listPLC.head? ≠ some ['a', 'l', 'l'] ∧ listPLC.head? ≠ some ['A', 'L', 'L'])

theorem listed_eq (listPLC : List Name) (name : Name) :
    listed listPLC name = (!isCheckName listPLC || decide (name ∈ listPLC)) := by
  rw [Bool.eq_iff_iff]
  simp only [listed, isCheckName, Bool.or_eq_true, Bool.not_eq_true', decide_eq_true_iff,
    decide_eq_false_iff_not]
  tauto

/-- `vec_size_new`. -/
def vecSizeNew (listPLC : List Name) (cfgPLC : List PlcGroup) (PLCvec : GrowVec Plc) : ℕ :=
  PLCvec.size + if isCheckName listPLC then listPLC.length else cfgPLC.length

variable (G : Growth) (listPLC : List Name) (cfgPLC : List PlcGroup) (PLCvec : GrowVec Plc)

/-- `PLCvec` when the loop begins. -/
def reservePlcs : GrowVec Plc :=
  if PLCvec.capacity < vecSizeNew listPLC cfgPLC PLCvec then
    PLCvec.reserve G (vecSizeNew listPLC cfgPLC PLCvec + 1)
  else PLCvec

/-- The object a round creates. -/
def createdPlc (g : PlcGroup) : Option Plc :=
  (g.settings.filter fun s => listed listPLC s.name).map PlcSettings.plc

/-- Entries the loop comes to: an empty list has no first name, and looking for it
ends the program. -/
def rounds {α : Type} (listPLC : List Name) (entries : List α) : List α :=
  if listPLC = [] then [] else entries

/-- `PLCvec` after the rounds `gs`. -/
def fillPlcs (gs : List PlcGroup) : GrowVec Plc :=
  Runs.run (GrowVec.round G (createdPlc listPLC)) (reservePlcs G listPLC cfgPLC PLCvec) gs

theorem filterMap_createdPlc (gs : List PlcGroup) :
    gs.filterMap (createdPlc listPLC) = (cfgInitPlcset listPLC gs).elems := by
  change _ = ((gs.filterMap PlcGroup.settings).filter _).map PlcSettings.plc
  rw [List.filter_filterMap, List.map_filterMap]
  rfl

/-- The objects of the whole loop are those of the loader's model, after the earlier ones. -/
theorem fillPlcs_elems : (fillPlcs G listPLC cfgPLC PLCvec cfgPLC).elems =
    PLCvec.elems ++ (cfgInitPlcset listPLC cfgPLC).elems := by
  rw [fillPlcs, GrowVec.run_elems, filterMap_createdPlc]
  congr 1
  unfold reservePlcs
  split_ifs <;> simp

/-- The complete groups of the inventory with a name in the list. -/
def namedPlcs : List PlcSettings :=
  (cfgPLC.filterMap PlcGroup.settings).filter fun s => s.name ∈ listPLC

/-- Objects there is room for when the loop begins. -/
def plcRoom : ℕ :=
  if PLCvec.capacity < vecSizeNew listPLC cfgPLC PLCvec then
    G.reserved (vecSizeNew listPLC cfgPLC PLCvec + 1) - PLCvec.size
  else PLCvec.room

theorem reservePlcs_room : (reservePlcs G listPLC cfgPLC PLCvec).room =
    plcRoom G listPLC cfgPLC PLCvec := by
  unfold reservePlcs plcRoom
  split_ifs with h
  · rw [GrowVec.reserve_room, if_pos (by omega)]
  · rfl

theorem le_plcRoom : (if isCheckName listPLC then listPLC.length else cfgPLC.length) ≤
    plcRoom G listPLC cfgPLC PLCvec := by
  have hres := G.le_reserved (vecSizeNew listPLC cfgPLC PLCvec + 1)
  have hnew : vecSizeNew listPLC cfgPLC PLCvec = PLCvec.size +
    if isCheckName listPLC then listPLC.length else cfgPLC.length := rfl
  unfold plcRoom GrowVec.room
  split_ifs at hnew ⊢ <;> omega

theorem created_length (hlist : isCheckName listPLC = true) :
    ((cfgInitPlcset listPLC cfgPLC).elems).length = (namedPlcs listPLC cfgPLC).length := by
  simp [cfgInitPlcset, loadedPlcs, namedPlcs, listed_eq, hlist]

theorem created_length_le : ((cfgInitPlcset listPLC cfgPLC).elems).length ≤ cfgPLC.length := by
  rw [← filterMap_createdPlc]
  exact List.length_filterMap_le _ _

/-- While the loop runs, `emplace_back` never meets a full vector, and after any
number of rounds the objects are in the block they were in when it began. PLCs of an
earlier call, which the reserve before the loop may itself move, are not meant. -/
structure StaysPut : Prop where
  neverFull : GrowVec.NeverFull G (createdPlc listPLC) (reservePlcs G listPLC cfgPLC PLCvec)
    (rounds listPLC cfgPLC)
  block : ∀ gs, gs <+: rounds listPLC cfgPLC →
    (fillPlcs G listPLC cfgPLC PLCvec gs).block = (reservePlcs G listPLC cfgPLC PLCvec).block

theorem staysPut_iff_neverFull : StaysPut G listPLC cfgPLC PLCvec ↔
    GrowVec.NeverFull G (createdPlc listPLC) (reservePlcs G listPLC cfgPLC PLCvec)
      (rounds listPLC cfgPLC) := by
  refine ⟨StaysPut.neverFull, fun h => ⟨h, ?_⟩⟩
  rintro gs ⟨rest, hrest⟩
  rw [← hrest] at h
  exact h.of_append.block

theorem staysPut_iff_length : StaysPut G listPLC cfgPLC PLCvec ↔
    ((rounds listPLC cfgPLC).filterMap (createdPlc listPLC)).length ≤
      plcRoom G listPLC cfgPLC PLCvec := by
  rw [staysPut_iff_neverFull, GrowVec.neverFull_iff, reservePlcs_room]

/-- Exactly the lists of names can fail, and only if there are more complete groups
of these names than the vector has room for. -/
theorem staysPut_iff : StaysPut G listPLC cfgPLC PLCvec ↔
    listPLC = [] ∨ isCheckName listPLC = false ∨
      (namedPlcs listPLC cfgPLC).length ≤ plcRoom G listPLC cfgPLC PLCvec := by
  rw [staysPut_iff_length, rounds]
  have hroom := le_plcRoom G listPLC cfgPLC PLCvec
  split_ifs with hnil
  · simp [hnil]
  · rw [filterMap_createdPlc]
    cases hcheck : isCheckName listPLC with
    | true => simp [hnil, created_length listPLC cfgPLC hcheck]
    | false =>
        have hle := created_length_le listPLC cfgPLC
        simp only [hcheck, Bool.false_eq_true, if_false] at hroom
        simp [hle.trans hroom]

/-- Three PLCs of one name and a list that names it once. -/
theorem staysPut_repeated : ¬ ∀ (G : Growth) (listPLC : List Name) (cfgPLC : List PlcGroup)
    (PLCvec : GrowVec Plc), StaysPut G listPLC cfgPLC PLCvec := by
  intro h
  have hlen := (staysPut_iff_length _ _ _ _).mp
    (h ⟨id, fun n => le_refl n, fun n => max 1 (2 * n), fun n => by omega⟩ [['A']]
      [smallGroup ['A'] [], smallGroup ['A'] [], smallGroup ['A'] []] ⟨[], 0, le_refl 0, 0⟩)
  exact absurd hlen (by decide)

end RwModbus.Loader
