import RwModbus.System

/-!
# What a round looks at

A round reads its entry, the words of the entry's sources and the entry's variable,
and it writes to the same. Two rounds that agree on these do the same.
-/
namespace RwModbus.Views
open Numeric Registers Reg Opc Refresh Sys

/-- The same servers at a name. -/
structure AlikeAt (s : Name) (o o' : OpcServer) : Prop where
  config : OpcServer.Touches Set.univ o o'
  val : o'.vars.val s = o.vars.val s

variable {g g' : Gateway} {o o' : OpcServer} {s t : Name}

theorem sameConfig_symm (h : g.SameConfig g') : g'.SameConfig g :=
  ⟨fun q => (h.mode q).symm, fun i => (h.plcKeys i).symm,
    ⟨h.opcs.keys.symm, h.opcs.wrStatus.symm, fun t => (h.opcs.isVar t).symm,
      fun t => (h.opcs.uaType t).symm, fun _ hn => absurd (Set.mem_univ _) hn⟩,
    h.keys.symm, fun m => (h.defs m).symm⟩

namespace AlikeAt

theorem isVariable (h : AlikeAt s o o') (t : Name) : o'.isVariable t = o.isVariable t :=
  h.config.isVariable t

theorem fullName (h : AlikeAt s o o') (t : Name) : o'.getVarFullName t = o.getVarFullName t := by
  rw [OpcServer.getVarFullName, OpcServer.getVarFullName, h.config.keys]

theorem of_touches (h : AlikeAt s o o') {S S' : Set Name} {q q' : OpcServer}
    (hq : OpcServer.Touches S o q) (hq' : OpcServer.Touches S' o' q')
    (hval : q'.vars.val s = q.vars.val s) : AlikeAt s q q' := by
  refine ⟨⟨?_, ?_, fun t => ?_, fun t => ?_, fun _ hn => absurd (Set.mem_univ _) hn⟩, hval⟩
  · rw [hq.keys, hq'.keys, h.config.keys]
  · rw [hq.wrStatus, hq'.wrStatus, h.config.wrStatus]
  · rw [hq.isVar, hq'.isVar, h.config.isVar]
  · rw [hq.uaType, hq'.uaType, h.config.uaType]

theorem clientWrite (h : AlikeAt s o o') (t : Name) (x : NumericU) :
    AlikeAt s (o.clientWrite t x) (o'.clientWrite t x) := by
  apply h.of_touches (OpcServer.clientWrite_touches t x o) (OpcServer.clientWrite_touches t x o')
  by_cases hs : s = t
  · subst hs
    by_cases hv : o.isVariable s = true
    · rw [OpcServer.clientWrite_val hv, OpcServer.clientWrite_val ((h.isVariable s).trans hv), h.val]
    · rw [OpcServer.clientWrite, OpcServer.clientWrite, h.isVariable, if_neg hv, if_neg hv, h.val]
  · rw [(OpcServer.clientWrite_touches t x o).others s hs,
      (OpcServer.clientWrite_touches t x o').others s hs, h.val]

theorem refreshRawValue (h : AlikeAt s o o') (data : Option NumericU) (t : Name) :
    AlikeAt s (o.refreshRawValue data t).1 (o'.refreshRawValue data t).1 := by
  apply h.of_touches (OpcServer.refreshRawValue_touches data t o)
    (OpcServer.refreshRawValue_touches data t o')
  rw [OpcServer.refreshRawValue_val, OpcServer.refreshRawValue_val, h.isVariable, h.val]

theorem refreshAllValues (h : AlikeAt s o o') (data : ReadData) :
    AlikeAt s (o.refreshAllValues data) (o'.refreshAllValues data) := by
  apply h.of_touches (OpcServer.refreshAllValues_touches data o)
    (OpcServer.refreshAllValues_touches data o')
  rw [OpcServer.refreshAllValues, OpcServer.refreshAllValues, h.config.keys,
    OpcServer.refreshList_val, OpcServer.refreshList_val, h.isVariable, h.val]

theorem writeNumber (h : AlikeAt s o o') (t : Name) (x : NumericU) (b : Bool) :
    AlikeAt s (o.writeNumber t x b).1 (o'.writeNumber t x b).1 := by
  apply h.of_touches (OpcServer.writeNumber_touches t x b o)
    (OpcServer.writeNumber_touches t x b o')
  by_cases hs : s = t
  · subst hs
    unfold OpcServer.writeNumber
    rw [h.isVariable]
    split_ifs
    · simp only [OpcServer.modifyVar_val_self, h.config.wrStatus, h.val]
    · exact h.val
  · rw [(OpcServer.writeNumber_touches t x b o).others s hs,
      (OpcServer.writeNumber_touches t x b o').others s hs, h.val]

theorem writeValue (h : AlikeAt s o o') (data : Option NumericU) (t : Name) (x : NumericU)
    (b : Bool) : AlikeAt s (o.writeValue data t x b) (o'.writeValue data t x b) := by
  simp only [OpcServer.writeValue, OpcServer.updateVar, OpcServer.readNumber_fst, h.fullName]
  exact (h.refreshRawValue data _).writeNumber _ x b

theorem writeRawUnion (h : AlikeAt s o o') (t : Name) (x : NumericU) (b : Bool) :
    AlikeAt s (o.writeRawUnion t x b).1 (o'.writeRawUnion t x b).1 := by
  apply h.of_touches (OpcServer.writeRawUnion_touches t x b o)
    (OpcServer.writeRawUnion_touches t x b o')
  by_cases hs : s = t
  · subst hs
    unfold OpcServer.writeRawUnion
    rw [h.config.keys]
    split_ifs
    · simp only [OpcServer.modifyVar_val_self, h.config.wrStatus, h.val]
    · exact h.val
  · rw [(OpcServer.writeRawUnion_touches t x b o).others s hs,
      (OpcServer.writeRawUnion_touches t x b o').others s hs, h.val]

theorem jsonUpdate (h : AlikeAt s o o') (data : ReadData) (t : Name) :
    AlikeAt s (Refresh.jsonUpdate data t o) (Refresh.jsonUpdate data t o') := by
  unfold Refresh.jsonUpdate
  split_ifs
  · simp only [OpcServer.readValue, OpcServer.readNumber_fst, h.fullName]
    exact h.refreshRawValue _ _
  · exact h

end AlikeAt

section
variable {rm : RegC} {plcs plcs' : PlcVec}

theorem getPlcErrors_congr_sources {d : RegDef}
    (h : ∀ p ∈ d.sources, plcs'.data p = plcs.data p) :
    d.getPlcErrors plcs' = d.getPlcErrors plcs := by
  unfold RegDef.getPlcErrors
  congr 1
  refine List.map_congr_left fun i hi => ?_
  cases hs : d.source i with
  | none => rfl
  | some p => simp only [h p ⟨i, List.mem_range.mp hi, hs⟩]

theorem getPlcReg_congr {i : ℕ} (h : ∀ p, rm.source i = some p → plcs'.data p = plcs.data p) :
    rm.getPlcReg plcs' i = rm.getPlcReg plcs i := by
  unfold RegC.getPlcReg
  cases hs : rm.source i with
  | none => rfl
  | some p => simp only [h p hs]

theorem pullWords_congr (h : ∀ p ∈ rm.sources, plcs'.data p = plcs.data p) :
    rm.pullWords plcs' = rm.pullWords plcs := by
  have hfold : ∀ (is : List ℕ), (∀ i ∈ is, i < rm.prop.rsize) → ∀ u : RegC × NumericU,
      u.1.toRegDef = rm.toRegDef →
      is.foldl (fun s i =>
        let r := s.1.getPlcReg plcs' (rm.prop.rsize - i - 1)
        (r.1, s.2.setMb i r.2)) u =
      is.foldl (fun s i =>
        let r := s.1.getPlcReg plcs (rm.prop.rsize - i - 1)
        (r.1, s.2.setMb i r.2)) u := by
    intro is
    induction is with
    | nil => exact fun _ _ _ => rfl
    | cons i is ih =>
        intro his u hu
        have hi := his i List.mem_cons_self
        have hreg : u.1.getPlcReg plcs' (rm.prop.rsize - i - 1) =
            u.1.getPlcReg plcs (rm.prop.rsize - i - 1) := by
          refine getPlcReg_congr fun p hp => ?_
          rw [hu] at hp
          exact h p ⟨rm.prop.rsize - i - 1, by omega, hp⟩
        simp only [List.foldl_cons, hreg]
        refine ih (fun k hk => his k (List.mem_cons_of_mem i hk)) _ ?_
        exact (RegC.getPlcReg_toRegDef ..).trans hu
  exact hfold _ (fun i hi => List.mem_range.mp hi) _ rfl

theorem getPlcValue_congr (h : ∀ p ∈ rm.sources, plcs'.data p = plcs.data p) :
    rm.getPlcValue plcs' = rm.getPlcValue plcs := by
  have herr : rm.getPlcErrors plcs' = rm.getPlcErrors plcs := getPlcErrors_congr_sources h
  have hpull := pullWords_congr h
  have hsingle : rm.prop.rsize = 1 → ∀ b bad conv,
      rm.singleValue plcs' b bad conv = rm.singleValue plcs b bad conv := by
    intro h1 b bad conv
    unfold RegC.singleValue
    rw [getPlcReg_congr fun p hp => h p ⟨0, by omega, hp⟩]
  have hdec : rm.decodeValue plcs' = rm.decodeValue plcs := by
    unfold RegC.decodeValue RegC.pullPlcValue32 RegC.pullPlcValue64
    rw [herr, hpull]
    dsimp only
    by_cases h1 : rm.prop.rsize = 1
    · simp only [hsingle h1]
    · simp only [if_neg h1]
  unfold RegC.getPlcValue
  rw [hdec]

end

/-- Rounds of one entry that agree on what they read. -/
structure SameView (t t' : Turn) : Prop where
  rm : t'.rm = t.rm
  words : ∀ p ∈ t.rm.sources, t'.plcs.data p = t.plcs.data p
  own : AlikeAt t.rm.strOpcname t.opcs t'.opcs

/-- The entry after its round, in terms of the locals. -/
theorem refreshModbus_rm (t : Turn) : t.refreshModbus.rm =
    let rm := (t.rm.getPlcValue t.plcs).1
    let shown :=
      if t.publishes then { rm with number := t.plcVal, varErrors := t.plcErr.toNat }
      else if t.oldErr && t.plcErr then { rm with varErrors := rm.varErrors + 1 }
      else rm
    if t.takes then { shown with number := t.opcVal, varErrors := (t.plcErr || t.opcErr).toNat }
    else shown := by
  unfold Turn.refreshModbus
  dsimp only
  split_ifs <;> rfl

namespace SameView
variable {t t' : Turn}

theorem opcVal (h : SameView t t') : t'.opcVal = t.opcVal := by
  rw [Turn.opcVal, Turn.opcVal, h.rm, opcGetValue, opcGetValue, h.own.fullName,
    OpcServer.getVarFullName_of_slash t.rm.path, OpcServer.readRawUnion, OpcServer.readRawUnion,
    h.own.isVariable, h.own.val]

theorem opcErr (h : SameView t t') : t'.opcErr = t.opcErr := by
  rw [Turn.opcErr, Turn.opcErr, h.rm, OpcServer.isGood, OpcServer.isGood, h.own.isVariable,
    h.own.val]

theorem getPlcValue (h : SameView t t') : t.rm.getPlcValue t'.plcs = t.rm.getPlcValue t.plcs :=
  getPlcValue_congr h.words

theorem plcVal (h : SameView t t') : t'.plcVal = t.plcVal := by
  rw [Turn.plcVal, Turn.plcVal, h.rm, h.getPlcValue]

theorem plcErr (h : SameView t t') : t'.plcErr = t.plcErr := by
  rw [Turn.plcErr, Turn.plcErr, h.rm]
  congr 2
  exact getPlcErrors_congr_sources h.words

theorem oldErr (h : SameView t t') : t'.oldErr = t.oldErr := by
  rw [Turn.oldErr, Turn.oldErr, h.rm]

theorem isNewOpc (h : SameView t t') : t'.isNewOpc = t.isNewOpc := by
  rw [Turn.isNewOpc, Turn.isNewOpc, Turn.oldVal, Turn.oldVal, h.opcVal, h.rm]

theorem isNewPlc (h : SameView t t') : t'.isNewPlc = t.isNewPlc := by
  rw [Turn.isNewPlc, Turn.isNewPlc, Turn.oldVal, Turn.oldVal, h.plcVal, h.rm]

theorem takes (h : SameView t t') : t'.takes = t.takes := by
  rw [Turn.takes, Turn.takes, h.isNewOpc, h.opcErr, h.plcErr, h.rm]

theorem publishes (h : SameView t t') : t'.publishes = t.publishes := by
  rw [Turn.publishes, Turn.publishes, h.isNewPlc, h.plcErr, h.oldErr]

theorem refreshModbus_rm (h : SameView t t') : t'.refreshModbus.rm = t.refreshModbus.rm := by
  rw [Views.refreshModbus_rm, Views.refreshModbus_rm, h.takes, h.publishes, h.plcVal, h.plcErr,
    h.opcVal, h.opcErr, h.oldErr, h.rm, h.getPlcValue]

theorem refreshScada_rm (h : SameView t t') : t'.refreshScada.rm = t.refreshScada.rm := by
  rw [Turn.refreshScada, Turn.refreshScada, h.isNewOpc, h.opcVal, h.opcErr, h.rm]

theorem refreshModbus_opcs (h : SameView t t') (hs : AlikeAt s t.opcs t'.opcs) :
    AlikeAt s t.refreshModbus.opcs t'.refreshModbus.opcs := by
  rw [Turn.refreshModbus_opcs, Turn.refreshModbus_opcs, h.publishes, h.rm, h.plcErr, h.plcVal]
  split_ifs
  · rw [opcSetValue_eq t.rm.path, opcSetValue_eq t.rm.path]
    exact hs.writeRawUnion _ _ _
  · exact hs

/-- The entry after the whole round. -/
theorem refresh_rm (h : SameView t t') (data : ReadData) :
    (t'.refresh data).1.rm = (t.refresh data).1.rm := by
  simp only [Turn.refresh, h.rm]
  split_ifs
  · exact h.refreshScada_rm
  · exact h.refreshModbus_rm

/-- A variable after the whole round. -/
theorem refresh_opcs (h : SameView t t') (hs : AlikeAt s t.opcs t'.opcs) (data : ReadData) :
    AlikeAt s (t.refresh data).1.opcs (t'.refresh data).1.opcs := by
  have hrm := h.refresh_rm data
  simp only [Turn.refresh] at hrm ⊢
  rw [hrm, h.rm]
  split_ifs
  · exact hs.jsonUpdate data _
  · exact (h.refreshModbus_opcs hs).jsonUpdate data _

/-- A word of the entry after the whole round. -/
theorem refresh_word (h : SameView t t') (data : ReadData) {p : RegPtr} (hp : p ∈ t.rm.sources) :
    (t'.refresh data).1.plcs.data p = (t.refresh data).1.plcs.data p := by
  by_cases hk : t.rm.kind = .scada
  · simp only [Turn.refresh, h.rm, if_pos hk]
    exact h.words p hp
  · have hk' : t'.rm.kind ≠ .scada := by
      rw [h.rm]
      exact hk
    rw [Turn.refresh_plcs hk, Turn.refresh_plcs hk', Turn.refreshModbus_plcs,
      Turn.refreshModbus_plcs, h.takes, h.opcVal, h.rm]
    split_ifs
    · obtain ⟨i, hi, hsource⟩ := hp
      rw [RegDef.setPlcValue_data hi hsource, RegDef.setPlcValue_data hi hsource,
        h.words p ⟨i, hi, hsource⟩]
    · exact h.words p hp

/-- What the round decides. -/
theorem refresh_decision (h : SameView t t') (data : ReadData) :
    (t'.refresh data).2 = (t.refresh data).2 := by
  simp only [Turn.refresh, h.rm, h.isNewOpc, h.isNewPlc, h.publishes, h.takes]

end SameView

end RwModbus.Views
