import RwModbus.Library.Separators
import RwModbus.SourceWalk
import RwModbus.OpcRegs

/-!
# Double slashes in the path of an entry

Both constructors set four names off by slashes, whether a name is empty or has
slashes of its own at the ends, and then take out one slash four times. The server
takes the path if that was enough.
-/
namespace RwModbus.OpcRegs
open Numeric Registers Master Reg Opc Loader Separators

theorem not_dblSlash_iff {s : Name} : ¬ DblSlash s ↔ pairs '/' s = 0 := pairs_eq_zero_iff.symm

theorem removeDblSlashes_head (s : Name) : (removeDblSlashes s).head? = s.head? := by
  cases s with
  | nil => rfl
  | cons c s =>
      unfold removeDblSlashes
      split_ifs with h
      · rw [h.2, List.head?_cons, h.1]
      · rfl

theorem pairs_removeDblSlashes (s : Name) :
    pairs '/' (removeDblSlashes s) = pairs '/' s - 1 := by
  induction s with
  | nil => rfl
  | cons c s ih =>
      unfold removeDblSlashes
      split_ifs with h
      · rw [pairs, if_pos h, Nat.add_sub_cancel_left]
      · rw [pairs, pairs, removeDblSlashes_head, if_neg h, ih, zero_add, zero_add]

theorem pairs_iterate_removeDblSlashes (k : ℕ) (s : Name) :
    pairs '/' (removeDblSlashes^[k] s) = pairs '/' s - k := by
  induction k with
  | zero => rfl
  | succ k ih => rw [Function.iterate_succ_apply', pairs_removeDblSlashes, ih, Nat.sub_sub]

/-- Four slashes too many are taken out, and no fifth. -/
theorem cleanPath_dblSlash_iff (s : Name) : ¬ DblSlash (cleanPath s) ↔ pairs '/' s ≤ 4 := by
  rw [not_dblSlash_iff, cleanPath, pairs_iterate_removeDblSlashes, Nat.sub_eq_zero_iff_le]

/-- The slashes too many in the path of these names: one for each slash at the start of
a name, and one for each of the first three that is empty or ends in a slash. -/
def extraSlashes (folder name rfolder full : Name) : ℕ :=
  surplus '/' [folder, name, rfolder, full]

theorem modbusPath_eq (D : Plc) (r : Mbreg) : modbusPath D r =
    cleanPath (joined '/' [D.strDevFolder, D.strDevName, r.strRfolder, r.rfullname]) := by
  simp [modbusPath]

theorem path_eq (v : ScadaVar) :
    v.path = cleanPath (joined '/' [v.dfolder, v.dname, v.rfolder.getD [], v.key]) := by
  simp [ScadaVar.path, opcBase]

theorem joined_clean_iff {folder name rfolder full : Name} (hfolder : ¬ DblSlash folder)
    (hname : ¬ DblSlash name) (hrfolder : ¬ DblSlash rfolder) (hfull : ¬ DblSlash full) :
    ¬ DblSlash (cleanPath (joined '/' [folder, name, rfolder, full])) ↔
      extraSlashes folder name rfolder full ≤ 4 := by
  have hpairs : ∀ x ∈ [folder, name, rfolder, full], pairs '/' x = 0 := by
    intro x hx
    simp only [List.mem_cons, List.not_mem_nil, or_false] at hx
    rcases hx with rfl | rfl | rfl | rfl
    all_goals exact not_dblSlash_iff.mp ‹_›
  rw [cleanPath_dblSlash_iff, pairs_joined hpairs, extraSlashes]

theorem dblSlash_dot {a b : Name} (ha : ¬ DblSlash a) (hb : ¬ DblSlash b) :
    ¬ DblSlash (a ++ '.' :: b) := by
  rw [not_dblSlash_iff] at *
  rw [pairs_append, pairs, ha, hb]
  simp

theorem dblSlash_fullName {dname rname : Name} (hd : ¬ DblSlash dname) (hr : ¬ DblSlash rname) :
    ¬ DblSlash (fullName dname rname) := by
  unfold fullName
  split_ifs
  · exact hr
  · exact dblSlash_dot hd hr

theorem PlcSet.rfullname_eq {P : PlcSet} {D : Plc} (hD : D ∈ P.elems) (a : ℤ) :
    (D.regs.val a).rfullname = D.strDevName ++ '.' :: (D.regs.val a).strRname := by
  obtain ⟨m, hm⟩ := P.prepared D hD
  rw [hm]
  rfl

/-- No server refuses a variable of this name. -/
def Accepted (s : Name) : Prop :=
  ∀ beyond o q, Request.name q = s → s ∈ (addVar beyond o q).vars.keys

theorem mem_addVar {q : Request} (h : ¬ DblSlash q.name) (beyond : Name → NumericU)
    (o : OpcServer) : q.name ∈ (addVar beyond o q).vars.keys := by
  by_cases href : q.name ∈ o.vars.keys ∨ DblSlash q.name
  · rw [addVar_of_refused href]
    exact href.resolve_right h
  · rw [(addVar_touches href).keys]
    exact ((addVarNodeId_more _ _).old _ (mem_addVarName.mpr (Or.inl rfl))).1

theorem accepted_iff {s : Name} : Accepted s ↔ ¬ DblSlash s := by
  constructor
  · intro h hd
    have hmem := h (fun _ => {}) ⟨.empty fun _ => folderVar, fun _ => statusGood⟩
      ⟨s, .uint16, {}⟩ rfl
    rw [addVar_of_refused (Or.inr hd)] at hmem
    exact absurd hmem List.not_mem_nil
  · rintro h beyond o q rfl
    exact mem_addVar h beyond o

theorem clean_accepted_iff {s : Name} : ¬ DblSlash s ∧ Accepted s ↔ ¬ DblSlash s := by
  rw [accepted_iff, and_self]

/-- A path made by either constructor from names without a double slash is free of them
and accepted exactly if it had at most four slashes too many. -/
theorem opcname_accepted_iff (P : PlcSet) :
    (∀ D ∈ P.elems, ∀ i a, ¬ DblSlash D.strDevFolder → ¬ DblSlash D.strDevName →
      ¬ DblSlash (D.regs.val a).strRfolder → ¬ DblSlash (D.regs.val a).strRname →
      (¬ DblSlash (modbusEntry P D ⟨i, a⟩).strOpcname ∧
          Accepted (modbusEntry P D ⟨i, a⟩).strOpcname ↔
        extraSlashes D.strDevFolder D.strDevName (D.regs.val a).strRfolder
          (D.strDevName ++ '.' :: (D.regs.val a).strRname) ≤ 4)) ∧
    (∀ src v prop row d, construct P src v prop row = some d → ¬ DblSlash v.dfolder →
      ¬ DblSlash v.dname → ¬ DblSlash (v.rfolder.getD []) → ¬ DblSlash v.rname →
      (¬ DblSlash d.strOpcname ∧ Accepted d.strOpcname ↔
        extraSlashes v.dfolder v.dname (v.rfolder.getD []) (fullName v.dname v.rname) ≤ 4)) := by
  constructor
  · intro D hD i a hfolder hname hrfolder hrname
    have hopc : (modbusEntry P D ⟨i, a⟩).strOpcname = modbusPath D (D.regs.val a) := by
      rw [modbusEntry_toRegDef]
      rfl
    rw [clean_accepted_iff, hopc, modbusPath_eq, PlcSet.rfullname_eq hD a]
    exact joined_clean_iff hfolder hname hrfolder (dblSlash_dot hname hrname)
  · intro src v prop row d hd hfolder hname hrfolder hrname
    have hopc : d.strOpcname = v.path := by
      rcases construct_cases hd with ⟨-, rfl⟩ | ⟨-, rfl, -⟩ <;> rfl
    rw [clean_accepted_iff, hopc, path_eq]
    exact joined_clean_iff hfolder hname hrfolder (dblSlash_fullName hname hrname)

/-- Register 3 of a device in folder `A/` that has no name. -/
def namelessPlcs : PlcSet :=
  cfgInitPlcset allPlcs [{ smallGroup [] [⟨3, ['x'], [], none⟩] with folder := some ['A', '/'] }]

def slashedVar (folder name rfolder : Name) : ScadaVar where
  rname := ['x']
  rmode := []
  rtype := ['u']
  rfolder := some rfolder
  dname := name
  dfolder := folder
  origin := (0, 0)

theorem opcname_accepted_small :
    (∀ D ∈ namelessPlcs.elems, ¬ DblSlash (modbusEntry namelessPlcs D ⟨0, 3⟩).strOpcname ∧
      Accepted (modbusEntry namelessPlcs D ⟨0, 3⟩).strOpcname) ∧
    ∃ d, construct namelessPlcs none (slashedVar ['S', '/'] [] ['/', 'T', '/']) ⟨.uint16, 1, .sngl⟩
      row_u16 = some d ∧ ¬ DblSlash d.strOpcname ∧ Accepted d.strOpcname := by
  refine ⟨fun D hD => ?_, _, rfl, ?_⟩
  · obtain rfl := List.mem_singleton.mp hD
    exact ((opcname_accepted_iff namelessPlcs).1 _ hD 0 3 (by decide) (by decide) (by decide)
      (by decide)).mpr (by decide)
  · exact ((opcname_accepted_iff namelessPlcs).2 none (slashedVar ['S', '/'] [] ['/', 'T', '/']) _ _
      _ rfl (by decide) (by decide) (by decide) (by decide)).mpr (by decide)

/-- Folder `/A/`, name `/B/` and register folder `/C/` have seven slashes too many. -/
theorem opcname_dblSlash : ¬ ∀ (P : PlcSet) (src : Option RegPtr) (v : ScadaVar) (prop : RegProp)
    (row : prop.Row) (d : RegDef), construct P src v prop row = some d → ¬ DblSlash v.dfolder →
    ¬ DblSlash v.dname → ¬ DblSlash (v.rfolder.getD []) → ¬ DblSlash v.rname →
    ¬ DblSlash d.strOpcname := by
  intro h
  exact h namelessPlcs none (slashedVar ['/', 'A', '/'] ['/', 'B', '/'] ['/', 'C', '/']) _ row_u16 _
    rfl (by decide) (by decide) (by decide) (by decide) (by decide)

end RwModbus.OpcRegs
