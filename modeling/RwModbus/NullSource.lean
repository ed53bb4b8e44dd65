import RwModbus.OpcRegs
import RwModbus.Quality
import RwModbus.SourceWalk

/-!
# Entries without a source

A reference to a variable of SCADA's own gets no register: its pointers stay null.
`get_plc_errors` counts nothing for a null pointer, so the entry passes for healthy
and the bad value that it reads instead is published as good.
-/
namespace RwModbus.NullSource
open Numeric Registers Reg Opc Refresh Sys Quality Loader OpcRegs

/-- A status of the second server is the one in the first, or that of a write with a
flag in `B`. -/
structure Rewrites (B : Set Bool) (o o' : OpcServer) : Prop where
  wrStatus : o'.wrStatus = o.wrStatus
  isVariable : ∀ t, o'.isVariable t = o.isVariable t
  uaStatus : ∀ t, (o'.vars.val t).uaStatus = (o.vars.val t).uaStatus ∨
    ∃ b ∈ B, (o'.vars.val t).uaStatus = statusGood ↔ b = true ∧ o.wrStatus t = statusGood

namespace Rewrites
variable {B C : Set Bool} {o o₁ o₂ : OpcServer}

theorem refl (B : Set Bool) (o : OpcServer) : Rewrites B o o :=
  ⟨rfl, fun _ => rfl, fun _ => Or.inl rfl⟩

theorem mono (h : Rewrites B o o₁) (hBC : B ⊆ C) : Rewrites C o o₁ :=
  ⟨h.wrStatus, h.isVariable,
    fun t => (h.uaStatus t).imp_right fun ⟨b, hb, hst⟩ => ⟨b, hBC hb, hst⟩⟩

theorem trans (h : Rewrites B o o₁) (h' : Rewrites B o₁ o₂) : Rewrites B o o₂ := by
  refine ⟨h'.wrStatus.trans h.wrStatus, fun t => (h'.isVariable t).trans (h.isVariable t),
    fun t => ?_⟩
  rcases h'.uaStatus t with hsame | ⟨b, hb, hst⟩
  · rw [hsame]
    exact h.uaStatus t
  · rw [h.wrStatus] at hst
    exact Or.inr ⟨b, hb, hst⟩

theorem of_status {S : Set Name} (h : OpcServer.Touches S o o₁)
    (hst : ∀ t ∈ S, (o₁.vars.val t).uaStatus = (o.vars.val t).uaStatus) : Rewrites B o o₁ := by
  refine ⟨h.wrStatus, h.isVariable, fun t => Or.inl ?_⟩
  by_cases ht : t ∈ S
  · exact hst t ht
  · rw [h.others t ht]

/-- A write to `s` with the flag `b`. -/
theorem of_write {s : Name} {b : Bool} (h : OpcServer.Touches {s} o o₁)
    (hgood : (o₁.vars.val s).uaStatus = statusGood ↔ b = true ∧ o.wrStatus s = statusGood) :
    Rewrites {b} o o₁ := by
  refine ⟨h.wrStatus, h.isVariable, fun t => ?_⟩
  by_cases hts : t = s
  · subst hts
    exact Or.inr ⟨b, rfl, hgood⟩
  · exact Or.inl (congrArg UaVar.uaStatus (h.others t hts))

end Rewrites

theorem refreshRawValue_rewrites (B : Set Bool) (data : Option NumericU) (s : Name)
    (o : OpcServer) : Rewrites B o (OpcServer.refreshRawValue data s o).1 := by
  refine Rewrites.of_status (OpcServer.refreshRawValue_touches data s o) fun t _ => ?_
  rw [OpcServer.refreshRawValue_val]
  split_ifs
  · exact OpcServer.refreshVar_uaStatus data _
  · rfl

theorem refreshAllValues_rewrites (B : Set Bool) (data : ReadData) (o : OpcServer) :
    Rewrites B o (OpcServer.refreshAllValues data o) := by
  refine Rewrites.of_status (OpcServer.refreshAllValues_touches data o) fun t _ => ?_
  rw [OpcServer.refreshAllValues, OpcServer.refreshList_val]
  split_ifs
  · exact OpcServer.refreshVar_uaStatus _ _
  · rfl

theorem jsonUpdate_rewrites (B : Set Bool) (data : ReadData) (s : Name) (o : OpcServer) :
    Rewrites B o (jsonUpdate data s o) := by
  unfold jsonUpdate
  split_ifs
  · rw [OpcServer.readValue, OpcServer.readNumber_fst]
    exact refreshRawValue_rewrites B _ _ o
  · exact Rewrites.refl B o

theorem clientWrite_rewrites (B : Set Bool) (s : Name) (x : NumericU) (o : OpcServer) :
    Rewrites B o (o.clientWrite s x) :=
  Rewrites.of_status (OpcServer.clientWrite_touches s x o) fun t _ =>
    OpcServer.clientWrite_uaStatus s t x o

theorem modifyVar_write_rewrites (s : Name) (x : NumericU) (b : Bool) (o : OpcServer) :
    Rewrites {b} o
      (o.modifyVar s fun v => OpcServer.writeVariable (o.wrStatus s) x b { v with rawValue := x }) := by
  refine Rewrites.of_write (OpcServer.modifyVar_write_touches s x b o) ?_
  rw [OpcServer.modifyVar_val_self, writeVariable_good]

theorem writeRawUnion_rewrites (s : Name) (x : NumericU) (b : Bool) (o : OpcServer) :
    Rewrites {b} o (o.writeRawUnion s x b).1 := by
  unfold OpcServer.writeRawUnion
  split_ifs
  · exact modifyVar_write_rewrites s x b o
  · exact Rewrites.refl {b} o

theorem writeNumber_rewrites (s : Name) (x : NumericU) (b : Bool) (o : OpcServer) :
    Rewrites {b} o (o.writeNumber s x b).1 := by
  unfold OpcServer.writeNumber
  split_ifs
  · exact modifyVar_write_rewrites s x b o
  · exact Rewrites.refl {b} o

theorem writeValue_rewrites (data : Option NumericU) (s : Name) (x : NumericU) (o : OpcServer) :
    Rewrites {true} o (OpcServer.writeValue data s x true o) := by
  rw [OpcServer.writeValue, OpcServer.updateVar]
  dsimp only
  rw [OpcServer.readNumber_fst]
  exact (refreshRawValue_rewrites _ _ _ o).trans (writeNumber_rewrites _ x true _)

theorem refresh_rewrites {B : Set Bool} {t : Turn} (h : (!t.plcErr) ∈ B) (data : ReadData) :
    Rewrites B t.opcs (t.refresh data).1.opcs := by
  unfold Turn.refresh
  dsimp only
  refine Rewrites.trans ?_ (jsonUpdate_rewrites B _ _ _)
  split_ifs
  · exact Rewrites.refl B t.opcs
  · rw [Turn.refreshModbus_opcs]
    split_ifs
    · exact (writeRawUnion_rewrites _ _ _ _).mono (Set.singleton_subset_iff.mpr h)
    · exact Rewrites.refl B t.opcs

/-- `I` is what the rounds keep of the registers and what decides about the flags. -/
theorem refreshEntries_rewrites {B : Set Bool} {I : PlcVec → Prop}
    (hI : ∀ P plcs plcs', PlcVec.Writes P plcs plcs' → I plcs → I plcs')
    (hB : ∀ t : Turn, I t.plcs → (!t.plcErr) ∈ B) (data : ReadData) (ns : List Name)
    {g : Gateway} (hg : I g.plcs) : Rewrites B g.opcs (g.refreshEntries data ns).1.opcs := by
  induction ns generalizing g with
  | nil => exact Rewrites.refl B g.opcs
  | cons n ns ih =>
      have hhead : Rewrites B g.opcs (g.refreshEntry data n).1.opcs :=
        refresh_rewrites (hB (g.turn n) hg) data
      exact hhead.trans (ih (hI _ _ _ (Gateway.refreshEntry_frame data n g).plcs hg))

def Healthy (plcs : PlcVec) : Prop := ∀ q, (plcs.data q).rerrors = 0

theorem Healthy.plcErr {t : Turn} (h : Healthy t.plcs) : t.plcErr = false :=
  Turn.plcErr_eq_false.mpr (RegDef.getPlcErrors_eq_zero.mpr fun _ _ p _ => h p)

/-- A pass over healthy registers writes good statuses only. -/
theorem healthy_pass_rewrites {g : Gateway} (h : Healthy g.plcs) (data : ReadData) :
    Rewrites {true} g.opcs (g.taskRegsRefresh data).1.opcs := by
  refine refreshEntries_rewrites (I := Healthy) (fun P plcs plcs' hw hp q => ?_) (fun t ht => ?_)
    data g.regmap.keys h
  · rw [hw.errors, hp q]
  · rw [ht.plcErr]
    rfl

theorem step_rewrites (s : System) (e : Event) :
    Rewrites Set.univ s.gateway.opcs (step s e).gateway.opcs := by
  cases e with
  | clientWrite n x => exact clientWrite_rewrites _ n x _
  | writeValue n x data => exact (writeValue_rewrites data n x _).mono (Set.subset_univ _)
  | refreshAll data => exact refreshAllValues_rewrites _ data _
  | pass data =>
      exact refreshEntries_rewrites (I := fun _ => True) (fun _ _ _ _ _ => trivial)
        (fun _ _ => Set.mem_univ _) data s.gateway.regmap.keys trivial
  | poll i env => exact Rewrites.refl _ _
  | writeOut i env => exact Rewrites.refl _ _

theorem cfgInitPlcregs_rerrors (ts : List RegTuple) {m : ModbusPLC}
    (hm : ∀ a, (m.regs.val a).data.rerrors = 0) (a : ℤ) :
    ((cfgInitPlcregs ts m).regs.val a).data.rerrors = 0 := by
  induction ts generalizing m with
  | nil => exact hm a
  | cons t ts ih =>
      refine ih fun b => ?_
      by_cases hb : b = t.raddr
      · subst hb
        simp [RegTuple.reg]
      · simp [KeyedMap.insert_val_of_ne _ hb, hm b]

theorem cfgInitPlcset_healthy (listPLC : List Name) (gs : List PlcGroup) :
    Healthy (cfgInitPlcset listPLC gs).vec := by
  intro q
  have hnew : ∀ name port attempts b,
      ((newPlc name port attempts).regs.val b).data.rerrors = 0 := fun _ _ _ _ => rfl
  unfold PlcVec.data PlcSet.vec
  split
  · rename_i D hD
    obtain ⟨s, -, rfl⟩ := List.mem_map.mp (List.mem_of_getElem? hD)
    exact cfgInitPlcregs_rerrors s.regs (hnew _ _ _) q.raddr
  · exact hnew [] 0 0 q.raddr

/-- A pass leaves an entry that has a null pointer with a variable that is not good. -/
def NotGood (n : Name) (s : System) : Event → Prop
  | .pass data => (∃ i < (s.gateway.regmap.val n).prop.rsize,
      (s.gateway.regmap.val n).ptrReg i = none) → good n (step s (.pass data)) = false
  | _ => True

/-- The server has no variable `t`, or refuses to write to it. -/
def Refused (t : Name) (o : OpcServer) : Prop :=
  o.isVariable t = true → o.wrStatus t ≠ statusGood ∧ (o.vars.val t).uaStatus ≠ statusGood

theorem Refused.rewrites {t : Name} {B : Set Bool} {o o' : OpcServer} (h : Refused t o)
    (hr : Rewrites B o o') : Refused t o' := by
  intro hv
  rw [hr.isVariable] at hv
  obtain ⟨hwr, hst⟩ := h hv
  rw [hr.wrStatus]
  refine ⟨hwr, ?_⟩
  rcases hr.uaStatus t with hsame | ⟨b, -, hgood⟩
  · rwa [hsame]
  · exact fun hc => hwr (hgood.mp hc).2

theorem good_eq_false {n : Name} {s : System} : good n s = false ↔
    (s.gateway.opcs.isVariable (s.gateway.regmap.val n).strOpcname = true →
      (s.gateway.opcs.vars.val (s.gateway.regmap.val n).strOpcname).uaStatus ≠ statusGood) := by
  simp [good, OpcServer.isGood]

section
variable {wrStatus : Name → StatusCode} {beyond : Name → NumericU} {c : Config} {g : Gateway}

theorem initAll_healthy (h : initAll wrStatus beyond c = some g) : Healthy g.plcs := by
  obtain ⟨P, R, hr, hplcs, -, -⟩ := initAll_cases h
  rw [hplcs, (cfgMaster_eq hr).1]
  exact cfgInitPlcset_healthy _ _

/-- The first pass leaves every variable good that was good after loading. -/
theorem firstPass_good (h : initAll wrStatus beyond c = some g) (devices : ℕ → ℤ → Word)
    {n : Name} (hn : good n ⟨g, devices⟩ = true) (data : ReadData) :
    good n (step ⟨g, devices⟩ (.pass data)) = true := by
  have hr := healthy_pass_rewrites (initAll_healthy h) data
  have hdef := (step_sameConfig ⟨g, devices⟩ (.pass data)).defs n
  simp only [good, OpcServer.isGood, hdef, Bool.and_eq_true, beq_iff_eq] at hn ⊢
  obtain ⟨hv, hst⟩ := hn
  refine ⟨(hr.isVariable _).trans hv, ?_⟩
  rcases hr.uaStatus (g.regmap.val n).strOpcname with hsame | ⟨b, hb, hgood⟩
  · exact hsame.trans hst
  · exact hgood.mpr ⟨hb, (initAll_written h _ hv).mp hst⟩

/-- Only passes have to show anything. -/
theorem notGood_of_pass {n : Name} {s : System} (h : ∀ data, NotGood n s (.pass data)) (e : Event) :
    NotGood n s e := by
  cases e with
  | pass data => exact h data
  | clientWrite t x => trivial
  | writeValue t x data => trivial
  | refreshAll data => trivial
  | poll i env => trivial
  | writeOut i env => trivial

/-- No event gives an entry another pointer. -/
theorem along_notGood_of_full {n : Name} {s : System}
    (h : ∀ i < (s.gateway.regmap.val n).prop.rsize, (s.gateway.regmap.val n).ptrReg i ≠ none)
    (es : List Event) : Runs.Along step (NotGood n) s es := by
  refine Runs.along_of_invariant (I := fun s' => s.gateway.SameConfig s'.gateway)
    (fun s' e hs => notGood_of_pass (fun data => ?_) e)
    (fun s' e hs => hs.trans (step_sameConfig s' e)) es (Gateway.SameConfig.refl _)
  rintro ⟨i, hi, hnone⟩
  rw [hs.defs n] at hi hnone
  exact absurd hnone (h i hi)

/-- No event makes a variable good that refuses the writes. -/
theorem along_notGood_of_refused {n : Name} {s : System}
    (h : Refused (s.gateway.regmap.val n).strOpcname s.gateway.opcs) (es : List Event) :
    Runs.Along step (NotGood n) s es := by
  refine Runs.along_of_invariant (I := fun s' => s.gateway.SameConfig s'.gateway ∧
      Refused (s.gateway.regmap.val n).strOpcname s'.gateway.opcs)
    (fun s' e hs => notGood_of_pass (fun data => ?_) e)
    (fun s' e hs => ⟨hs.1.trans (step_sameConfig s' e), hs.2.rewrites (step_rewrites s' e)⟩) es
    ⟨Gateway.SameConfig.refl _, h⟩
  intro _
  have hdef := (hs.1.trans (step_sameConfig s' (.pass data))).defs n
  rw [good_eq_false, hdef]
  exact fun hv => (hs.2.rewrites (step_rewrites s' (.pass data)) hv).2

/-- What is not good after loading refuses the writes. -/
theorem initAll_refused (h : initAll wrStatus beyond c = some g) {devices : ℕ → ℤ → Word} {n : Name}
    (hbad : good n ⟨g, devices⟩ = false) : Refused (g.regmap.val n).strOpcname g.opcs := by
  intro hv
  have hst := good_eq_false.mp hbad hv
  exact ⟨fun hwr => hst ((initAll_written h _ hv).mpr hwr), hst⟩

/-- In every run from a load, every pass leaves an entry with a null pointer not good
exactly if the entry has none, or its variable is not good from the start. -/
theorem along_notGood_iff (h : initAll wrStatus beyond c = some g) (devices : ℕ → ℤ → Word)
    (n : Name) : (∀ es, Runs.Along step (NotGood n) ⟨g, devices⟩ es) ↔
      (∀ i < (g.regmap.val n).prop.rsize, (g.regmap.val n).ptrReg i ≠ none) ∨
        good n ⟨g, devices⟩ = false := by
  constructor
  · intro hrun
    rcases hgood : good n ⟨g, devices⟩ with _ | _
    · exact Or.inr rfl
    · -- the very first pass shows the difference
      refine Or.inl fun i hi hnone => ?_
      obtain ⟨hpass, -⟩ := hrun [.pass fun _ => none]
      have hfirst := firstPass_good h devices hgood fun _ => none
      rw [hpass ⟨i, hi, hnone⟩] at hfirst
      exact Bool.noConfusion hfirst
  · rintro (hptr | hbad) es
    · exact along_notGood_of_full hptr es
    · exact along_notGood_of_refused (initAll_refused h hbad) es

/-- An entry whose pointers are all null has no errors to count. -/
theorem errors_of_null {n : Name} {s : System}
    (h : ∀ i, (s.gateway.regmap.val n).ptrReg i = none) : errors n s = 0 := by
  refine RegDef.getPlcErrors_eq_zero.mpr fun i _ p hp => ?_
  unfold RegDef.source at hp
  split_ifs at hp
  rw [h i] at hp
  exact absurd hp.symm (Option.some_ne_none p)

/-- What is published in the place of a missing source. -/
def Good (n : Name) (s : System) : Event → Prop
  | .pass data => good n (step s (.pass data)) = true
  | _ => True

/-- In every run, an entry without a register that has its variable to itself is good
after every pass. -/
theorem along_good_of_null {n : Name} {s : System} (h : Start n s)
    (hnull : ∀ i, (s.gateway.regmap.val n).ptrReg i = none) (es : List Event) :
    Runs.Along step (Good n) s es := by
  refine Runs.along_of_invariant
    (I := fun s => Inv n s ∧ ∀ i, (s.gateway.regmap.val n).ptrReg i = none) (fun s e hs => ?_)
    (fun s e hs => ⟨hs.1.step e, ?_⟩) es ⟨h.inv, hnull⟩
  · cases e with
    | pass data =>
        exact (good_iff (hs.1.step (.pass data)).own).mpr
          (pass_good hs.1 data (errors_of_null hs.2))
    | clientWrite t x => trivial
    | writeValue t x data => trivial
    | refreshAll data => trivial
    | poll i env => trivial
    | writeOut i env => trivial
  · rw [(step_sameConfig s e).defs n]
    exact hs.2

/-- After a load, one null pointer means that all of them are null, and nothing is
recorded against the entry yet. -/
theorem initAll_null (h : initAll wrStatus beyond c = some g) {n : Name} (hn : n ∈ g.regmap.keys)
    (hkind : (g.regmap.val n).kind ≠ .scada)
    (hnull : ∃ i < (g.regmap.val n).prop.rsize, (g.regmap.val n).ptrReg i = none) :
    (∀ i, (g.regmap.val n).ptrReg i = none) ∧ (g.regmap.val n).varErrors = 0 := by
  obtain ⟨P, R, hr, -, hmap, -⟩ := initAll_cases h
  rw [hmap] at hn hkind hnull ⊢
  have hsound := cfgMaster_sound hr n hn
  obtain ⟨i, hi, hnone⟩ := hnull
  have hall : ∀ j, (R.val n).ptrReg j = none :=
    (hsound.pointers hkind).resolve_left fun hsome => hsome i hi hnone
  refine ⟨hall, hsound.fresh fun hmodbus => ?_⟩
  obtain ⟨p, hp, -⟩ := hsound.modbus hmodbus
  rw [hall 0] at hp
  exact absurd hp.symm (Option.some_ne_none p)

/-- After a load whose server takes the writes, an entry with a null pointer that has
its variable to itself is good after every pass of every run. -/
theorem along_good_of_load (h : initAll wrStatus beyond c = some g) (devices : ℕ → ℤ → Word)
    {n : Name} (hown : g.OwnVariable n) (hkind : (g.regmap.val n).kind ≠ .scada)
    (hwr : g.opcs.wrStatus (g.regmap.val n).strOpcname = statusGood)
    (hnull : ∃ i < (g.regmap.val n).prop.rsize, (g.regmap.val n).ptrReg i = none)
    (es : List Event) : Runs.Along step (Good n) ⟨g, devices⟩ es := by
  obtain ⟨hall, hfresh⟩ := initAll_null h hown.mem hkind hnull
  have hstart : Start n ⟨g, devices⟩ :=
    ⟨hown, hkind, hwr, (initAll_written h _ hown.isVar).mpr hwr, hfresh⟩
  exact along_good_of_null hstart hall es

end

/-- `b` names `a` as its source, and `a` has none. -/
def nullRef : Config where
  plcList := allPlcs
  plcs := []
  scadaList := allPlcs
  scada := [smallSet [] [⟨['a'], ['r'], ['u'], none, none⟩,
    ⟨['b'], ['r'], ['u'], some [], some ['a']⟩]]

def nullRefGateway : Gateway := gatewayOf nullRef rfl

theorem along_notGood_nullRef : ¬ ∀ es,
    Runs.Along step (NotGood ['b']) ⟨nullRefGateway, fun _ _ => 0⟩ es := by
  intro hrun
  have hiff := along_notGood_iff (gatewayOf_loads nullRef rfl) (fun _ _ => 0) ['b']
  exact absurd (hiff.mp hrun) (by decide)

/-- The first pass leaves the variable of `b` good. -/
theorem notGood_fails : ¬ ∀ (wrStatus : Name → StatusCode) (beyond : Name → NumericU) (c : Config)
    (g : Gateway), initAll wrStatus beyond c = some g → ∀ n ∈ g.regmap.keys,
    (g.regmap.val n).kind ≠ .scada → ∀ (devices : ℕ → ℤ → Word) (es : List Event),
    Runs.Along step (NotGood n) ⟨g, devices⟩ es := by
  intro h
  obtain ⟨hpass, -⟩ := h accepts zeroes nullRef _ (gatewayOf_loads nullRef rfl) ['b'] (by decide)
    (by decide) (fun _ _ => 0) [.pass fun _ => none]
  exact absurd (hpass ⟨0, by decide, by decide⟩) (by decide)

end RwModbus.NullSource
