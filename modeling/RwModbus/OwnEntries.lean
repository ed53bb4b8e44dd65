import RwModbus.SourceWalk

/-!
# One entry for every register and variable

Both loaders assign to `REGmap` under a joined name without looking whether it is
taken, and PLC registers are first stored by address. So a tuple keeps its entry if
addresses are distinct within a device and the joined names are distinct overall.
-/
namespace RwModbus.Loader
open Numeric Registers Reg Master

/-- A tuple of a loaded PLC. -/
structure PlcReg where
  plc : ℕ
  settings : PlcSettings
  tuple : RegTuple

namespace PlcReg

def key (r : PlcReg) : Name := r.settings.name ++ '.' :: r.tuple.rname

def ptr (r : PlcReg) : RegPtr := ⟨r.plc, r.tuple.raddr⟩

end PlcReg

def plcRegs (ss : List PlcSettings) : List PlcReg :=
  ss.zipIdx.flatMap fun s => s.1.regs.map fun t => ⟨s.2, s.1, t⟩

/-- The variables that are accepted, if the given names have entries before them. -/
def acceptedVars : List Name → List ScadaVar → List ScadaVar
  | _, [] => []
  | known, v :: vs =>
      if Accepted known v then v :: acceptedVars (v.key :: known) vs else acceptedVars known vs

/-- Addresses are distinct within every device and full names are distinct overall. -/
structure Distinct (c : Config) : Prop where
  addresses : ∀ s ∈ loadedPlcs c.plcList c.plcs, (s.regs.map RegTuple.raddr).Nodup
  keys : let regs := (plcRegs (loadedPlcs c.plcList c.plcs)).map PlcReg.key
    (regs ++ (acceptedVars regs (scadaVars c.scada)).map ScadaVar.key).Nodup

/-- The entry under the tuple's full name is the one of its register. -/
structure RegisterOwned (P : PlcSet) (R : Regmap) (r : PlcReg) : Prop where
  mem : r.key ∈ R.keys
  entry : R.val r.key = modbusEntry P r.settings.plc r.ptr
  register : (r.settings.plc.regs.val r.tuple.raddr).strRname = r.tuple.rname

/-- The entry is what the constructor makes of the tuple. -/
def BuiltFrom (P : PlcSet) (v : ScadaVar) (e : Entry) : Prop :=
  ∃ src prop row d, checkType v.rtype = some ⟨prop, row⟩ ∧ construct P src v prop row = some d ∧
    e = scadaEntry v d

/-- Every configured register and every accepted variable has an entry of its own. -/
structure Owned (c : Config) (P : PlcSet) (R : Regmap) : Prop where
  registers : ∀ r ∈ plcRegs (loadedPlcs c.plcList c.plcs), RegisterOwned P R r
  vars : ∀ v ∈ acceptedVars (regsCreateFromPlc P).keys (scadaVars c.scada),
    v.key ∈ R.keys ∧ BuiltFrom P v (R.val v.key)

theorem cfgInitPlcregs_regs (ts : List RegTuple) (m : ModbusPLC) :
    (cfgInitPlcregs ts m).regs = m.regs.insertAll (ts.map fun t => (t.raddr, t.reg)) ∧
      (cfgInitPlcregs ts m).strDevName = m.strDevName := by
  induction ts generalizing m with
  | nil => exact ⟨rfl, rfl⟩
  | cons t ts ih => exact ih _

theorem mem_plc_keys {s : PlcSettings} {a : ℤ} :
    a ∈ s.plc.regs.keys ↔ a ∈ s.regs.map RegTuple.raddr := by
  have hregs := (cfgInitPlcregs_regs s.regs (newPlc s.name s.port s.attempts)).1
  simp only [PlcSettings.plc, initRegs, KeyedMap.mapVals_keys, hregs, KeyedMap.mem_insertAll_keys,
    List.map_map]
  exact or_iff_right List.not_mem_nil

theorem plc_rfullname (s : PlcSettings) (a : ℤ) : (s.plc.regs.val a).rfullname =
    s.name ++ '.' :: (s.plc.regs.val a).strRname := by
  have hname := (cfgInitPlcregs_regs s.regs (newPlc s.name s.port s.attempts)).2
  simp only [PlcSettings.plc, initRegs, KeyedMap.mapVals_val, hname]
  rfl

/-- The register at a configured address comes from a tuple with that address. -/
theorem plc_strRname {s : PlcSettings} {a : ℤ} (ha : a ∈ s.plc.regs.keys) :
    ∃ t ∈ s.regs, t.raddr = a ∧ (s.plc.regs.val a).strRname = t.rname := by
  have hregs := (cfgInitPlcregs_regs s.regs (newPlc s.name s.port s.attempts)).1
  have hmem : a ∈ (s.regs.map fun t => (t.raddr, t.reg)).map Prod.fst := by
    rw [List.map_map]
    exact mem_plc_keys.mp ha
  have hval := KeyedMap.insertAll_val_mem hmem (newPlc s.name s.port s.attempts).regs
  obtain ⟨t, ht, heq⟩ := List.mem_map.mp hval
  obtain ⟨haddr, hreg⟩ := Prod.mk.injEq .. ▸ heq
  refine ⟨t, ht, haddr, ?_⟩
  simp only [PlcSettings.plc, initRegs, KeyedMap.mapVals_val, hregs, ← hreg]
  rfl

theorem mem_plcRegs {ss : List PlcSettings} {r : PlcReg} :
    r ∈ plcRegs ss ↔ ss[r.plc]? = some r.settings ∧ r.tuple ∈ r.settings.regs := by
  simp only [plcRegs, List.mem_flatMap, List.mem_map, Prod.exists, List.mk_mem_zipIdx_iff_getElem?]
  constructor
  · rintro ⟨s, i, hs, t, ht, rfl⟩
    exact ⟨hs, ht⟩
  · rintro ⟨hs, ht⟩
    exact ⟨r.settings, r.plc, hs, r.tuple, ht, rfl⟩

theorem plc_strRname_of_nodup {s : PlcSettings} (hs : (s.regs.map RegTuple.raddr).Nodup)
    {t : RegTuple} (ht : t ∈ s.regs) : (s.plc.regs.val t.raddr).strRname = t.rname := by
  obtain ⟨t', ht', haddr, hname⟩ := plc_strRname (mem_plc_keys.mpr (List.mem_map_of_mem ht))
  rw [hname, List.inj_on_of_nodup_map hs ht' ht haddr]

section
variable {listPLC : List Name} {gs : List PlcGroup}

theorem mem_cfgInitPlcset {i : ℕ} {D : Plc} : (cfgInitPlcset listPLC gs).elems[i]? = some D ↔
    ∃ s, (loadedPlcs listPLC gs)[i]? = some s ∧ s.plc = D := by
  rw [cfgInitPlcset, List.getElem?_map, Option.map_eq_some_iff]

/-- Every assignment of `regs_create_from_plc` is for some tuple that was not replaced. -/
theorem reg_of_mem_modbusEntries {k : Name} {e : Entry}
    (h : (k, e) ∈ modbusEntries (cfgInitPlcset listPLC gs)) :
    ∃ r ∈ plcRegs (loadedPlcs listPLC gs), k = r.key ∧
      e = modbusEntry (cfgInitPlcset listPLC gs) r.settings.plc r.ptr ∧
      (r.settings.plc.regs.val r.tuple.raddr).strRname = r.tuple.rname := by
  obtain ⟨i, D, hD, a, ha, rfl, rfl⟩ := mem_modbusEntries.mp h
  obtain ⟨s, hs, rfl⟩ := mem_cfgInitPlcset.mp hD
  obtain ⟨t, ht, rfl, hname⟩ := plc_strRname ha
  refine ⟨⟨i, s, t⟩, mem_plcRegs.mpr ⟨hs, ht⟩, ?_, rfl, hname⟩
  rw [plc_rfullname, hname]
  rfl

/-- With distinct addresses, every tuple has one. -/
theorem mem_modbusEntries_of_reg
    (ha : ∀ s ∈ loadedPlcs listPLC gs, (s.regs.map RegTuple.raddr).Nodup) {r : PlcReg}
    (hr : r ∈ plcRegs (loadedPlcs listPLC gs)) :
    (r.key, modbusEntry (cfgInitPlcset listPLC gs) r.settings.plc r.ptr) ∈
      modbusEntries (cfgInitPlcset listPLC gs) := by
  obtain ⟨hs, ht⟩ := mem_plcRegs.mp hr
  refine mem_modbusEntries.mpr ⟨r.plc, r.settings.plc, mem_cfgInitPlcset.mpr ⟨_, hs, rfl⟩,
    r.tuple.raddr, mem_plc_keys.mpr (List.mem_map_of_mem ht), ?_, rfl⟩
  rw [plc_rfullname, plc_strRname_of_nodup (ha _ (List.mem_of_getElem? hs)) ht]
  rfl

theorem mem_regsCreateFromPlc_keys {P : PlcSet} {k : Name} :
    k ∈ (regsCreateFromPlc P).keys ↔ k ∈ (modbusEntries P).map Prod.fst := by
  rw [regsCreateFromPlc, KeyedMap.mem_insertAll_keys]
  exact or_iff_right List.not_mem_nil

theorem mem_keys_iff_reg (ha : ∀ s ∈ loadedPlcs listPLC gs, (s.regs.map RegTuple.raddr).Nodup)
    {k : Name} : k ∈ (regsCreateFromPlc (cfgInitPlcset listPLC gs)).keys ↔
      k ∈ (plcRegs (loadedPlcs listPLC gs)).map PlcReg.key := by
  rw [mem_regsCreateFromPlc_keys, List.mem_map, List.mem_map]
  constructor
  · rintro ⟨⟨j, e⟩, hmem, rfl⟩
    obtain ⟨r, hr, hkey, -, -⟩ := reg_of_mem_modbusEntries hmem
    exact ⟨r, hr, hkey.symm⟩
  · rintro ⟨r, hr, rfl⟩
    exact ⟨_, mem_modbusEntries_of_reg ha hr, rfl⟩

end

theorem acceptedVars_congr {known known' : List Name} (h : ∀ x, x ∈ known ↔ x ∈ known')
    (vs : List ScadaVar) : acceptedVars known vs = acceptedVars known' vs := by
  induction vs generalizing known known' with
  | nil => rfl
  | cons v vs ih =>
      have hcons : ∀ x, x ∈ v.key :: known ↔ x ∈ v.key :: known' := by
        intro x
        rw [List.mem_cons, List.mem_cons, h]
      have hacc : Accepted known v ↔ Accepted known' v := by simp only [Accepted, h]
      simp only [acceptedVars, hacc, ih h, ih hcons]

theorem acceptedVars_sublist (known : List Name) (vs : List ScadaVar) :
    (acceptedVars known vs).Sublist vs := by
  induction vs generalizing known with
  | nil => exact List.Sublist.refl _
  | cons v vs ih =>
      unfold acceptedVars
      split_ifs
      · exact (ih _).cons_cons v
      · exact (ih _).cons v

/-- The loop over the variables is a list of assignments, one for each accepted one. -/
theorem cfgInitScadavars_log {P : PlcSet} {vs : List ScadaVar} {R R' : Regmap}
    (h : cfgInitScadavars P vs R = some R') : ∃ log : List (Name × Entry), R' = R.insertAll log ∧
      (∀ x ∈ log, ∃ v ∈ acceptedVars R.keys vs, x.1 = v.key ∧ BuiltFrom P v x.2) ∧
      ∀ v ∈ acceptedVars R.keys vs, v.key ∈ log.map Prod.fst := by
  induction vs generalizing R with
  | nil =>
      obtain rfl : R = R' := by simpa [cfgInitScadavars] using h
      exact ⟨[], rfl, fun _ hx => absurd hx List.not_mem_nil,
        fun _ hv => absurd hv List.not_mem_nil⟩
  | cons v vs ih =>
      rw [cfgInitScadavars, List.foldlM_cons, Option.bind_eq_bind, Option.bind_eq_some_iff] at h
      obtain ⟨R₁, hhead, htail⟩ := h
      obtain ⟨log, rfl, hfrom, hto⟩ := ih htail
      by_cases hacc : Accepted R.keys v
      · obtain ⟨⟨prop, row⟩, htype⟩ := Option.isSome_iff_exists.mp hacc.2
        rw [scadaVar_of_accepted hacc.1 htype, Option.map_eq_some_iff] at hhead
        obtain ⟨d, hd, rfl⟩ := hhead
        have hkeys : ∀ x, x ∈ (R.insert v.key (scadaEntry v d)).keys ↔ x ∈ v.key :: R.keys := by
          intro x
          rw [KeyedMap.mem_insert_keys, List.mem_cons]
        rw [acceptedVars_congr hkeys] at hfrom hto
        rw [acceptedVars, if_pos hacc]
        refine ⟨(v.key, scadaEntry v d) :: log, rfl, fun x hx => ?_, fun w hw => ?_⟩
        · rcases List.mem_cons.mp hx with rfl | hx
          · exact ⟨v, List.mem_cons_self, rfl, _, prop, row, d, htype, hd, rfl⟩
          · obtain ⟨w, hw, hxw⟩ := hfrom x hx
            exact ⟨w, List.mem_cons_of_mem v hw, hxw⟩
        · rw [List.map_cons, List.mem_cons]
          rcases List.mem_cons.mp hw with rfl | hw
          · exact Or.inl rfl
          · exact Or.inr (hto w hw)
      · rw [scadaVar_of_not_accepted hacc] at hhead
        obtain rfl := Option.some.inj hhead
        rw [acceptedVars, if_neg hacc]
        exact ⟨log, rfl, hfrom, hto⟩

theorem zipIdx_pairwise {α : Type} (l : List α) : l.zipIdx.Pairwise fun x y => x.2 ≠ y.2 := by
  rw [← List.pairwise_map (f := Prod.snd) (R := (· ≠ ·)), List.zipIdx_map_snd]
  exact List.nodup_range'

theorem tuples_origin (g : ScadaGroup) (i : ℕ) : ((g.tuples i).map ScadaVar.origin).Nodup ∧
    ∀ v ∈ g.tuples i, v.origin.1 = i := by
  unfold ScadaGroup.tuples
  split
  · constructor
    · rw [List.map_map]
      exact List.pairwise_map.mpr
        ((zipIdx_pairwise g.vars).imp fun hne heq => hne (Prod.mk.inj heq).2)
    · intro v hv
      obtain ⟨t, -, rfl⟩ := List.mem_map.mp hv
      rfl
  · exact ⟨List.nodup_nil, fun v hv => absurd hv List.not_mem_nil⟩

/-- No two tuples have the same position. -/
theorem scadaVars_origin (gs : List ScadaGroup) : ((scadaVars gs).map ScadaVar.origin).Nodup := by
  rw [scadaVars, List.map_flatMap, List.nodup_flatMap]
  refine ⟨fun g _ => (tuples_origin g.1 g.2).1, ?_⟩
  refine (zipIdx_pairwise gs).imp fun {g g'} hne o ho ho' => hne ?_
  obtain ⟨v, hv, rfl⟩ := List.mem_map.mp ho
  obtain ⟨w, hw, hvw⟩ := List.mem_map.mp ho'
  rw [← (tuples_origin g.1 g.2).2 v hv, ← hvw, (tuples_origin g'.1 g'.2).2 w hw]

theorem plcRegs_nodup {ss : List PlcSettings} (hs : ∀ s ∈ ss, s.regs.Nodup) : (plcRegs ss).Nodup := by
  rw [plcRegs, List.nodup_flatMap]
  constructor
  · rintro ⟨s, i⟩ hsi
    have hmem : s ∈ ss := List.mem_of_getElem? (List.mk_mem_zipIdx_iff_getElem?.mp hsi)
    exact (hs s hmem).map fun t t' h => congrArg PlcReg.tuple h
  · refine (zipIdx_pairwise ss).imp fun {s s'} hne r hr hr' => hne ?_
    obtain ⟨t, -, rfl⟩ := List.mem_map.mp hr
    obtain ⟨t', -, heq⟩ := List.mem_map.mp hr'
    exact (congrArg PlcReg.plc heq).symm

/-- With distinct addresses, a pointer belongs to one tuple. -/
theorem eq_of_ptr {ss : List PlcSettings} (hs : ∀ s ∈ ss, (s.regs.map RegTuple.raddr).Nodup)
    {r r' : PlcReg} (hr : r ∈ plcRegs ss) (hr' : r' ∈ plcRegs ss) (h : r.ptr = r'.ptr) : r = r' := by
  obtain ⟨i, s, t⟩ := r
  obtain ⟨i', s', t'⟩ := r'
  obtain ⟨his, ht⟩ := mem_plcRegs.mp hr
  obtain ⟨his', ht'⟩ := mem_plcRegs.mp hr'
  simp only [PlcReg.ptr, RegPtr.mk.injEq] at h his his' ht ht'
  obtain ⟨rfl, hraddr⟩ := h
  obtain rfl : s = s' := by simpa [his] using his'
  rw [List.inj_on_of_nodup_map (hs s (List.mem_of_getElem? his)) ht ht' hraddr]

theorem BuiltFrom.origin {P : PlcSet} {v : ScadaVar} {e : Entry} (h : BuiltFrom P v e) :
    e.origin = some v.origin ∧ e.kind ≠ .modbus := by
  obtain ⟨src, prop, row, d, -, hd, rfl⟩ := h
  refine ⟨rfl, ?_⟩
  rcases construct_cases hd with ⟨-, rfl⟩ | ⟨-, rfl, -⟩
  · simp [scadaEntry, RegDef.ofScada]
  · simp [scadaEntry, RegDef.ofSource]

theorem RegisterOwned.pointer {P : PlcSet} {R : Regmap} {r : PlcReg} (h : RegisterOwned P R r) :
    (R.val r.key).ptrReg 0 = some r.ptr ∧ (R.val r.key).kind = .modbus := by
  rw [h.entry, modbusEntry_toRegDef]
  exact ⟨rfl, rfl⟩

section
variable {c : Config} {P : PlcSet} {R : Regmap}

theorem Distinct.known (h : Distinct c) :
    acceptedVars (regsCreateFromPlc (cfgInitPlcset c.plcList c.plcs)).keys (scadaVars c.scada) =
      acceptedVars ((plcRegs (loadedPlcs c.plcList c.plcs)).map PlcReg.key) (scadaVars c.scada) :=
  acceptedVars_congr (fun _ => mem_keys_iff_reg h.addresses) _

/-- Both loaders together are one list of assignments. -/
theorem cfgMaster_log (h : cfgMaster c = some (P, R)) : ∃ log : List (Name × Entry),
    R = noEntries.insertAll (modbusEntries P ++ log) ∧
    (∀ x ∈ log, ∃ v ∈ acceptedVars (regsCreateFromPlc P).keys (scadaVars c.scada),
      x.1 = v.key ∧ BuiltFrom P v x.2) ∧
    ∀ v ∈ acceptedVars (regsCreateFromPlc P).keys (scadaVars c.scada), v.key ∈ log.map Prod.fst := by
  obtain ⟨log, hR, hlog⟩ := cfgInitScadavars_log (cfgMaster_eq h).2
  refine ⟨log, ?_, hlog⟩
  rw [KeyedMap.insertAll_append]
  exact hR

/-- With distinct addresses and names, the assignment to a name is the only one. -/
theorem owned_of_distinct (h : cfgMaster c = some (P, R)) (hd : Distinct c) : Owned c P R := by
  obtain ⟨log, rfl, hfrom, hto⟩ := cfgMaster_log h
  obtain ⟨rfl, -⟩ := cfgMaster_eq h
  obtain ⟨hregs, hscada, hdisj⟩ := List.nodup_append'.mp hd.keys
  rw [hd.known] at hfrom hto
  constructor
  · intro r hr
    have hkey : r.key ∈ (modbusEntries (cfgInitPlcset c.plcList c.plcs) ++ log).map Prod.fst := by
      rw [List.map_append]
      exact List.mem_append_left _ (List.mem_map_of_mem (mem_modbusEntries_of_reg hd.addresses hr))
    have hown : r.key ∈ (plcRegs (loadedPlcs c.plcList c.plcs)).map PlcReg.key :=
      List.mem_map_of_mem hr
    obtain ⟨hin, hval⟩ := KeyedMap.insertAll_mem hkey noEntries
    rcases List.mem_append.mp hval with hval | hval
    · obtain ⟨r', hr', hkk, hent, hname⟩ := reg_of_mem_modbusEntries hval
      obtain rfl := List.inj_on_of_nodup_map hregs hr' hr hkk.symm
      exact ⟨hin, hent, hname⟩
    · obtain ⟨v, hv, hkk, -⟩ := hfrom _ hval
      exact absurd (hkk ▸ hown) fun hc => hdisj hc (List.mem_map_of_mem hv)
  · intro v hv
    rw [hd.known] at hv
    have hkey : v.key ∈ (modbusEntries (cfgInitPlcset c.plcList c.plcs) ++ log).map Prod.fst := by
      rw [List.map_append]
      exact List.mem_append_right _ (hto v hv)
    obtain ⟨hin, hval⟩ := KeyedMap.insertAll_mem hkey noEntries
    refine ⟨hin, ?_⟩
    rcases List.mem_append.mp hval with hval | hval
    · obtain ⟨r, hr, hkk, -, -⟩ := reg_of_mem_modbusEntries hval
      exact absurd (List.mem_map_of_mem hr) fun hc => hdisj hc (hkk ▸ List.mem_map_of_mem hv)
    · obtain ⟨w, hw, hkk, hbuilt⟩ := hfrom _ hval
      obtain rfl := List.inj_on_of_nodup_map hscada hw hv hkk.symm
      exact hbuilt

/-- Two tuples with one address cannot both be its register. -/
theorem Owned.addresses (ho : Owned c P R)
    (hnames : ∀ s ∈ loadedPlcs c.plcList c.plcs, (s.regs.map RegTuple.rname).Nodup) :
    ∀ s ∈ loadedPlcs c.plcList c.plcs, (s.regs.map RegTuple.raddr).Nodup := by
  intro s hs
  obtain ⟨i, hi⟩ := List.mem_iff_getElem?.mp hs
  refine (List.Nodup.of_map _ (hnames s hs)).map_on fun t ht t' ht' hraddr => ?_
  have hname := (ho.registers ⟨i, s, t⟩ (mem_plcRegs.mpr ⟨hi, ht⟩)).register
  have hname' := (ho.registers ⟨i, s, t'⟩ (mem_plcRegs.mpr ⟨hi, ht'⟩)).register
  dsimp only at hname hname'
  rw [hraddr, hname'] at hname
  exact List.inj_on_of_nodup_map (hnames s hs) ht ht' hname.symm

/-- Two registers with one name cannot both own its entry. -/
theorem Owned.registers_nodup (ho : Owned c P R)
    (haddr : ∀ s ∈ loadedPlcs c.plcList c.plcs, (s.regs.map RegTuple.raddr).Nodup) :
    ((plcRegs (loadedPlcs c.plcList c.plcs)).map PlcReg.key).Nodup := by
  refine (plcRegs_nodup fun s hs => List.Nodup.of_map _ (haddr s hs)).map_on
    fun r hr r' hr' hkey => ?_
  have hptr := (ho.registers r hr).pointer.1
  rw [hkey, (ho.registers r' hr').pointer.1] at hptr
  exact (eq_of_ptr haddr hr' hr (Option.some.inj hptr)).symm

/-- Nor can two variables. -/
theorem Owned.vars_nodup (ho : Owned c P R) :
    ((acceptedVars (regsCreateFromPlc P).keys (scadaVars c.scada)).map ScadaVar.key).Nodup := by
  have hsub := (acceptedVars_sublist (regsCreateFromPlc P).keys (scadaVars c.scada)).map
    ScadaVar.origin
  have horigin := hsub.nodup (scadaVars_origin c.scada)
  refine (List.Nodup.of_map _ horigin).map_on fun v hv w hw hkey => ?_
  have hv' := (ho.vars v hv).2.origin.1
  rw [hkey, (ho.vars w hw).2.origin.1] at hv'
  exact (List.inj_on_of_nodup_map horigin hw hv (Option.some.inj hv')).symm

/-- Nor can a register and a variable. -/
theorem Owned.disjoint (ho : Owned c P R) {r : PlcReg}
    (hr : r ∈ plcRegs (loadedPlcs c.plcList c.plcs)) {v : ScadaVar}
    (hv : v ∈ acceptedVars (regsCreateFromPlc P).keys (scadaVars c.scada)) : v.key ≠ r.key := by
  intro hkey
  have hkind := (ho.vars v hv).2.origin.2
  rw [hkey] at hkind
  exact hkind (ho.registers r hr).pointer.2

theorem distinct_of_owned (h : cfgMaster c = some (P, R))
    (hnames : ∀ s ∈ loadedPlcs c.plcList c.plcs, (s.regs.map RegTuple.rname).Nodup)
    (ho : Owned c P R) : Distinct c := by
  obtain ⟨rfl, -⟩ := cfgMaster_eq h
  have haddr := ho.addresses hnames
  refine ⟨haddr, ?_⟩
  dsimp only
  rw [acceptedVars_congr (fun _ => (mem_keys_iff_reg haddr).symm)]
  refine List.nodup_append'.mpr ⟨ho.registers_nodup haddr, ho.vars_nodup, fun k hk hk' => ?_⟩
  obtain ⟨r, hr, rfl⟩ := List.mem_map.mp hk
  obtain ⟨v, hv, hkey⟩ := List.mem_map.mp hk'
  exact ho.disjoint hr hv hkey

/-- After any load, every configured register and every accepted variable has an entry
of its own exactly if no address and no full name occurs twice. -/
theorem owned_iff (h : cfgMaster c = some (P, R))
    (hnames : ∀ s ∈ loadedPlcs c.plcList c.plcs, (s.regs.map RegTuple.rname).Nodup) :
    Owned c P R ↔ Distinct c :=
  ⟨distinct_of_owned h hnames, owned_of_distinct h⟩

end

def twoPlcs (name₁ reg₁ name₂ reg₂ : Name) : Config where
  plcList := allPlcs
  plcs := [smallGroup name₁ [⟨0, reg₁, ['r'], none⟩], smallGroup name₂ [⟨0, reg₂, ['r'], none⟩]]
  scadaList := allPlcs
  scada := []

def loadedOf (c : Config) (h : (cfgMaster c).isSome = true) : PlcSet × Regmap := (cfgMaster c).get h

theorem loadedOf_eq (c : Config) (h : (cfgMaster c).isSome = true) :
    cfgMaster c = some ((loadedOf c h).1, (loadedOf c h).2) := (Option.some_get h).symm

theorem owned_two : Owned (twoPlcs ['A'] ['a'] ['B'] ['a'])
    (loadedOf (twoPlcs ['A'] ['a'] ['B'] ['a']) rfl).1
    (loadedOf (twoPlcs ['A'] ['a'] ['B'] ['a']) rfl).2 :=
  (owned_iff (loadedOf_eq _ rfl) (by decide)).mpr ⟨by decide, by decide⟩

/-- Register `A.A` of `A` and register `A` of `A.A` are both `A.A.A`. -/
theorem owned_fails : ¬ ∀ (c : Config) (P : PlcSet) (R : Regmap), cfgMaster c = some (P, R) →
    ((loadedPlcs c.plcList c.plcs).map PlcSettings.name).Nodup →
    (∀ s ∈ loadedPlcs c.plcList c.plcs, (s.regs.map RegTuple.rname).Nodup) →
    (∀ g ∈ c.scada, (g.vars.map VarTuple.rname).Nodup) → Owned c P R := by
  intro h
  let c := twoPlcs ['A'] ['A', '.', 'A'] ['A', '.', 'A'] ['A']
  have hown := h c _ _ (loadedOf_eq c rfl) (by decide) (by decide) (by decide)
  have hfirst := (hown.registers
    ⟨0, ⟨['A'], ['P', 'L', 'C'], 502, 1, [⟨0, ['A', '.', 'A'], ['r'], none⟩]⟩,
      ⟨0, ['A', '.', 'A'], ['r'], none⟩⟩ (mem_plcRegs.mpr ⟨rfl, List.mem_singleton_self _⟩)).pointer.1
  exact absurd hfirst (by decide)

end RwModbus.Loader
