import RwModbus.PlcStorage

/-!
# Which entries the two loaders configure

`cfg_init_plcset` and `cfg_init_scadaset` read the list in the same way but for the
word that stands for all entries. In the loop only the first one looks at what it
has read.
-/
namespace RwModbus.Loader
open Registers

/-- What a loader reads from its list. Without a check `PLClst` is empty. -/
structure Selection where
  isCheckName : Bool
  PLClst : List Name

/-- The list as `cfg_init_plcset` reads it. -/
def plcSelection (listPLC : List Name) : Selection :=
  if listPLC.head? = some ['a', 'l', 'l'] ∨ listPLC.head? = some ['A', 'L', 'L'] then ⟨false, []⟩
  else ⟨true, listPLC⟩

def isAll (p0 : Name) : Prop := p0.map Char.toLower = ['a', 'l', 'l']

instance (p0 : Name) : Decidable (isAll p0) :=
  inferInstanceAs (Decidable (p0.map Char.toLower = ['a', 'l', 'l']))

/-- The list as `cfg_init_scadaset` reads it. -/
def scadaSelection (listPLC : List Name) : Selection :=
  if ∃ p0 ∈ listPLC.head?, isAll p0 then ⟨false, []⟩ else ⟨true, listPLC⟩

/-- The test in the loop of `cfg_init_plcset`. -/
def plcTaken (sel : Selection) (g : PlcGroup) : Bool :=
  match g.settings with
  | some s => !(sel.isCheckName && !decide (s.name ∈ sel.PLClst))
  | none => false

/-- The test in the loop of `cfg_init_scadaset`. -/
def scadaTaken (_sel : Selection) (g : ScadaGroup) : Bool :=
  g.name.isSome && g.folder.isSome && g.desc.isSome

/-- The positions of the entries that pass a test. -/
def positions {α : Type} (test : α → Bool) (entries : List α) : List ℕ :=
  (entries.zipIdx.filter fun e => test e.1).map Prod.snd

theorem mem_positions {α : Type} {test : α → Bool} {entries : List α} {i : ℕ} :
    i ∈ positions test entries ↔ ∃ e, entries[i]? = some e ∧ test e = true := by
  simp only [positions, List.mem_map, List.mem_filter, Prod.exists, List.mk_mem_zipIdx_iff_getElem?]
  constructor
  · rintro ⟨e, _, ⟨he, htest⟩, rfl⟩
    exact ⟨e, he, htest⟩
  · rintro ⟨e, he, htest⟩
    exact ⟨e, i, ⟨he, htest⟩, rfl⟩

/-- The entries of a PLC inventory that `cfg_init_plcset` configures. -/
def plcsConfigured (listPLC : List Name) (cfgPLC : List PlcGroup) : List ℕ :=
  positions (plcTaken (plcSelection listPLC)) (rounds listPLC cfgPLC)

/-- The entries of a SCADA inventory that `cfg_init_scadaset` configures. -/
def scadaConfigured (listPLC : List Name) (cfgPLC : List ScadaGroup) : List ℕ :=
  positions (scadaTaken (scadaSelection listPLC)) (rounds listPLC cfgPLC)

theorem plcTaken_of_settings (listPLC : List Name) {g : PlcGroup} {s : PlcSettings}
    (h : g.settings = some s) : plcTaken (plcSelection listPLC) g = listed listPLC s.name := by
  simp only [plcTaken, h, plcSelection, listed]
  split_ifs with hall
  · simp [← or_assoc, hall]
  · simp [← or_assoc, hall]

/-- An entry is configured if its round of the loop creates an object. -/
theorem createdPlc_isSome (listPLC : List Name) (g : PlcGroup) :
    (createdPlc listPLC g).isSome = plcTaken (plcSelection listPLC) g := by
  cases h : g.settings with
  | none => simp [createdPlc, plcTaken, h]
  | some s =>
      rw [plcTaken_of_settings listPLC h, createdPlc, h, Option.isSome_map, Option.isSome_filter]
      rfl

/-- An entry that is not configured adds no variable. -/
theorem tuples_of_not_taken {sel : Selection} {g : ScadaGroup} (h : scadaTaken sel g = false)
    (i : ℕ) : g.tuples i = [] := by
  unfold ScadaGroup.tuples
  split
  · rename_i hname hfolder hdesc
    simp [scadaTaken, hname, hfolder, hdesc] at h
  · rfl

/-- An entry that is configured adds all its tuples. -/
theorem tuples_of_taken {sel : Selection} {g : ScadaGroup} (h : scadaTaken sel g = true) (i : ℕ) :
    (g.tuples i).length = g.vars.length := by
  simp only [scadaTaken, Bool.and_eq_true, Option.isSome_iff_exists] at h
  obtain ⟨⟨⟨dname, hname⟩, dfolder, hfolder⟩, desc, hdesc⟩ := h
  simp [ScadaGroup.tuples, hname, hfolder, hdesc]

/-- Inventories of well-formed entries with the same names. -/
structure SameEntries (cfgPLC : List PlcGroup) (cfgScada : List ScadaGroup) : Prop where
  plc : ∀ g ∈ cfgPLC, g.settings.isSome = true
  scada : ∀ g ∈ cfgScada, (g.name.isSome && g.folder.isSome && g.desc.isSome) = true
  names : cfgPLC.map PlcGroup.name = cfgScada.map ScadaGroup.name

/-- The same entries are configured, and they are those the list asks for. -/
structure Agree (listPLC : List Name) (cfgPLC : List PlcGroup) (cfgScada : List ScadaGroup) :
    Prop where
  same : ∀ i, i ∈ scadaConfigured listPLC cfgScada ↔ i ∈ plcsConfigured listPLC cfgPLC
  chosen : ∀ i, i ∈ scadaConfigured listPLC cfgScada ↔
    ∃ g name, cfgScada[i]? = some g ∧ g.name = some name ∧
      ((∃ p0 ∈ listPLC.head?, isAll p0) ∨ name ∈ listPLC)

section
variable {listPLC : List Name} {cfgPLC : List PlcGroup} {cfgScada : List ScadaGroup}

theorem PlcGroup.settings_name {g : PlcGroup} {s : PlcSettings} (h : g.settings = some s) :
    g.name = some s.name := by
  simp only [PlcGroup.settings, Option.bind_eq_bind, Option.bind_eq_some_iff, Option.pure_def,
    Option.some.injEq] at h
  obtain ⟨name, hname, _, -, _, -, _, -, _, -, _, -, _, -, _, -, rfl⟩ := h
  exact hname

theorem mem_scadaConfigured (hlist : listPLC ≠ []) (h : SameEntries cfgPLC cfgScada) {i : ℕ} :
    i ∈ scadaConfigured listPLC cfgScada ↔
      ∃ g name, cfgScada[i]? = some g ∧ g.name = some name := by
  rw [scadaConfigured, rounds, if_neg hlist, mem_positions]
  constructor
  · rintro ⟨g, hg, htest⟩
    simp only [scadaTaken, Bool.and_eq_true, Option.isSome_iff_exists] at htest
    obtain ⟨⟨⟨name, hname⟩, -⟩, -⟩ := htest
    exact ⟨g, name, hg, hname⟩
  · rintro ⟨g, name, hg, -⟩
    exact ⟨g, hg, h.scada g (List.mem_of_getElem? hg)⟩

/-- The entries at one position have the same name. -/
theorem SameEntries.name_iff (h : SameEntries cfgPLC cfgScada) {i : ℕ} {name : Name} :
    (∃ p s, cfgPLC[i]? = some p ∧ p.settings = some s ∧ s.name = name) ↔
      ∃ g, cfgScada[i]? = some g ∧ g.name = some name := by
  have hname : cfgPLC[i]?.map PlcGroup.name = cfgScada[i]?.map ScadaGroup.name := by
    rw [← List.getElem?_map, ← List.getElem?_map, h.names]
  constructor
  · rintro ⟨p, s, hp, hs, rfl⟩
    rw [hp, Option.map_some, eq_comm, Option.map_eq_some_iff] at hname
    obtain ⟨g, hg, hgp⟩ := hname
    exact ⟨g, hg, hgp.trans (PlcGroup.settings_name hs)⟩
  · rintro ⟨g, hg, hgn⟩
    rw [hg, Option.map_some, Option.map_eq_some_iff] at hname
    obtain ⟨p, hp, hpg⟩ := hname
    obtain ⟨s, hs⟩ := Option.isSome_iff_exists.mp (h.plc p (List.mem_of_getElem? hp))
    have hsn := (PlcGroup.settings_name hs).symm.trans (hpg.trans hgn)
    exact ⟨p, s, hp, hs, Option.some.inj hsn⟩

theorem mem_plcsConfigured (hlist : listPLC ≠ []) (h : SameEntries cfgPLC cfgScada) {i : ℕ} :
    i ∈ plcsConfigured listPLC cfgPLC ↔
      ∃ g name, cfgScada[i]? = some g ∧ g.name = some name ∧ listed listPLC name = true := by
  rw [plcsConfigured, rounds, if_neg hlist, mem_positions]
  constructor
  · rintro ⟨p, hp, htest⟩
    obtain ⟨s, hs⟩ := Option.isSome_iff_exists.mp (h.plc p (List.mem_of_getElem? hp))
    obtain ⟨g, hg, hname⟩ := h.name_iff.mp ⟨p, s, hp, hs, rfl⟩
    rw [plcTaken_of_settings listPLC hs] at htest
    exact ⟨g, s.name, hg, hname, htest⟩
  · rintro ⟨g, name, hg, hname, htest⟩
    obtain ⟨p, s, hp, hs, rfl⟩ := h.name_iff.mpr ⟨g, hg, hname⟩
    rw [← plcTaken_of_settings listPLC hs] at htest
    exact ⟨p, hp, htest⟩

theorem isAll_of_not_check (h : isCheckName listPLC = false) :
    ∃ p0 ∈ listPLC.head?, isAll p0 := by
  rw [isCheckName, decide_eq_false_iff_not, not_and_or, not_not, not_not] at h
  rcases h with h | h
  · exact ⟨_, h, by decide⟩
  · exact ⟨_, h, by decide⟩

/-- Every position with a name passes a test of the name if and only if every entry does. -/
theorem forall_position_iff {test : Name → Prop} :
    (∀ i : ℕ, (∃ g name, cfgScada[i]? = some g ∧ g.name = some name) ↔
      ∃ g name, cfgScada[i]? = some g ∧ g.name = some name ∧ test name) ↔
    ∀ g ∈ cfgScada, ∀ name, g.name = some name → test name := by
  constructor
  · intro h g hg name hname
    obtain ⟨i, hi⟩ := List.getElem?_of_mem hg
    obtain ⟨g', name', hi', hname', htest⟩ := (h i).mp ⟨g, name, hi, hname⟩
    obtain rfl : g = g' := Option.some.inj (hi.symm.trans hi')
    obtain rfl : name = name' := Option.some.inj (hname.symm.trans hname')
    exact htest
  · intro h i
    constructor
    · rintro ⟨g, name, hg, hname⟩
      exact ⟨g, name, hg, hname, h g (List.mem_of_getElem? hg) name hname⟩
    · rintro ⟨g, name, hg, hname, -⟩
      exact ⟨g, name, hg, hname⟩

/-- The same entries are configured if and only if the PLC loader's test leaves none out. -/
theorem same_iff_listed (hlist : listPLC ≠ []) (h : SameEntries cfgPLC cfgScada) :
    (∀ i, i ∈ scadaConfigured listPLC cfgScada ↔ i ∈ plcsConfigured listPLC cfgPLC) ↔
      ∀ g ∈ cfgScada, ∀ name, g.name = some name → listed listPLC name = true := by
  rw [← forall_position_iff]
  apply forall_congr'
  intro i
  rw [mem_scadaConfigured hlist h, mem_plcsConfigured hlist h]

theorem chosen_iff_asked (hlist : listPLC ≠ []) (h : SameEntries cfgPLC cfgScada) :
    (∀ i, i ∈ scadaConfigured listPLC cfgScada ↔
      ∃ g name, cfgScada[i]? = some g ∧ g.name = some name ∧
        ((∃ p0 ∈ listPLC.head?, isAll p0) ∨ name ∈ listPLC)) ↔
    ∀ g ∈ cfgScada, ∀ name, g.name = some name →
      (∃ p0 ∈ listPLC.head?, isAll p0) ∨ name ∈ listPLC := by
  rw [← forall_position_iff]
  apply forall_congr'
  intro i
  rw [mem_scadaConfigured hlist h]

theorem listed_iff {name : Name} :
    listed listPLC name = true ↔ isCheckName listPLC = false ∨ name ∈ listPLC := by
  rw [listed_eq, Bool.or_eq_true, Bool.not_eq_true', decide_eq_true_iff]

/-- The loaders agree exactly if the PLC loader does not check names either, or if
there is no entry the list leaves out. -/
theorem agree_iff_listed (hlist : listPLC ≠ []) (h : SameEntries cfgPLC cfgScada) :
    Agree listPLC cfgPLC cfgScada ↔ isCheckName listPLC = false ∨
      ∀ g ∈ cfgScada, ∀ name, g.name = some name → name ∈ listPLC := by
  constructor
  · intro hagree
    have hlisted := (same_iff_listed hlist h).mp hagree.same
    cases hcheck : isCheckName listPLC with
    | false => exact Or.inl rfl
    | true =>
        right
        intro g hg name hname
        apply (listed_iff.mp (hlisted g hg name hname)).resolve_left
        simp [hcheck]
  · intro hc
    constructor
    · apply (same_iff_listed hlist h).mpr
      intro g hg name hname
      apply listed_iff.mpr
      exact hc.imp id fun hin => hin g hg name hname
    · apply (chosen_iff_asked hlist h).mpr
      intro g hg name hname
      exact hc.imp isAll_of_not_check fun hin => hin g hg name hname

end

theorem sameEntries_small (name : Name) :
    SameEntries [smallGroup name []] [smallSet name []] := by
  refine ⟨?_, ?_, rfl⟩ <;> exact fun g hg => by rw [List.mem_singleton.mp hg]; rfl

theorem agree_all : Agree allPlcs [smallGroup ['A'] []] [smallSet ['A'] []] :=
  (agree_iff_listed (by decide) (sameEntries_small ['A'])).mpr (Or.inl (by decide))

/-- A set that the list does not name is configured all the same. -/
theorem agree_unlisted : ¬ ∀ (listPLC : List Name) (cfgPLC : List PlcGroup)
    (cfgScada : List ScadaGroup), listPLC ≠ [] → SameEntries cfgPLC cfgScada →
    Agree listPLC cfgPLC cfgScada := by
  intro h
  have hagree := h [['B']] _ _ (by decide) (sameEntries_small ['A'])
  exact absurd ((hagree.same 0).mp (by decide)) (by decide)

end RwModbus.Loader
