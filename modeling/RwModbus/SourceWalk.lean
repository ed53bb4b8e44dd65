import RwModbus.Loader

/-!
# Following a source's neighbours

The constructor of a referenced register stores as many pointers as its type has
words and takes the next one from each. The chain ends where the next address is
not configured, and the last pointer's successor is taken too, though not used.
-/
namespace RwModbus.Loader
open Numeric Registers Reg

theorem follow_succ (plcs : PlcVec) (p : RegPtr) (i : ℕ) : follow plcs (some p) (i + 1) =
    follow plcs (((plcs p.plc).regs.val p.raddr).rNext.map fun a => ⟨p.plc, a⟩) i := by
  induction i with
  | zero => rfl
  | succ i ih =>
      rw [follow, ih]
      rfl

theorem follow_none (plcs : PlcVec) (i : ℕ) : follow plcs none i = none := by
  induction i with
  | zero => rfl
  | succ i ih => rw [follow, ih, Option.bind_none]

/-- The loop completes if none of the pointers it stores is null. -/
theorem walk_isSome (plcs : PlcVec) (n : ℕ) (src : Option RegPtr) :
    (walk plcs n src).isSome = true ↔ ∀ i < n, (follow plcs src i).isSome = true := by
  induction n generalizing src with
  | zero => simp [walk]
  | succ n ih =>
      cases src with
      | none =>
          simp only [walk, follow_none]
          simpa using ⟨0, Nat.zero_le n⟩
      | some p =>
          rw [walk, Option.isSome_map, ih]
          constructor
          · rintro h (_ | i) hi
            · rfl
            · rw [follow_succ]
              exact h i (Nat.lt_of_succ_lt_succ hi)
          · intro h i hi
            rw [← follow_succ]
            exact h (i + 1) (Nat.succ_lt_succ hi)

/-- Every address up to the last step must be configured. -/
theorem follow_isSome (P : PlcSet) {p : RegPtr} (hp : p.raddr ∈ (P.vec p.plc).regs.keys) (i : ℕ) :
    (follow P.vec (some p) i).isSome = true ↔ ∀ j ≤ i, p.raddr + j ∈ (P.vec p.plc).regs.keys := by
  induction i with
  | zero => simpa [follow] using hp
  | succ i ih =>
      have hstep : (follow P.vec (some p) (i + 1)).isSome = true ↔
          (follow P.vec (some p) i).isSome = true ∧
            p.raddr + (i + 1 : ℕ) ∈ (P.vec p.plc).regs.keys := by
        rw [follow]
        rcases hq : follow P.vec (some p) i with _ | q
        · simp
        · obtain rfl := follow_eq P.linked hq
          simp only [Option.bind_some, P.rNext_eq, Option.isSome_map, Option.isSome_some, true_and,
            Nat.cast_add, Nat.cast_one, ← add_assoc]
          split_ifs with hmem <;> simp [hmem]
      rw [hstep, ih]
      constructor
      · rintro ⟨hle, hlast⟩ j hj
        rcases Nat.le_or_eq_of_le_succ hj with hj | rfl
        · exact hle j hj
        · exact hlast
      · exact fun h => ⟨fun j hj => h j (Nat.le_succ_of_le hj), h _ le_rfl⟩

theorem walk_isSome_iff (P : PlcSet) {p : RegPtr} (hp : p.raddr ∈ (P.vec p.plc).regs.keys) (n : ℕ) :
    (walk P.vec n (some p)).isSome = true ↔ ∀ i < n, p.raddr + i ∈ (P.vec p.plc).regs.keys := by
  rw [walk_isSome]
  constructor
  · exact fun h i hi => (follow_isSome P hp i).mp (h i hi) i le_rfl
  · exact fun h i hi => (follow_isSome P hp i).mpr fun j hj => h j (lt_of_le_of_lt hj hi)

/-- What the loader makes sure of for the entry at key `k`. -/
structure Sound (P : PlcSet) (k : Name) (e : Entry) : Prop where
  registers : ∀ i p, e.ptrReg i = some p → p.raddr ∈ (P.vec p.plc).regs.keys
  pointers : e.kind ≠ .scada → (∀ i < e.prop.rsize, e.ptrReg i ≠ none) ∨ ∀ i, e.ptrReg i = none
  modbus : e.kind = .modbus →
    ∃ p, e.ptrReg 0 = some p ∧ k = ((P.vec p.plc).regs.val p.raddr).rfullname
  fresh : e.kind ≠ .modbus → e.varErrors = 0
  path : ∃ base, e.strOpcname = cleanPath (base ++ '/' :: k)

def AllSound (P : PlcSet) (R : Regmap) : Prop := ∀ k ∈ R.keys, Sound P k (R.val k)

theorem modbusEntry_toRegDef (P : PlcSet) (D : Plc) (p : RegPtr) :
    (modbusEntry P D p).toRegDef = .ofModbus p (D.regs.val p.raddr).data.rmode
      (modbusPath D (D.regs.val p.raddr)) (by simp [modbusPath]) :=
  RegC.getPlcValue_toRegDef P.vec _

theorem mem_modbusEntries {P : PlcSet} {k : Name} {e : Entry} :
    (k, e) ∈ modbusEntries P ↔ ∃ i D, P.elems[i]? = some D ∧ ∃ a ∈ D.regs.keys,
      k = (D.regs.val a).rfullname ∧ e = modbusEntry P D ⟨i, a⟩ := by
  simp only [modbusEntries, List.mem_flatMap, List.mem_map, Prod.mk.injEq, Prod.exists,
    List.mk_mem_zipIdx_iff_getElem?]
  constructor
  · rintro ⟨D, i, hD, a, ha, rfl, rfl⟩
    exact ⟨i, D, hD, a, ha, rfl, rfl⟩
  · rintro ⟨i, D, hD, a, ha, rfl, rfl⟩
    exact ⟨D, i, hD, a, ha, rfl, rfl⟩

theorem modbusEntry_sound {P : PlcSet} {i : ℕ} {D : Plc} (hD : P.elems[i]? = some D) {a : ℤ}
    (ha : a ∈ D.regs.keys) : Sound P (D.regs.val a).rfullname (modbusEntry P D ⟨i, a⟩) := by
  have hvec := PlcSet.vec_of_getElem hD
  have hdef := modbusEntry_toRegDef P D ⟨i, a⟩
  refine ⟨fun j p hp => ?_, fun _ => Or.inl fun j hj => ?_, fun _ => ⟨⟨i, a⟩, ?_, ?_⟩,
    fun hk => ?_, ?_⟩
  · rw [hdef, RegDef.ofModbus] at hp
    dsimp only at hp
    split_ifs at hp
    obtain rfl := Option.some.inj hp
    rwa [hvec]
  · rw [hdef, RegDef.ofModbus] at hj ⊢
    dsimp only at hj ⊢
    rw [if_pos (by omega)]
    exact Option.some_ne_none _
  · rw [hdef]
    rfl
  · rw [hvec]
  · rw [hdef] at hk
    exact absurd rfl hk
  · rw [hdef]
    exact ⟨_, rfl⟩

theorem regsCreateFromPlc_sound (P : PlcSet) : AllSound P (regsCreateFromPlc P) := by
  intro k hk
  have hk : k ∈ (modbusEntries P).map Prod.fst :=
    (KeyedMap.mem_insertAll_keys.mp hk).resolve_left List.not_mem_nil
  obtain ⟨i, D, hD, a, ha, hkey, he⟩ := mem_modbusEntries.mp
    (KeyedMap.insertAll_val_mem hk noEntries)
  rw [regsCreateFromPlc, he, hkey]
  exact modbusEntry_sound hD ha

/-- The variable's source, if it names one, has an entry, and its type exists. -/
def Accepted (known : List Name) (v : ScadaVar) : Prop :=
  (v.isRef = true → v.source ∈ known) ∧ (checkType v.rtype).isSome = true

instance (known : List Name) (v : ScadaVar) : Decidable (Accepted known v) :=
  inferInstanceAs (Decidable (_ ∧ _))

theorem scadaVar_of_not_accepted {R : Regmap} {v : ScadaVar} (h : ¬ Accepted R.keys v) (P : PlcSet) :
    scadaVar P R v = some R := by
  unfold scadaVar
  split_ifs with hsrc
  · rfl
  · have htype : checkType v.rtype = none := by
      rw [← Option.not_isSome_iff_eq_none]
      exact fun hs => h ⟨fun href => not_not.mp fun hn => hsrc ⟨href, hn⟩, hs⟩
    rw [htype]

theorem scadaVar_of_accepted {P : PlcSet} {R : Regmap} {v : ScadaVar} {prop : RegProp}
    {row : prop.Row} (hsrc : v.isRef = true → v.source ∈ R.keys)
    (htype : checkType v.rtype = some ⟨prop, row⟩) : scadaVar P R v =
      (construct P (pointer R v) v prop row).map fun d => R.insert v.key (scadaEntry v d) := by
  unfold scadaVar
  rw [if_neg fun hc => hc.2 (hsrc hc.1), htype]

/-- What the constructor makes: a variable of SCADA's own, a reference without a
register, or one whose walk completed. -/
theorem construct_cases {P : PlcSet} {src : Option RegPtr} {v : ScadaVar} {prop : RegProp}
    {row : prop.Row} {d : RegDef} (h : construct P src v prop row = some d) :
    (v.isRef = false ∧ d = .ofScada prop row v.varModeRw v.path v.slash_mem_path) ∨
    (v.isRef = true ∧
      d = .ofSource P.linked src prop row v.varModeRw v.path v.slash_mem_path ∧
      ∀ p, src = some p → (walk P.vec prop.rsize (some p)).isSome = true) := by
  unfold construct at h
  cases href : v.isRef with
  | false => exact Or.inl ⟨rfl, by simpa [href] using h.symm⟩
  | true =>
      rw [if_pos href] at h
      cases src with
      | none => exact Or.inr ⟨rfl, (Option.some.inj h).symm, fun p hp => by simp at hp⟩
      | some p =>
          obtain ⟨ps, hps, rfl⟩ := Option.map_eq_some_iff.mp h
          refine Or.inr ⟨rfl, rfl, fun q hq => ?_⟩
          obtain rfl := Option.some.inj hq
          rw [hps]
          rfl

theorem pointer_mem {P : PlcSet} {R : Regmap} (hR : AllSound P R) {v : ScadaVar}
    (hsrc : v.isRef = true → v.source ∈ R.keys) {p : RegPtr} (hp : pointer R v = some p) :
    p.raddr ∈ (P.vec p.plc).regs.keys := by
  unfold pointer at hp
  split_ifs at hp with href
  exact (hR _ (hsrc href)).registers 0 p hp

theorem scadaEntry_sound {P : PlcSet} {src : Option RegPtr} {v : ScadaVar} {prop : RegProp}
    {row : prop.Row} {d : RegDef} (h : construct P src v prop row = some d)
    (hsrc : ∀ p, src = some p → p.raddr ∈ (P.vec p.plc).regs.keys) :
    Sound P v.key (scadaEntry v d) := by
  rcases construct_cases h with ⟨-, rfl⟩ | ⟨-, rfl, hwalk⟩
  · exact ⟨fun i p hp => by simp [scadaEntry, RegDef.ofScada] at hp,
      fun hk => absurd rfl hk, fun hk => by simp [scadaEntry, RegDef.ofScada] at hk, fun _ => rfl,
      ⟨_, rfl⟩⟩
  cases src with
  | none =>
      have hnone : ∀ i, (RegDef.ofSource P.linked none prop row v.varModeRw v.path
          v.slash_mem_path).ptrReg i = none := by
        intro i
        simp [RegDef.ofSource, follow_none]
      exact ⟨fun i p hp => by rw [scadaEntry, hnone] at hp; simp at hp, fun _ => Or.inr hnone,
        fun hk => by simp [scadaEntry, RegDef.ofSource] at hk, fun _ => rfl, ⟨_, rfl⟩⟩
  | some s =>
      have hall := (walk_isSome P.vec prop.rsize (some s)).mp (hwalk s rfl)
      refine ⟨fun i p hp => ?_, fun _ => Or.inl fun i hi => ?_,
        fun hk => by simp [scadaEntry, RegDef.ofSource] at hk, fun _ => rfl, ⟨_, rfl⟩⟩
      · simp only [scadaEntry, RegDef.ofSource] at hp
        split_ifs at hp with hi
        obtain rfl := follow_eq P.linked hp
        exact (follow_isSome P (hsrc s rfl) i).mp (hall i hi) i le_rfl
      · simp only [scadaEntry, RegDef.ofSource] at hi ⊢
        rw [if_pos hi]
        exact Option.isSome_iff_ne_none.mp (hall i hi)

/-- A round keeps what is sure of every entry. -/
theorem scadaVar_sound {P : PlcSet} {R R' : Regmap} {v : ScadaVar} (hR : AllSound P R)
    (h : scadaVar P R v = some R') : AllSound P R' := by
  by_cases hacc : Accepted R.keys v
  · obtain ⟨⟨prop, row⟩, htype⟩ := Option.isSome_iff_exists.mp hacc.2
    rw [scadaVar_of_accepted hacc.1 htype, Option.map_eq_some_iff] at h
    obtain ⟨d, hd, rfl⟩ := h
    exact KeyedMap.forall_insert (scadaEntry_sound hd fun p hp => pointer_mem hR hacc.1 hp) hR
  · rw [scadaVar_of_not_accepted hacc] at h
    exact Option.some.inj h ▸ hR

theorem cfgInitScadavars_sound {P : PlcSet} {R R' : Regmap} {vs : List ScadaVar}
    (hR : AllSound P R) (h : cfgInitScadavars P vs R = some R') : AllSound P R' :=
  Runs.foldlM_invariant (fun _ _ _ hs hstep => scadaVar_sound hs hstep) h hR

theorem cfgInitScadaset_eq (P : PlcSet) (gs : List ScadaGroup) (R : Regmap) :
    cfgInitScadaset P gs R = cfgInitScadavars P (scadaVars gs) R :=
  Runs.foldlM_flatMap (scadaVar P) (fun g : ScadaGroup × ℕ => g.1.tuples g.2) gs.zipIdx R

/-- What a load comes down to. -/
theorem cfgMaster_eq {c : Config} {P : PlcSet} {R : Regmap} (h : cfgMaster c = some (P, R)) :
    P = cfgInitPlcset c.plcList c.plcs ∧
      cfgInitScadavars P (scadaVars c.scada) (regsCreateFromPlc P) = some R := by
  unfold cfgMaster at h
  split_ifs at h
  obtain ⟨R', hR, heq⟩ := Option.map_eq_some_iff.mp h
  obtain ⟨rfl, rfl⟩ := Prod.mk.injEq .. ▸ heq
  exact ⟨rfl, by rw [← cfgInitScadaset_eq, hR]⟩

theorem cfgMaster_sound {c : Config} {P : PlcSet} {R : Regmap} (h : cfgMaster c = some (P, R)) :
    AllSound P R :=
  cfgInitScadavars_sound (regsCreateFromPlc_sound P) (cfgMaster_eq h).2

/-- The round completes, and word `i` of the new entry comes from the register `i`
addresses after `p`. -/
def Builds (P : PlcSet) (R : Regmap) (v : ScadaVar) (n : ℕ) (p : RegPtr) : Prop :=
  ∃ R', scadaVar P R v = some R' ∧ ∀ i < n, (R'.val v.key).ptrReg i = some ⟨p.plc, p.raddr + i⟩

/-- After any variables loaded so far, an accepted reference is built without
following a null link exactly if its PLC has as many consecutive addresses from the
source on as the type has words. -/
theorem builds_iff {P : PlcSet} {vs : List ScadaVar} {R : Regmap}
    (hR : cfgInitScadavars P vs (regsCreateFromPlc P) = some R) {v : ScadaVar}
    (href : v.isRef = true) (hsrc : v.source ∈ R.keys) {p : RegPtr}
    (hp : (R.val v.source).ptrReg 0 = some p) {prop : RegProp} {row : prop.Row}
    (htype : checkType v.rtype = some ⟨prop, row⟩) :
    Builds P R v prop.rsize p ↔ ∀ i < prop.rsize, p.raddr + i ∈ (P.vec p.plc).regs.keys := by
  have hsound := cfgInitScadavars_sound (regsCreateFromPlc_sound P) hR
  have hreg := (hsound v.source hsrc).registers 0 p hp
  have hptr : pointer R v = some p := by rw [pointer, if_pos href, hp]
  rw [← walk_isSome_iff P hreg, Builds, scadaVar_of_accepted (fun _ => hsrc) htype, hptr,
    construct, if_pos href]
  constructor
  · rintro ⟨R', hR', -⟩
    have hsome := congrArg Option.isSome hR'
    simpa using hsome
  · intro hwalk
    obtain ⟨ps, hps⟩ := Option.isSome_iff_exists.mp hwalk
    refine ⟨_, by rw [hps]; rfl, fun i hi => ?_⟩
    rw [KeyedMap.insert_val_self]
    simp only [scadaEntry, RegDef.ofSource, if_pos hi]
    obtain ⟨q, hq⟩ := Option.isSome_iff_exists.mp ((walk_isSome P.vec _ _).mp hwalk i hi)
    rw [hq, follow_eq P.linked hq]

/-- A device with registers at the given addresses. -/
def lineOf (as : List ℤ) : PlcSet :=
  cfgInitPlcset allPlcs
    [smallGroup ['D'] (as.map fun a => ⟨a, if a = 0 then ['a'] else ['b'], ['r'], none⟩)]

/-- A two-word variable over the first of them. -/
def wideVar : ScadaVar where
  rname := ['x']
  rmode := ['r']
  rtype := ['U', '3', '2']
  rfolder := some []
  rsource := some ['D', '.', 'a']
  dname := []
  dfolder := ['S']
  origin := (0, 0)

theorem builds_two :
    Builds (lineOf [0, 1]) (regsCreateFromPlc (lineOf [0, 1])) wideVar 2 ⟨0, 0⟩ := by
  have hload : cfgInitScadavars (lineOf [0, 1]) [] (regsCreateFromPlc (lineOf [0, 1])) =
      some (regsCreateFromPlc (lineOf [0, 1])) := rfl
  have htype : checkType wideVar.rtype = some ⟨⟨.uint32, 2, .be⟩, by decide⟩ := rfl
  exact (builds_iff hload (by decide) (by decide) (by decide) htype).mpr (by decide)

/-- At the last register of a device the loop takes the successor of a null pointer. -/
theorem builds_last : ¬ ∀ (P : PlcSet) (vs : List ScadaVar) (R : Regmap),
    cfgInitScadavars P vs (regsCreateFromPlc P) = some R → ∀ v : ScadaVar, v.isRef = true →
    v.source ∈ R.keys → ∀ p, (R.val v.source).ptrReg 0 = some p →
    ∀ (prop : RegProp) (row : prop.Row), checkType v.rtype = some ⟨prop, row⟩ →
    Builds P R v prop.rsize p := by
  intro h
  obtain ⟨R', hR', -⟩ := h (lineOf [0]) [] (regsCreateFromPlc (lineOf [0])) rfl wideVar (by decide)
    (by decide) ⟨0, 0⟩ (by decide) ⟨.uint32, 2, .be⟩ (by decide) rfl
  have hfail : (scadaVar (lineOf [0]) (regsCreateFromPlc (lineOf [0])) wideVar).isSome = false := by
    decide
  rw [hR'] at hfail
  exact Bool.noConfusion hfail

end RwModbus.Loader
