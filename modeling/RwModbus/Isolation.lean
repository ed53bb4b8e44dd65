import RwModbus.Interleaving
import RwModbus.Views

/-!
# One device's failures and the other devices

Two runs of the same system in which one device answers differently, or is polled
at other times. The entries of the other devices, their variables and the other
devices themselves cannot tell the two runs apart.
-/
namespace RwModbus.Isolation
open Numeric Registers Reg Opc Refresh Master Sys Views

/-- A source word of the entry is in device `j`. -/
def Over (j : ℕ) (d : RegDef) : Prop := ∃ p ∈ d.sources, p.plc = j

/-- The variables that the entries over device `j` write or reread. -/
def deviceVars (j : ℕ) (g : Gateway) : Set Name :=
  {s | ∃ m ∈ g.regmap.keys, Over j (g.regmap.val m).toRegDef ∧ s ∈ varsOf (g.regmap.val m).toRegDef}

/-- The entries over device `j` have no other sources, and their variables are no one
else's. -/
structure Apart (j : ℕ) (g : Gateway) : Prop where
  whole : ∀ m ∈ g.regmap.keys, Over j (g.regmap.val m).toRegDef →
    ∀ p ∈ (g.regmap.val m).sources, p.plc = j
  vars : ∀ m ∈ g.regmap.keys, ¬ Over j (g.regmap.val m).toRegDef →
    ∀ s ∈ varsOf (g.regmap.val m).toRegDef, s ∉ deviceVars j g

/-- The gateways differ in nothing but device `j` and its entries. -/
structure AlikeG (j : ℕ) (g g' : Gateway) : Prop where
  config : g.SameConfig g'
  entries : ∀ m ∈ g.regmap.keys, ¬ Over j (g.regmap.val m).toRegDef →
    g'.regmap.val m = g.regmap.val m
  vars : ∀ s, s ∉ deviceVars j g → g'.opcs.vars.val s = g.opcs.vars.val s
  plcs : ∀ i, i ≠ j → g'.plcs i = g.plcs i

structure Alike (j : ℕ) (s s' : System) : Prop where
  gateway : AlikeG j s.gateway s'.gateway
  devices : ∀ i, i ≠ j → s'.devices i = s.devices i

variable {j : ℕ} {g g' : Gateway} {o o' : OpcServer} {s t : Name}

theorem deviceVars_of_config (h : g.SameConfig g') : deviceVars j g' = deviceVars j g := by
  simp only [deviceVars, h.keys, h.defs]

theorem Apart.of_config (h : Apart j g) (hc : g.SameConfig g') : Apart j g' := by
  refine ⟨fun m hm => ?_, fun m hm => ?_⟩
  · rw [hc.defs]
    rw [hc.keys] at hm
    exact h.whole m hm
  · rw [hc.defs, deviceVars_of_config hc]
    rw [hc.keys] at hm
    exact h.vars m hm

section
variable {plcs plcs' : PlcVec} {i : ℕ}

theorem setPlcReg_plc_of_ne {d : RegDef} {k : ℕ} (h : ∀ p, d.source k = some p → p.plc ≠ i)
    (v : Word) (plcs : PlcVec) : d.setPlcReg v k plcs i = plcs i := by
  unfold RegDef.setPlcReg
  cases hs : d.source k with
  | none => rfl
  | some p => exact Function.update_of_ne (h p hs).symm _ _

theorem setPlcReg_alike {d : RegDef} {k : ℕ} (h : ∀ p, d.source k = some p → p.plc ≠ j)
    (hp : ∀ i, i ≠ j → plcs' i = plcs i) (v : Word) (hi : i ≠ j) :
    d.setPlcReg v k plcs' i = d.setPlcReg v k plcs i := by
  unfold RegDef.setPlcReg
  cases hs : d.source k with
  | none => exact hp i hi
  | some p =>
      have hplc := hp p.plc (h p hs)
      have hdata : plcs'.data p = plcs.data p := by simp only [PlcVec.data, hplc]
      by_cases hip : i = p.plc
      · subst hip
        simp only [PlcVec.store, Function.update_self, hplc, hdata]
      · simp only [PlcVec.store, Function.update_of_ne hip, hp i hi]

/-- Words that go to sources outside PLC `i` leave it alone. -/
theorem setPlcValue_plc_of_ne {d : RegDef} (h : ∀ p ∈ d.sources, p.plc ≠ i) (v : NumericU)
    (plcs : PlcVec) : d.setPlcValue v plcs i = plcs i := by
  have hfold : ∀ ks : List ℕ, (∀ k ∈ ks, k < d.prop.rsize) → ∀ q : PlcVec,
      ks.foldl (fun plcs k => d.setPlcReg (v.mb64u k) k plcs) q i = q i := by
    intro ks
    induction ks with
    | nil => exact fun _ _ => rfl
    | cons k ks ih =>
        intro hks q
        have hk := hks k List.mem_cons_self
        rw [List.foldl_cons, ih fun k hk => hks k (List.mem_cons_of_mem _ hk)]
        exact setPlcReg_plc_of_ne (fun p hp => h p ⟨k, hk, hp⟩) _ _
  exact hfold _ (fun k hk => List.mem_range.mp hk) plcs

theorem setPlcValue_alike {d : RegDef} (h : ∀ p ∈ d.sources, p.plc ≠ j)
    (hp : ∀ i, i ≠ j → plcs' i = plcs i) (v : NumericU) :
    ∀ i, i ≠ j → d.setPlcValue v plcs' i = d.setPlcValue v plcs i := by
  have hfold : ∀ ks : List ℕ, (∀ k ∈ ks, k < d.prop.rsize) → ∀ q q' : PlcVec,
      (∀ i, i ≠ j → q' i = q i) → ∀ i, i ≠ j →
      ks.foldl (fun plcs k => d.setPlcReg (v.mb64u k) k plcs) q' i =
        ks.foldl (fun plcs k => d.setPlcReg (v.mb64u k) k plcs) q i := by
    intro ks
    induction ks with
    | nil => exact fun _ _ _ hq => hq
    | cons k ks ih =>
        intro hks q q' hq
        have hk := hks k List.mem_cons_self
        simp only [List.foldl_cons]
        apply ih fun k hk => hks k (List.mem_cons_of_mem _ hk)
        exact fun i hi => setPlcReg_alike (fun p hp => h p ⟨k, hk, hp⟩) hq _ hi
  exact hfold _ (fun k hk => List.mem_range.mp hk) plcs plcs' hp

end

/-- A step of the server that both servers take. -/
theorem alikeAt_serverStep (h : AlikeAt s o o') (e : Event) :
    AlikeAt s (Interleaving.serverStep e o) (Interleaving.serverStep e o') := by
  cases e with
  | clientWrite t x => exact h.clientWrite t x
  | writeValue t x data => exact h.writeValue data t x true
  | refreshAll data => exact h.refreshAllValues data
  | pass data => exact h
  | poll i env => exact h
  | writeOut i env => exact h

/-- Two rounds of one entry, with different PLCs of number `j` and different variables in `V`. -/
structure AlikeT (j : ℕ) (V : Set Name) (t t' : Turn) : Prop where
  rm : t'.rm = t.rm
  plcs : ∀ i, i ≠ j → t'.plcs i = t.plcs i
  vars : ∀ s, s ∉ V → AlikeAt s t.opcs t'.opcs

section
variable {V : Set Name} {t t' : Turn}

/-- An entry without the device's sources and variables. -/
theorem AlikeT.sameView (h : AlikeT j V t t') (hv : t.rm.strOpcname ∉ V)
    (hs : ∀ p ∈ t.rm.sources, p.plc ≠ j) : SameView t t' := by
  refine ⟨h.rm, fun p hp => ?_, h.vars _ hv⟩
  simp only [PlcVec.data, h.plcs p.plc (hs p hp)]

theorem AlikeT.refresh (h : AlikeT j V t t') (hv : t.rm.strOpcname ∉ V)
    (hs : ∀ p ∈ t.rm.sources, p.plc ≠ j) (data : ReadData) :
    AlikeT j V (t.refresh data).1 (t'.refresh data).1 := by
  have hview := h.sameView hv hs
  refine ⟨hview.refresh_rm data, fun i hi => ?_, fun s hsV => hview.refresh_opcs (h.vars s hsV) data⟩
  by_cases hk : t.rm.kind = .scada
  · simp only [Turn.refresh, h.rm, if_pos hk]
    exact h.plcs i hi
  · have hk' : t'.rm.kind ≠ .scada := by
      rw [h.rm]
      exact hk
    rw [Turn.refresh_plcs hk, Turn.refresh_plcs hk', Turn.refreshModbus_plcs,
      Turn.refreshModbus_plcs, hview.takes, hview.opcVal, h.rm]
    split_ifs
    · exact setPlcValue_alike hs h.plcs _ i hi
    · exact h.plcs i hi

end

namespace AlikeG

theorem refl (j : ℕ) (g : Gateway) : AlikeG j g g :=
  ⟨.refl g, fun _ _ _ => rfl, fun _ _ => rfl, fun _ _ => rfl⟩

theorem symm (h : AlikeG j g g') : AlikeG j g' g := by
  refine ⟨sameConfig_symm h.config, fun m hm hover => ?_, fun s hs => ?_,
    fun i hi => (h.plcs i hi).symm⟩
  · rw [h.config.keys] at hm
    rw [h.config.defs] at hover
    exact (h.entries m hm hover).symm
  · rw [deviceVars_of_config h.config] at hs
    exact (h.vars s hs).symm

theorem trans {g'' : Gateway} (h : AlikeG j g g') (h' : AlikeG j g' g'') : AlikeG j g g'' := by
  refine ⟨h.config.trans h'.config, fun m hm hover => ?_, fun s hs => ?_,
    fun i hi => (h'.plcs i hi).trans (h.plcs i hi)⟩
  · apply (h'.entries m _ _).trans (h.entries m hm hover)
    · rw [h.config.keys]
      exact hm
    · rw [h.config.defs]
      exact hover
  · apply (h'.vars s _).trans (h.vars s hs)
    rw [deviceVars_of_config h.config]
    exact hs

theorem alikeAt (h : AlikeG j g g') (hs : s ∉ deviceVars j g) : AlikeAt s g.opcs g'.opcs :=
  ⟨h.config.opcs, h.vars s hs⟩

/-- The servers take a step each that the other variables see alike. -/
theorem setOpcs (h : AlikeG j g g') {S S' : Set Name} (ho : OpcServer.Touches S g.opcs o)
    (ho' : OpcServer.Touches S' g'.opcs o')
    (hval : ∀ s, s ∉ deviceVars j g → o'.vars.val s = o.vars.val s) :
    AlikeG j { g with opcs := o } { g' with opcs := o' } := by
  have hg := setOpcs_sameConfig ho
  have hg' := setOpcs_sameConfig ho'
  refine ⟨(sameConfig_symm hg).trans (h.config.trans hg'), h.entries, fun s hs => ?_, h.plcs⟩
  rw [deviceVars_of_config hg] at hs
  exact hval s hs

/-- The round of an entry over device `j` makes no difference. -/
theorem round_over (ha : Apart j g) {m : Name} (hm : m ∈ g.regmap.keys)
    (hover : Over j (g.regmap.val m).toRegDef) (data : ReadData) :
    AlikeG j g (g.refreshEntry data m).1 := by
  have hframe := Gateway.refreshEntry_frame data m g
  refine ⟨hframe.sameConfig, fun n _ hn => ?_, fun s hs => ?_, fun i hi => ?_⟩
  · apply hframe.entries
    intro hnm
    rw [Set.mem_singleton_iff.mp hnm] at hn
    exact hn hover
  · apply hframe.opcs.others
    exact fun hmem => hs ⟨m, hm, hover, hmem⟩
  · have hplcs : ((g.turn m).refresh data).1.plcs i = g.plcs i := by
      unfold Turn.refresh
      dsimp only
      split_ifs
      · rfl
      · rw [Turn.refreshModbus_plcs]
        split_ifs
        · apply setPlcValue_plc_of_ne
          exact fun p hp hpi => hi (hpi.symm.trans (ha.whole m hm hover p hp))
        · rfl
    exact hplcs

/-- The round of any other entry keeps the gateways alike. -/
theorem round_apart (h : AlikeG j g g') (ha : Apart j g) {m : Name} (hm : m ∈ g.regmap.keys)
    (hover : ¬ Over j (g.regmap.val m).toRegDef) (data : ReadData) :
    AlikeG j (g.refreshEntry data m).1 (g'.refreshEntry data m).1 := by
  have hturn : AlikeT j (deviceVars j g) (g.turn m) (g'.turn m) :=
    ⟨h.entries m hm hover, h.plcs, fun _ hs => h.alikeAt hs⟩
  have hround := hturn.refresh (ha.vars m hm hover _ (Or.inl rfl))
    (fun p hp hpj => hover ⟨p, hp, hpj⟩) data
  have hframe := Gateway.refreshEntry_frame data m g
  have hframe' := Gateway.refreshEntry_frame data m g'
  have hconf := hframe.sameConfig
  refine ⟨(sameConfig_symm hconf).trans (h.config.trans hframe'.sameConfig), fun n hn hnover => ?_,
    fun s hs => ?_, hround.plcs⟩
  · rw [hconf.keys] at hn
    rw [hconf.defs] at hnover
    by_cases hnm : n = m
    · subst hnm
      rw [Gateway.refreshEntry_val, Gateway.refreshEntry_val]
      exact hround.rm
    · rw [hframe.entries n hnm, hframe'.entries n hnm]
      exact h.entries n hn hnover
  · rw [deviceVars_of_config hconf] at hs
    exact (hround.vars s hs).val

theorem refreshEntries (data : ReadData) (ns : List Name) : ∀ {g g' : Gateway}, AlikeG j g g' →
    Apart j g → (∀ m ∈ ns, m ∈ g.regmap.keys) →
    AlikeG j (Gateway.refreshEntries data ns g).1 (Gateway.refreshEntries data ns g').1 := by
  induction ns with
  | nil => exact fun h _ _ => h
  | cons m ns ih =>
      intro g g' h ha hns
      have hm := hns m List.mem_cons_self
      have hconf := (Gateway.refreshEntry_frame data m g).sameConfig
      have hround : AlikeG j (g.refreshEntry data m).1 (g'.refreshEntry data m).1 := by
        by_cases hover : Over j (g.regmap.val m).toRegDef
        · have hm' : m ∈ g'.regmap.keys := by
            rw [h.config.keys]
            exact hm
          have hover' : Over j (g'.regmap.val m).toRegDef := by
            rw [h.config.defs]
            exact hover
          have hleft := round_over ha hm hover data
          have hright := round_over (ha.of_config h.config) hm' hover' data
          exact hleft.symm.trans (h.trans hright)
        · exact h.round_apart ha hm hover data
      apply ih hround (ha.of_config hconf)
      intro n hn
      rw [hconf.keys]
      exact hns n (List.mem_cons_of_mem m hn)

/-- A pass keeps the gateways alike. -/
theorem taskRegsRefresh (h : AlikeG j g g') (ha : Apart j g) (data : ReadData) :
    AlikeG j (g.taskRegsRefresh data).1 (g'.taskRegsRefresh data).1 := by
  rw [Gateway.taskRegsRefresh, Gateway.taskRegsRefresh, h.config.keys]
  exact h.refreshEntries data _ ha fun _ hm => hm

end AlikeG

/-- The steps of device `j`, and those of clients who write to its variables. -/
def aside (j : ℕ) (vars : Set Name) [DecidablePred (· ∈ vars)] : Event → Bool
  | .poll i _ | .writeOut i _ => decide (i = j)
  | .clientWrite t _ => decide (t ∈ vars)
  | _ => false

namespace Alike

theorem refl (j : ℕ) (s : System) : Alike j s s := ⟨.refl j s.gateway, fun _ _ => rfl⟩

theorem symm {s s' : System} (h : Alike j s s') : Alike j s' s :=
  ⟨h.gateway.symm, fun i hi => (h.devices i hi).symm⟩

theorem trans {s s' s'' : System} (h : Alike j s s') (h' : Alike j s' s'') : Alike j s s'' :=
  ⟨h.gateway.trans h'.gateway, fun i hi => (h'.devices i hi).trans (h.devices i hi)⟩

variable {vars : Set Name} [DecidablePred (· ∈ vars)] {s s' : System} {e : Event}

/-- A step of device `j` makes no difference to the others. -/
theorem of_device {i : ℕ} (he : Interleaving.party e = some (.device i)) (s : System) :
    Alike i s (step s e) := by
  have hconf := step_sameConfig s e
  rw [Interleaving.step_device he] at hconf ⊢
  refine ⟨⟨hconf, fun _ _ _ => rfl, fun _ _ => rfl, fun k hk => ?_⟩, fun k hk => ?_⟩
  · exact Function.update_of_ne hk _ _
  · exact Function.update_of_ne hk _ _

theorem of_aside (hvars : vars ⊆ deviceVars j s.gateway) (he : aside j vars e = true) :
    Alike j s (step s e) := by
  cases e with
  | poll i env =>
      obtain rfl : i = j := of_decide_eq_true he
      exact of_device rfl s
  | writeOut i env =>
      obtain rfl : i = j := of_decide_eq_true he
      exact of_device rfl s
  | clientWrite t x =>
      have ht : t ∈ vars := of_decide_eq_true he
      have htouch := OpcServer.clientWrite_touches t x s.gateway.opcs
      refine ⟨⟨setOpcs_sameConfig htouch, fun _ _ _ => rfl, fun q hq => ?_, fun _ _ => rfl⟩,
        fun _ _ => rfl⟩
      apply htouch.others
      intro hqt
      rw [Set.mem_singleton_iff.mp hqt] at hq
      exact hq (hvars ht)
  | writeValue t x data => exact absurd he (Bool.false_ne_true)
  | refreshAll data => exact absurd he (Bool.false_ne_true)
  | pass data => exact absurd he (Bool.false_ne_true)

theorem step_server (h : Alike j s s') (he : Interleaving.party e = some .server) :
    Alike j (step s e) (step s' e) := by
  have hconf := step_sameConfig s e
  have hconf' := step_sameConfig s' e
  rw [Interleaving.step_server he] at hconf ⊢
  rw [Interleaving.step_server he] at hconf' ⊢
  refine ⟨?_, h.devices⟩
  apply h.gateway.setOpcs hconf.opcs hconf'.opcs
  exact fun q hq => (alikeAt_serverStep (h.gateway.alikeAt hq) e).val

theorem step_device (h : Alike j s s') {i : ℕ} (hi : i ≠ j)
    (he : Interleaving.party e = some (.device i)) : Alike j (step s e) (step s' e) := by
  have hleft := step_sameConfig s e
  have hright := step_sameConfig s' e
  have hconf := (sameConfig_symm hleft).trans (h.gateway.config.trans hright)
  have hplc := h.gateway.plcs i hi
  have hdev := h.devices i hi
  rw [Interleaving.step_device he, Interleaving.step_device he] at hconf ⊢
  rw [hplc, hdev] at hconf ⊢
  refine ⟨⟨hconf, h.gateway.entries, h.gateway.vars, fun k hk => ?_⟩, fun k hk => ?_⟩
  · by_cases hki : k = i
    · simp only [hki, setPlc, Function.update_self]
    · simp only [setPlc, Function.update_of_ne hki, h.gateway.plcs k hk]
  · by_cases hki : k = i
    · simp only [hki, Function.update_self]
    · simp only [Function.update_of_ne hki, h.devices k hk]

/-- A step taken on both sides keeps them alike. -/
theorem step_both (h : Alike j s s') (ha : Apart j s.gateway) (he : aside j vars e = false) :
    Alike j (step s e) (step s' e) := by
  cases e with
  | poll i env => exact h.step_device (of_decide_eq_false he) rfl
  | writeOut i env => exact h.step_device (of_decide_eq_false he) rfl
  | clientWrite t x => exact h.step_server rfl
  | writeValue t x data => exact h.step_server rfl
  | refreshAll data => exact h.step_server rfl
  | pass data => exact ⟨h.gateway.taskRegsRefresh ha data, h.devices⟩

end Alike

/-- What the two runs keep. -/
structure Sides (j : ℕ) (vars : Set Name) (s s' : System) : Prop extends Alike j s s' where
  apart : Apart j s.gateway
  own : vars ⊆ deviceVars j s.gateway

theorem Sides.of_step {vars : Set Name} {s s' : System} (hs : Sides j vars s s') {e : Event}
    {t' : System} (h : Alike j (step s e) t') : Sides j vars (step s e) t' := by
  have hconf := step_sameConfig s e
  refine ⟨h, hs.apart.of_config hconf, ?_⟩
  rw [deviceVars_of_config hconf]
  exact hs.own

/-- Runs that differ in the steps of one device and in the clients' writes to its
variables agree in everything else. -/
theorem outage_isolated {vars : Set Name} [DecidablePred (· ∈ vars)] {s s' : System}
    {es es' : List Event} (ha : Apart j s.gateway) (hvars : vars ⊆ deviceVars j s.gateway)
    (h : Alike j s s')
    (hes : es.filter (fun e => !aside j vars e) = es'.filter fun e => !aside j vars e) :
    Alike j (Runs.run step s es) (Runs.run step s' es') := by
  have hrun : Sides j vars (Runs.run step s es) (Runs.run step s' es') := by
    apply Runs.run_related (R := Sides j vars) (p := fun e => !aside j vars e) ?_ ?_ ?_ hes
      ⟨h, ha, hvars⟩
    · intro s s' e he hs
      have haside : aside j vars e = true := by simpa using he
      exact hs.of_step ((Alike.of_aside hs.own haside).symm.trans hs.toAlike)
    · intro s s' e he hs
      have haside : aside j vars e = true := by simpa using he
      have hown : vars ⊆ deviceVars j s'.gateway := by
        rw [deviceVars_of_config hs.gateway.config]
        exact hs.own
      exact ⟨hs.toAlike.trans (Alike.of_aside hown haside), hs.apart, hs.own⟩
    · intro s s' e he hs
      have haside : aside j vars e = false := by simpa using he
      exact hs.of_step (hs.toAlike.step_both hs.apart haside)
  exact hrun.toAlike

/-- One word of PLC `i`. -/
def wordOf (i : ℕ) (s : Name) (h : '/' ∈ s) : RegC where
  toRegDef := .ofModbus ⟨i, 0⟩ 1 s h

theorem slash_mem_a : '/' ∈ ['/', 'a'] := List.mem_cons_self

theorem slash_mem_b : '/' ∈ ['/', 'b'] := List.mem_cons_self

theorem entries_ascending : ([['a'], ['b']] : List Name).Pairwise (· < ·) := by decide

theorem vars_ascending : ([['/', 'a'], ['/', 'b']] : List Name).Pairwise (· < ·) := by decide

def twoPlcs : System where
  gateway :=
    { plcs := fun _ => smallPlc { rmode := 1 }
      regmap := ⟨[['a'], ['b']], entries_ascending, fun m =>
        if m = ['a'] then wordOf 0 ['/', 'a'] slash_mem_a else wordOf 1 ['/', 'b'] slash_mem_b⟩
      opcs := ⟨⟨[['/', 'a'], ['/', 'b']], vars_ascending, fun _ => { uaType := .uint16 }⟩,
        fun _ => statusGood⟩ }
  devices := fun _ _ => 5

theorem wordOf_sources (i : ℕ) (s : Name) (h : '/' ∈ s) :
    (wordOf i s h).sources = {⟨i, 0⟩} := by
  ext p
  simp [RegDef.sources, wordOf, RegDef.ofModbus, RegDef.source, eq_comm]

theorem wordOf_over (i : ℕ) (s : Name) (h : '/' ∈ s) : Over j (wordOf i s h).toRegDef ↔ i = j := by
  simp [Over, wordOf_sources]

theorem twoPlcs_b : (twoPlcs.gateway.regmap.val ['b']) = wordOf 1 ['/', 'b'] slash_mem_b := rfl

theorem twoPlcs_a : (twoPlcs.gateway.regmap.val ['a']) = wordOf 0 ['/', 'a'] slash_mem_a := rfl

theorem mem_twoPlcs {m : Name} (hm : m ∈ twoPlcs.gateway.regmap.keys) : m = ['a'] ∨ m = ['b'] := by
  simpa [twoPlcs] using hm

theorem twoPlcs_deviceVars : deviceVars 1 twoPlcs.gateway = {['/', 'b']} := by
  have hmillis : ¬ millisSuffix <:+ ['/', 'b'] := by decide
  ext s
  constructor
  · intro hs
    obtain ⟨m, hm, hover, hvar⟩ := hs
    cases mem_twoPlcs hm with
    | inl h =>
        subst h
        rw [twoPlcs_a, wordOf_over] at hover
        exact absurd hover Nat.zero_ne_one
    | inr h =>
        subst h
        cases hvar with
        | inl hs => exact hs
        | inr hs => exact absurd hs.1 hmillis
  · intro hs
    rw [Set.mem_singleton_iff.mp hs]
    exact ⟨['b'], by decide, (wordOf_over ..).mpr rfl, Or.inl rfl⟩

theorem twoPlcs_apart : Apart 1 twoPlcs.gateway := by
  refine ⟨fun m hm hover p hp => ?_, fun m hm hover s hs => ?_⟩
  · cases mem_twoPlcs hm with
    | inl h =>
        subst h
        rw [twoPlcs_a, wordOf_over] at hover
        exact absurd hover Nat.zero_ne_one
    | inr h =>
        subst h
        rw [twoPlcs_b, wordOf_sources] at hp
        rw [Set.mem_singleton_iff.mp hp]
  · rw [twoPlcs_deviceVars, Set.mem_singleton_iff]
    cases mem_twoPlcs hm with
    | inl h =>
        subst h
        have hmillis : ¬ millisSuffix <:+ ['/', 'a'] := by decide
        cases hs with
        | inl hs =>
            rw [hs]
            decide
        | inr hs => exact absurd hs.1 hmillis
    | inr h =>
        subst h
        exact absurd ((wordOf_over ..).mpr rfl) hover

def good : Event := .poll 0 fun _ => ⟨⟨true, true⟩, 1⟩
def bad : Event := .poll 1 fun _ => ⟨⟨true, false⟩, -1⟩
def put (x : Word) : Event := .clientWrite ['/', 'b'] (.ofUi16 x)

theorem twoPlcs_isolated :
    Alike 1 (Runs.run step twoPlcs [bad, good, put 7, .pass fun _ => none, bad])
      (Runs.run step twoPlcs [good, .pass fun _ => none, put 9]) := by
  have hvars : {['/', 'b']} ⊆ deviceVars 1 twoPlcs.gateway := twoPlcs_deviceVars.symm.subset
  exact outage_isolated twoPlcs_apart hvars (.refl 1 twoPlcs) rfl

end RwModbus.Isolation
