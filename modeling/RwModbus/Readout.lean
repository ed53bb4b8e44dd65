import RwModbus.Mirror
import RwModbus.Quality

/-!
# What clients read of a sensor

A read-only entry over registers without a write mode. Its devices change by
themselves, polls succeed or fail in any order, and the other tasks and clients
do what they like elsewhere. What a client reads is then always what the last
pass made of the words that the last successful polls had found.
-/
namespace RwModbus.Readout
open Numeric Registers Reg Opc Refresh Master Sys Mirror

/-- A step of the gateway or its clients, or a change inside a device. -/
inductive Input where
  | task (e : Event)
  | sense (i : ℕ) (a : ℤ) (w : Word)

/-- A running system with the word that the last successful poll found in each register. -/
structure Trace where
  sys : System
  polled : RegPtr → Word

def found (s : System) (polled : RegPtr → Word) : Event → RegPtr → Word
  | .poll i env => fun p =>
      if p.plc = i ∧ 0 < (readMaster (s.devices i) env (s.gateway.plcs i)).1.rc
      then s.devices i p.raddr else polled p
  | _ => polled

def sensed (s : System) (i : ℕ) (a : ℤ) (w : Word) : System :=
  { s with devices := Function.update s.devices i (Function.update (s.devices i) a w) }

def observe (t : Trace) : Input → Trace
  | .task e => ⟨step t.sys e, found t.sys t.polled e⟩
  | .sense i a w => ⟨sensed t.sys i a w, t.polled⟩

/-- Nobody but the pass writes to the entry's variable. -/
def Undisturbed (n : Name) (t : Trace) : Input → Prop
  | .task (.clientWrite v _) => v ≠ (t.sys.gateway.regmap.val n).strOpcname
  | .task (.writeValue v _ _) =>
      t.sys.gateway.opcs.getVarFullName v ≠ (t.sys.gateway.regmap.val n).strOpcname
  | _ => True

def Input.isPass : Input → Bool
  | .task (.pass _) => true
  | _ => false

/-- The words of an entry as the polls found them. -/
def reading (d : RegDef) (polled : RegPtr → Word) (i : ℕ) : Word :=
  match d.source i with
  | some p => polled p
  | none => BadValue.ui16

/-- The scalar and the status that polled words stand for. -/
def expected (d : RegDef) (words : ℕ) (polled : RegPtr → Word) (errors : ℕ) :
    NumericU × StatusCode :=
  if errors = 0 then ((RegC.meaning d.prop (reading d polled)).typed words, statusGood)
  else ((RegC.badNumber d.prop.rtype).typed words, badNotConnected)

/-- The scalar and the status of the entry's variable. -/
def seen (n : Name) (g : Gateway) : NumericU × StatusCode := (shown n g, (g.var n).uaStatus)

/-- A read-only entry over registers that nobody writes. -/
structure Sensor (n : Name) (g : Gateway) : Prop extends ReadOnly n g where
  passive : ∀ p ∈ (g.regmap.val n).sources, (g.plcs.data p).rmode = 0

/-- The variable shows the local value, with the status that the recorded errors call for. -/
def published (n : Name) (g : Gateway) : NumericU × StatusCode :=
  ((g.regmap.val n).number.typed (g.var n).uaType.words,
    if (g.regmap.val n).varErrors = 0 then statusGood else badNotConnected)

structure Start (n : Name) (t : Trace) : Prop where
  sensor : Sensor n t.sys.gateway
  varErrors : (t.sys.gateway.regmap.val n).varErrors = 0
  current : seen n t.sys.gateway = published n t.sys.gateway
  words : ∀ p ∈ (t.sys.gateway.regmap.val n).sources,
    (t.sys.gateway.plcs.data p).rvalue = t.polled p

structure Inv (n : Name) (t : Trace) : Prop where
  sensor : Sensor n t.sys.gateway
  quality : Quality.Inv n t.sys
  current : seen n t.sys.gateway = published n t.sys.gateway
  words : ∀ p ∈ (t.sys.gateway.regmap.val n).sources,
    (t.sys.gateway.plcs.data p).rvalue = t.polled p

variable {n : Name} {t : Trace} {g g' : Gateway}

theorem Sensor.of_config (h : Sensor n g) (hc : g.SameConfig g') : Sensor n g' := by
  refine ⟨h.toReadOnly.of_config hc, fun p hp => ?_⟩
  rw [hc.defs] at hp
  rw [hc.mode]
  exact h.passive p hp

theorem uaType_of_config (hc : g.SameConfig g') : (g'.var n).uaType = (g.var n).uaType := by
  rw [Gateway.var, hc.opcs.uaType, hc.defs]
  rfl

theorem Start.inv (h : Start n t) : Inv n t := by
  have hgood : (t.sys.gateway.var n).uaStatus = statusGood := by
    have hstatus := congrArg Prod.snd h.current
    simpa [seen, published, h.varErrors] using hstatus
  exact ⟨h.sensor, Quality.Start.inv ⟨h.sensor.toOwnVariable, h.sensor.kind, h.sensor.wrStatus,
    hgood, h.varErrors⟩, h.current, h.words⟩

theorem setPlcReg_passive {d : RegDef} {plcs : PlcVec} {p : RegPtr}
    (h : (plcs.data p).rmode = 0) (v : Word) (i : ℕ) :
    (d.setPlcReg v i plcs).data p = plcs.data p := by
  cases hs : d.source i with
  | none => simp only [RegDef.setPlcReg, hs]
  | some q =>
      simp only [RegDef.setPlcReg, hs]
      by_cases hq : p = q
      · subst hq
        rw [PlcVec.data_store_self, setReg, if_neg]
        rw [h]
        exact zero_ne_one
      · exact PlcVec.data_store_of_ne plcs hq _

theorem setPlcValue_passive {d : RegDef} {plcs : PlcVec} {p : RegPtr}
    (h : (plcs.data p).rmode = 0) (v : NumericU) :
    (d.setPlcValue v plcs).data p = plcs.data p := by
  apply List.foldlRecOn (motive := fun q : PlcVec => q.data p = plcs.data p) _ _ rfl
  intro q hq i _
  refine (setPlcReg_passive ?_ _ i).trans hq
  rw [hq]
  exact h

theorem refreshEntries_passive (data : ReadData) {p : RegPtr} (ms : List Name)
    (h : (g.plcs.data p).rmode = 0) :
    (Gateway.refreshEntries data ms g).1.plcs.data p = g.plcs.data p := by
  induction ms generalizing g with
  | nil => rfl
  | cons m ms ih =>
      have hround : (g.refreshEntry data m).1.plcs.data p = g.plcs.data p := by
        by_cases hk : (g.turn m).rm.kind = .scada
        · simp only [Gateway.refreshEntry, Turn.refresh, if_pos hk, Turn.refreshScada]
          rfl
        · have hplcs : (g.refreshEntry data m).1.plcs = (g.turn m).refreshModbus.plcs :=
            Turn.refresh_plcs hk data
          rw [hplcs, Turn.refreshModbus_plcs]
          split_ifs
          · exact setPlcValue_passive h _
          · rfl
      exact (ih (hround ▸ h)).trans hround

/-- A passive register takes the device's word even if an update is pending. -/
theorem readMaster_passive {device : ℤ → Word} {env : ℕ → ReadAttempt} {m : ModbusPLC} {a : ℤ}
    (hmode : (m.regs.val a).data.rmode = 0) (hok : 0 < (readMaster device env m).1.rc) :
    ((readMaster device env m).1.regs.val a).data.rvalue = device a := by
  have haddr : m.regMin + ((m.regs.val a).raddr - m.regMin) = a := by
    rw [m.placed]
    omega
  rw [readMaster_ok hok]
  dsimp only [takePoll]
  rw [if_pos (Or.inl hmode), haddr]

theorem observe_sameConfig (t : Trace) (x : Input) :
    t.sys.gateway.SameConfig (observe t x).sys.gateway := by
  cases x with
  | task e => exact step_sameConfig t.sys e
  | sense i a w => exact Gateway.SameConfig.refl _

theorem Inv.words_step (h : Inv n t) (x : Input) :
    ∀ p ∈ ((observe t x).sys.gateway.regmap.val n).sources,
      ((observe t x).sys.gateway.plcs.data p).rvalue = (observe t x).polled p := by
  intro p hp
  rw [(observe_sameConfig t x).defs] at hp
  have hmode := h.sensor.passive p hp
  have hword := h.words p hp
  cases x with
  | sense i a w => exact hword
  | task e =>
      cases e with
      | clientWrite v y => exact hword
      | writeValue v y data => exact hword
      | refreshAll data => exact hword
      | pass data =>
          refine (congrArg Mbregdata.rvalue ?_).trans hword
          exact refreshEntries_passive data t.sys.gateway.regmap.keys hmode
      | poll i env =>
          have hdata := setPlc_data t.sys.gateway i
            (readMaster (t.sys.devices i) env (t.sys.gateway.plcs i)).1 p
          refine (congrArg Mbregdata.rvalue hdata).trans ?_
          have hpolled : (observe t (.task (.poll i env))).polled p =
              if p.plc = i ∧ 0 < (readMaster (t.sys.devices i) env (t.sys.gateway.plcs i)).1.rc
              then t.sys.devices i p.raddr else t.polled p := rfl
          rw [hpolled]
          by_cases hi : p.plc = i
          · subst hi
            rw [if_pos rfl]
            by_cases hok : 0 < (readMaster (t.sys.devices p.plc) env (t.sys.gateway.plcs p.plc)).1.rc
            · rw [if_pos ⟨rfl, hok⟩]
              exact readMaster_passive hmode hok
            · rw [if_neg fun hc => hok hc.2, readMaster_failed (not_lt.mp hok)]
              exact hword
          · rw [if_neg hi, if_neg fun hc => hi hc.1]
            exact hword
      | writeOut i env =>
          have hdata := setPlc_data t.sys.gateway i
            (writeMaster env (t.sys.gateway.plcs i)).1 p
          refine (congrArg Mbregdata.rvalue hdata).trans ?_
          by_cases hi : p.plc = i
          · subst hi
            rw [if_pos rfl]
            exact (writeMaster_data env (t.sys.gateway.plcs p.plc) p.raddr).1.trans hword
          · rw [if_neg hi]
            exact hword

/-- Between passes nothing changes what clients see. -/
theorem Inv.seen_kept (h : Inv n t) {x : Input} (hx : Undisturbed n t x) (hp : x.isPass = false) :
    seen n (observe t x).sys.gateway = seen n t.sys.gateway ∧
      published n (observe t x).sys.gateway = published n t.sys.gateway := by
  have hvar : ∀ {o : OpcServer} {s : Name}, OpcServer.Touches {s} t.sys.gateway.opcs o →
      s ≠ (t.sys.gateway.regmap.val n).strOpcname →
      o.vars.val (t.sys.gateway.regmap.val n).strOpcname = t.sys.gateway.var n :=
    fun ho hs => ho.others _ fun hm => hs (Set.mem_singleton_iff.mp hm).symm
  have hsame : (observe t x).sys.gateway.regmap = t.sys.gateway.regmap →
      (∃ raw, (observe t x).sys.gateway.var n = { t.sys.gateway.var n with rawValue := raw }) →
      seen n (observe t x).sys.gateway = seen n t.sys.gateway ∧
        published n (observe t x).sys.gateway = published n t.sys.gateway := by
    rintro hreg ⟨raw, hv⟩
    simp only [seen, shown, published, hv, hreg, and_self]
  cases x with
  | sense i a w => exact ⟨rfl, rfl⟩
  | task e =>
      cases e with
      | clientWrite v y =>
          exact hsame rfl ⟨_, hvar (OpcServer.clientWrite_touches v y _) hx⟩
      | writeValue v y data =>
          exact hsame rfl ⟨_, hvar (OpcServer.writeValue_touches data v y true _) hx⟩
      | refreshAll data =>
          have hread := OpcServer.refreshAllValues_val h.quality.own.isVar data
          refine hsame rfl ⟨((observe t (.task (.refreshAll data))).sys.gateway.var n).rawValue, ?_⟩
          refine hread.trans ?_
          rw [show (observe t (.task (.refreshAll data))).sys.gateway.var n = _ from hread]
          cases data (t.sys.gateway.regmap.val n).strOpcname <;> rfl
      | pass data => exact absurd hp Bool.noConfusion
      | poll i env => exact ⟨rfl, rfl⟩
      | writeOut i env => exact ⟨rfl, rfl⟩

/-- At its turn the entry decodes the polled words. -/
theorem Inv.turn_value (h : Inv n t) (data : ReadData) :
    (t.sys.gateway.turnOf data n).plcVal.typed (t.sys.gateway.var n).uaType.words =
      (expected (t.sys.gateway.regmap.val n).toRegDef (t.sys.gateway.var n).uaType.words t.polled
        (Quality.errors n t.sys)).1 := by
  have hrm := h.quality.own.turnOf_rm data
  have hk : (t.sys.gateway.turnOf data n).rm.kind ≠ .scada := hrm ▸ h.quality.kind
  have herr := Quality.turn_errors h.quality.own data
  rw [Turn.plcVal, RegC.getPlcValue_snd hk, herr, hrm,
    RegC.typed_overlay_fresh h.quality.own.uaType, expected]
  split_ifs with h0
  · congr 1
    refine RegC.meaning_congr (t.sys.gateway.regmap.val n).row fun i hi => ?_
    unfold RegDef.word reading
    cases hs : (t.sys.gateway.regmap.val n).source i with
    | none => rfl
    | some p =>
        have hmem : p ∈ (t.sys.gateway.regmap.val n).sources := ⟨i, hi, hs⟩
        have hdata : (t.sys.gateway.turnOf data n).plcs.data p = t.sys.gateway.plcs.data p :=
          refreshEntries_passive data _ (h.sensor.passive p hmem)
        simp only [hdata, h.words p hmem, RegDef.getPlcErrors_eq_zero.mp h0 i hi p hs, if_true]
  · rfl

theorem Inv.pass_number (h : Inv n t) (data : ReadData) :
    ((observe t (.task (.pass data))).sys.gateway.regmap.val n).number =
      (t.sys.gateway.turnOf data n).plcVal := by
  have hrm := h.quality.own.turnOf_rm data
  have hk : (t.sys.gateway.turnOf data n).rm.kind ≠ .scada := hrm ▸ h.quality.kind
  refine (congrArg RegC.number (h.quality.own.pass_rm data)).trans ?_
  rw [Turn.refresh_rm hk, Turn.refreshModbus_number hk, if_neg]
  intro ht
  have hmode := (Turn.takes_iff.mp ht).1
  rw [hrm] at hmode
  exact hmode h.sensor.readOnly

/-- After a pass the variable shows the local value, whether or not it was published. -/
theorem Inv.pass_seen (h : Inv n t) (data : ReadData) :
    seen n (observe t (.task (.pass data))).sys.gateway =
      published n (observe t (.task (.pass data))).sys.gateway := by
  have hrm := h.quality.own.turnOf_rm data
  have hshown := shown_pass h.sensor.toReadOnly data
  have hstatus := Quality.pass_uaStatus h.quality data
  have herr := Quality.pass_varErrors h.quality data
  have hwords := uaType_of_config (n := n) (observe_sameConfig t (.task (.pass data)))
  have hold := h.current
  simp only [seen, published, Prod.mk.injEq] at hold ⊢
  rw [h.pass_number data, hwords]
  refine ⟨hshown.trans ?_, hstatus.trans ?_⟩
  · split_ifs with hp
    · rfl
    · have hval := (Turn.publishes_eq_false.mp (Bool.not_eq_true _ ▸ hp)).1
      rw [Turn.isNewPlc, differ_eq_false, Turn.oldVal, hrm] at hval
      rw [hold.1, hval]
  · simp only [show ((observe t (.task (.pass data))).sys.gateway.regmap.val n).varErrors = 0 ↔ _
      from herr]
    split_ifs with hp h0 h0
    · rfl
    · rfl
    · -- the entry had no errors before either
      rw [hold.2, if_pos]
      have hsame := (Turn.publishes_eq_false.mp (Bool.not_eq_true _ ▸ hp)).2
      rw [(Quality.plcErr_iff h.quality.own data).mpr h0, Turn.oldErr, hrm] at hsame
      simpa using hsame.symm
    · rw [hold.2, if_neg]
      have hsame := (Turn.publishes_eq_false.mp (Bool.not_eq_true _ ▸ hp)).2
      have hplc : (t.sys.gateway.turnOf data n).plcErr ≠ false :=
        fun hc => h0 ((Quality.plcErr_iff h.quality.own data).mp hc)
      rw [hsame, Turn.oldErr, hrm] at hplc
      simpa using hplc

theorem Inv.step (h : Inv n t) {x : Input} (hx : Undisturbed n t x) : Inv n (observe t x) := by
  refine ⟨h.sensor.of_config (observe_sameConfig t x), ?_, ?_, h.words_step x⟩
  · cases x with
    | task e => exact h.quality.step e
    | sense i a w => exact ⟨h.quality.own, h.quality.kind, h.quality.wrStatus, h.quality.uaStatus,
        h.quality.bad⟩
  · cases hp : x.isPass with
    | false =>
        obtain ⟨hseen, hpub⟩ := h.seen_kept hx hp
        rw [hseen, hpub]
        exact h.current
    | true =>
        match x, hp with
        | .task (.pass data), _ => exact h.pass_seen data

/-- What a pass publishes are the polled words. -/
theorem Inv.pass_expected (h : Inv n t) (data : ReadData) :
    seen n (observe t (.task (.pass data))).sys.gateway =
      expected (t.sys.gateway.regmap.val n).toRegDef (t.sys.gateway.var n).uaType.words t.polled
        (Quality.errors n t.sys) := by
  have hvalue := h.turn_value data
  have herr := Quality.pass_varErrors h.quality data
  have hwords := uaType_of_config (n := n) (observe_sameConfig t (.task (.pass data)))
  rw [h.pass_seen data, published, h.pass_number data, hwords, hvalue]
  simp only [show ((observe t (.task (.pass data))).sys.gateway.regmap.val n).varErrors = 0 ↔ _
    from herr, expected]
  split_ifs <;> rfl

/-- At any time a client reads what the last pass made of the words that the
last successful polls before it had found. -/
theorem client_reads (h : Start n t) {es fs : List Input} {data : ReadData}
    (hes : Runs.Along observe (Undisturbed n) t (es ++ .task (.pass data) :: fs))
    (hfs : ∀ x ∈ fs, x.isPass = false) :
    seen n (Runs.run observe t (es ++ .task (.pass data) :: fs)).sys.gateway =
      expected (t.sys.gateway.regmap.val n).toRegDef (t.sys.gateway.var n).uaType.words
        (Runs.run observe t es).polled (Quality.errors n (Runs.run observe t es).sys) := by
  obtain ⟨hbefore, -, hafter⟩ := Runs.along_append.mp hes
  have hinv : Inv n (Runs.run observe t es) ∧
      t.sys.gateway.SameConfig (Runs.run observe t es).sys.gateway :=
    hbefore.invariant (I := fun t' => Inv n t' ∧ t.sys.gateway.SameConfig t'.sys.gateway)
      (fun t' x hh hx => ⟨hh.1.step hx, hh.2.trans (observe_sameConfig t' x)⟩)
      ⟨h.inv, Gateway.SameConfig.refl _⟩
  have hpass := hinv.1.pass_expected data
  have hkept : Inv n _ ∧ seen n _ = seen n _ :=
    (hafter.and_mem hfs).invariant
      (I := fun t' => Inv n t' ∧ seen n t'.sys.gateway =
        seen n (observe (Runs.run observe t es) (.task (.pass data))).sys.gateway)
      (fun t' x hh hx => ⟨hh.1.step hx.1, (hh.1.seen_kept hx.1 hx.2).1.trans hh.2⟩)
      ⟨hinv.1.step trivial, rfl⟩
  rw [Runs.run_append, Runs.run_cons, hkept.2, hpass, hinv.2.defs, uaType_of_config hinv.2]

def smallTrace : Trace where
  sys := Mirror.smallSystem
  polled := fun _ => 5

theorem smallTrace_start : Start ['v'] smallTrace := by
  refine ⟨⟨smallSystem_readOnly, fun p hp => rfl⟩, rfl, rfl, fun p hp => rfl⟩

/-- The device changes to 7 before the poll, to 8 after it, and a poll is lost. -/
theorem smallTrace_reads : seen ['v'] (Runs.run observe smallTrace
      ([.sense 0 0 7, .task (.poll 0 fun _ => ⟨⟨true, true⟩, 1⟩), .sense 0 0 8] ++
        .task (.pass fun _ => none) :: [.task (.poll 0 fun _ => ⟨⟨true, false⟩, -1⟩),
          .task (.clientWrite ['/', 'w'] (.ofUi16 9))])).sys.gateway =
    (.ofUi16 7, statusGood) := by
  have hother : (['/', 'w'] : Name) ≠ ['/', 'v'] := by decide
  refine (client_reads smallTrace_start ?_ ?_).trans (by decide)
  · exact ⟨trivial, trivial, trivial, trivial, trivial, hother, trivial⟩
  · decide

end RwModbus.Readout
