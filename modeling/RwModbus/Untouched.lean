import RwModbus.Convergence
import RwModbus.Delivery
import RwModbus.OwnEntries
import RwModbus.Readout
import RwModbus.ShortNames

/-!
# Start-up alone writes nothing

A pass writes to a PLC where the cache of a writable entry's variable differs from the
local value. Loading sets both to one number, and so does every pass that publishes. A
gateway whose variables nobody writes therefore never sends a write request, whatever
its devices do and however its polls turn out, if the bytes above the scalars are clear.
-/
namespace RwModbus.Untouched
open Numeric Registers Reg Opc Refresh Master Loader OpcRegs Sys
open Readout (Input sensed)
open Convergence (others_rounds)

/-- Nothing stands above the first `n` words. -/
def Fits (n : ℕ) (v : NumericU) : Prop := v.typed n = v

/-- The bytes that are copied along with a scalar of `n` words are clear. -/
def ClearAbove (n : ℕ) (beyond : NumericU) : Prop := NumericU.overlay n {} beyond = {}

theorem overlay_clear {n : ℕ} {beyond : NumericU} (h : ClearAbove n beyond) (v : NumericU) :
    v.overlay n beyond = v.typed n := by
  simp only [ClearAbove, NumericU.overlay, NumericU.mk.injEq] at h
  obtain ⟨h0, h1, h2, h3⟩ := h
  ext1 <;> simp only [NumericU.overlay, NumericU.typed] <;> split_ifs with hn <;> simp_all

theorem Fits.clearAbove {n : ℕ} {v : NumericU} (h : Fits n v) : ClearAbove n v := by
  rw [ClearAbove, ← h]
  ext1 <;> simp only [NumericU.overlay, NumericU.typed] <;> split_ifs <;> rfl

section
variable {p : RegProp} {t : UaType} (hp : p.Row) (ht : p.rtype.uaType = some t)
include hp ht

theorem fits_meaning (w : ℕ → Word) : Fits t.words (RegC.meaning p w) := by
  obtain ⟨hsize, htwo⟩ := hp.uaType ht
  rcases hp.rsize with h | h | h | h
  · exact absurd h hsize
  · rcases hp.single h with hr | hr | ⟨hr, -⟩ | ⟨hr, -⟩ | ⟨hr, -⟩ | ⟨hr, -⟩ <;>
      rw [hr] at ht <;> simp only [VarType.uaType, Option.some.injEq, reduceCtorEq] at ht <;>
      subst ht <;> simp only [RegC.meaning, h, hr] <;> rfl
  · rw [RegC.meaning_two h, htwo h, Fits]
    have hclear : ClearAbove 2 {} := rfl
    have hstale := RegC.reorder32_stale p.rbyteorder (w 1) (w 0) {}
    exact (overlay_clear hclear _).symm.trans hstale.symm
  · have hfour : t.words = 4 := by
      obtain hr | hr | hr := hp.multiword.2.1 h <;> rw [hr] at ht <;>
        obtain rfl := Option.some.inj ht <;> rfl
    rw [hfour, Fits, NumericU.typed_four]

omit hp in
theorem fits_badNumber : Fits t.words (RegC.badNumber p.rtype) := by
  generalize p.rtype = r at ht
  cases r <;> simp only [VarType.uaType, Option.some.injEq, reduceCtorEq] at ht <;> subst ht <;> rfl

omit hp in
theorem fits_firstNumber : Fits t.words (firstNumber p.rtype) := by
  generalize p.rtype = r at ht
  cases r <;> simp only [VarType.uaType, Option.some.injEq, reduceCtorEq] at ht <;> subst ht <;> rfl

/-- What `get_plc_value` makes of the words fits again. -/
theorem fits_getPlcValue {rm : RegC} (hprop : rm.prop = p) (hk : rm.kind ≠ .scada)
    (h : Fits t.words rm.number) (plcs : PlcVec) : Fits t.words (rm.getPlcValue plcs).2 := by
  subst hprop
  have hx : Fits t.words (if rm.getPlcErrors plcs = 0 then RegC.meaning rm.prop (rm.word plcs)
      else RegC.badNumber rm.prop.rtype) := by
    split_ifs
    · exact fits_meaning hp ht _
    · exact fits_badNumber ht
  rw [RegC.getPlcValue_snd hk]
  generalize (if rm.getPlcErrors plcs = 0 then RegC.meaning rm.prop (rm.word plcs)
    else RegC.badNumber rm.prop.rtype) = x at hx ⊢
  by_cases hsize : rm.prop.rsize = 2
  · have hwords := (hp.uaType ht).2 hsize
    rw [hwords] at h hx ⊢
    rw [RegC.freshWords, if_pos hsize, overlay_clear h.clearAbove]
    exact NumericU.typed_typed 2 x
  · rw [RegC.freshWords, if_neg hsize, NumericU.overlay_four]
    exact hx

end

/-- Node, cache and local value of entry `n` are one number, unless the server refuses
writes to the variable; then it is never good. -/
structure Rests (n : Name) (g : Gateway) : Prop extends g.OwnVariable n where
  kind : (g.regmap.val n).kind ≠ .scada
  fits : Fits (g.var n).uaType.words (g.regmap.val n).number
  node : g.opcs.wrStatus (g.regmap.val n).strOpcname = statusGood →
    (g.var n).node = (g.regmap.val n).number
  cache : g.opcs.wrStatus (g.regmap.val n).strOpcname = statusGood →
    (g.var n).rawValue = (g.regmap.val n).number
  refused : g.opcs.wrStatus (g.regmap.val n).strOpcname ≠ statusGood →
    (g.var n).uaStatus ≠ statusGood

variable {n k : Name} {p : RegPtr} {g : Gateway}

theorem Rests.of_config (h : Rests n g) {g' : Gateway} (hc : g.SameConfig g')
    (hnumber : (g'.regmap.val n).number = (g.regmap.val n).number)
    (hcopies : g.opcs.wrStatus (g.regmap.val n).strOpcname = statusGood →
      (g'.var n).node = (g.regmap.val n).number ∧ (g'.var n).rawValue = (g.regmap.val n).number)
    (hstatus : (g'.var n).uaStatus = (g.var n).uaStatus) : Rests n g' := by
  have hown := h.toOwnVariable.of_config hc
  have hs : (g'.regmap.val n).strOpcname = (g.regmap.val n).strOpcname := by rw [hc.defs]
  refine ⟨hown, ?_, ?_, ?_, ?_, ?_⟩
  · rw [hc.defs]
    exact h.kind
  · rw [Gateway.var, hs, hc.opcs.uaType, hnumber]
    exact h.fits
  · rw [hs, hc.opcs.wrStatus, hnumber]
    exact fun ha => (hcopies ha).1
  · rw [hs, hc.opcs.wrStatus, hnumber]
    exact fun ha => (hcopies ha).2
  · rw [hs, hc.opcs.wrStatus, hstatus]
    exact h.refused

theorem Rests.congr (h : Rests n g) {g' : Gateway} (hc : g.SameConfig g')
    (hrm : g'.regmap.val n = g.regmap.val n) (hvar : g'.var n = g.var n) : Rests n g' := by
  apply h.of_config hc (congrArg RegC.number hrm)
  · intro ha
    rw [hvar]
    exact ⟨h.node ha, h.cache ha⟩
  · rw [hvar]

/-- An entry at rest has nothing to take. -/
theorem Rests.takes (h : Rests n g) : (g.turn n).takes = false := by
  rw [← Bool.not_eq_true]
  intro ht
  obtain ⟨-, hnew, -, herr⟩ := Turn.takes_iff.mp ht
  rw [Turn.isNewOpc, differ_eq_true, h.opcVal] at hnew
  by_cases ha : g.opcs.wrStatus (g.regmap.val n).strOpcname = statusGood
  · exact hnew (h.cache ha)
  · exact h.refused ha (h.opcErr.mp herr)

/-- The words that it publishes are its new local value. -/
theorem Rests.round (h : Rests n g) (data : ReadData) : Rests n (g.refreshEntry data n).1 := by
  have hc := (Gateway.refreshEntry_frame data n g).sameConfig
  have hnumber : ((g.refreshEntry data n).1.regmap.val n).number = (g.turn n).plcVal := by
    rw [Gateway.refreshEntry_val, Turn.refresh_rm h.kind, Turn.refreshModbus_number h.kind,
      h.takes, if_neg Bool.false_ne_true]
  have hvar := h.round_var data
  by_cases hp : (g.turn n).publishes = true
  · rw [if_pos ⟨h.kind, hp⟩] at hvar
    have hs : ((g.refreshEntry data n).1.regmap.val n).strOpcname = (g.regmap.val n).strOpcname := by
      rw [hc.defs]
    have hfits : Fits (g.var n).uaType.words (g.turn n).plcVal :=
      fits_getPlcValue (g.regmap.val n).row h.uaType rfl h.kind h.fits g.plcs
    refine ⟨h.toOwnVariable.of_config hc, ?_, ?_, ?_, ?_, ?_⟩
    · rw [hc.defs]
      exact h.kind
    · rw [hnumber, hvar]
      exact hfits
    · intro ha
      rw [hs, hc.opcs.wrStatus] at ha
      rw [hnumber, hvar, OpcServer.writeVariable_accepted ha]
      exact hfits
    · intro _
      rw [hnumber, hvar]
      rfl
    · intro ha hgood
      rw [hs, hc.opcs.wrStatus] at ha
      rw [hvar] at hgood
      exact ha ((writeVariable_good _ _ _ _).mp hgood).2
  · rw [if_neg fun hcond => hp hcond.2] at hvar
    obtain ⟨hsame, -⟩ := Turn.publishes_eq_false.mp (Bool.not_eq_true _ ▸ hp)
    have hold : (g.turn n).plcVal = (g.regmap.val n).number := differ_eq_false.mp hsame
    apply h.of_config hc (hnumber.trans hold)
    · intro ha
      rw [hvar]
      exact ⟨h.node ha, h.cache ha⟩
    · rw [hvar]

/-- A writable entry of a PLC that has a variable. -/
def Guarded (g : Gateway) (n : Name) : Prop :=
  (g.regmap.val n).kind ≠ .scada ∧ (g.regmap.val n).varModeRw ≠ 0 ∧
    g.opcs.isVariable (g.regmap.val n).strOpcname = true

theorem guarded_congr {g' : Gateway} (hc : g.SameConfig g') : Guarded g' n ↔ Guarded g n := by
  simp only [Guarded, hc.defs, hc.opcs.isVariable]

/-- All such entries are at rest, and nothing waits for a write-out. -/
structure Calm (g : Gateway) : Prop where
  rests : ∀ n ∈ g.regmap.keys, Guarded g n → Rests n g
  idle : ∀ p, (g.plcs.data p).rupdate = 0

theorem Calm.takes (h : Calm g) (hn : n ∈ g.regmap.keys) (hk : (g.regmap.val n).kind ≠ .scada) :
    (g.turn n).takes = false := by
  by_cases hguard : Guarded g n
  · exact (h.rests n hn hguard).takes
  rw [← Bool.not_eq_true]
  intro ht
  obtain ⟨hrw, -, -, herr⟩ := Turn.takes_iff.mp ht
  have hgood : (g.turn n).opcs.isGood (g.turn n).rm.strOpcname = true := by
    simpa [Turn.opcErr] using herr
  exact hguard ⟨hk, hrw, (Bool.and_eq_true_iff.mp hgood).1⟩

theorem Calm.round_plcs (h : Calm g) (hn : n ∈ g.regmap.keys) (data : ReadData) :
    (g.refreshEntry data n).1.plcs = g.plcs := by
  by_cases hk : (g.regmap.val n).kind = .scada
  · have hscada : (g.turn n).rm.kind = .scada := hk
    simp only [Gateway.refreshEntry, Turn.refresh, if_pos hscada, Turn.refreshScada]
    rfl
  · have hplcs : (g.refreshEntry data n).1.plcs = (g.turn n).refreshModbus.plcs :=
      Turn.refresh_plcs hk data
    rw [hplcs, Turn.refreshModbus_plcs, h.takes hn hk, if_neg Bool.false_ne_true]
    rfl

theorem Calm.round (h : Calm g) (hn : n ∈ g.regmap.keys) (data : ReadData) :
    Calm (g.refreshEntry data n).1 := by
  have hc := (Gateway.refreshEntry_frame data n g).sameConfig
  refine ⟨fun m hm hguard => ?_, fun p => ?_⟩
  · rw [hc.keys] at hm
    rw [guarded_congr hc] at hguard
    have hrests := h.rests m hm hguard
    by_cases hnm : n = m
    · subst hnm
      exact hrests.round data
    · obtain ⟨hrm, hvar⟩ := others_rounds hrests.toOwnVariable
        (List.forall_mem_singleton.mpr ⟨hn, hnm⟩) data
      exact hrests.congr hc hrm hvar
  · rw [h.round_plcs hn]
    exact h.idle p

theorem Calm.rounds (h : Calm g) {ns : List Name} (hns : ∀ n ∈ ns, n ∈ g.regmap.keys)
    (data : ReadData) : Calm (Gateway.refreshEntries data ns g).1 := by
  induction ns generalizing g with
  | nil => exact h
  | cons n ns ih =>
      obtain ⟨hn, hns⟩ := List.forall_mem_cons.mp hns
      exact ih (h.round hn data) hns

variable {s : System}

/-- Nobody writes to a guarded variable, and what is read of one has clear bytes above. -/
def Spares (s : System) : Input → Prop
  | .task (.clientWrite t _) => ∀ n ∈ s.gateway.regmap.keys, Guarded s.gateway n →
      t ≠ (s.gateway.regmap.val n).strOpcname
  | .task (.writeValue t _ _) => ∀ n ∈ s.gateway.regmap.keys, Guarded s.gateway n →
      s.gateway.opcs.getVarFullName t ≠ (s.gateway.regmap.val n).strOpcname
  | .task (.refreshAll data) => ∀ n ∈ s.gateway.regmap.keys, Guarded s.gateway n →
      ∀ beyond ∈ data (s.gateway.regmap.val n).strOpcname,
        ClearAbove (s.gateway.var n).uaType.words beyond
  | _ => True

def act (s : System) : Input → System
  | .task e => step s e
  | .sense i a w => sensed s i a w

/-- Work on the server that spares the guarded variables. -/
theorem Calm.served (h : Calm g) {S : Set Name} {o : OpcServer} (ho : OpcServer.Touches S g.opcs o)
    (hS : ∀ n ∈ g.regmap.keys, Guarded g n → (g.regmap.val n).strOpcname ∉ S) :
    Calm { g with opcs := o } := by
  have hc := setOpcs_sameConfig ho
  refine ⟨fun n hn hguard => ?_, h.idle⟩
  rw [guarded_congr hc] at hguard
  exact (h.rests n hn hguard).congr hc rfl (ho.others _ (hS n hn hguard))

theorem Calm.refreshAll (h : Calm s.gateway) {data : ReadData}
    (hclear : Spares s (.task (.refreshAll data))) :
    Calm (step s (.refreshAll data)).gateway := by
  have hc := step_sameConfig s (.refreshAll data)
  refine ⟨fun n hn hguard => ?_, h.idle⟩
  rw [guarded_congr hc] at hguard
  have hrests := h.rests n hn hguard
  have hvar : (step s (.refreshAll data)).gateway.var n =
      OpcServer.refreshVar (data (s.gateway.regmap.val n).strOpcname) (s.gateway.var n) :=
    OpcServer.refreshAllValues_val hrests.isVar data
  apply hrests.of_config hc rfl
  · intro ha
    rw [hvar]
    cases hd : data (s.gateway.regmap.val n).strOpcname with
    | none => exact ⟨hrests.node ha, hrests.cache ha⟩
    | some beyond =>
        refine ⟨hrests.node ha, ?_⟩
        have hbytes := hclear n hn hguard beyond hd
        rw [OpcServer.refreshVar]
        dsimp only
        rw [overlay_clear hbytes, hrests.node ha]
        exact hrests.fits
  · rw [hvar]
    exact OpcServer.refreshVar_uaStatus _ _

/-- With nothing pending a write-out does nothing at all. -/
theorem writeMaster_idle {m : ModbusPLC} (h : ∀ a, (m.regs.val a).data.rupdate = 0)
    (env : ℤ → ℕ → WriteAttempt) : writeMaster env m = ({ m with rcWrite := 0 }, []) := by
  have hturns : ∀ (as : List ℤ) (m : ModbusPLC), (∀ a, (m.regs.val a).data.rupdate = 0) →
      writeTurns env as m = (m, []) := by
    intro as m hm
    induction as with
    | nil => rfl
    | cons a as ih =>
        have hturn : writeTurn env m a = (m, []) := if_neg fun hc => hc.2 (hm a)
        rw [writeTurns, hturn]
        dsimp only
        rw [ih]
        rfl
  exact hturns m.regs.keys _ h

theorem Calm.step (h : Calm s.gateway) {e : Event} (hok : Spares s (.task e)) :
    Calm (Sys.step s e).gateway := by
  have hc := step_sameConfig s e
  cases e with
  | clientWrite t x =>
      apply h.served (OpcServer.clientWrite_touches t x _)
      exact fun n hn hguard hm => hok n hn hguard (Set.mem_singleton_iff.mp hm).symm
  | writeValue t x data =>
      apply h.served (OpcServer.writeValue_touches data t x true _)
      exact fun n hn hguard hm => hok n hn hguard (Set.mem_singleton_iff.mp hm).symm
  | refreshAll data => exact h.refreshAll hok
  | pass data => exact h.rounds (fun _ hn => hn) data
  | poll i env =>
      refine ⟨fun n hn hguard => ?_, fun p => ?_⟩
      · rw [guarded_congr hc] at hguard
        exact (h.rests n hn hguard).congr hc rfl rfl
      · rw [DataFlow.poll_rupdate]
        exact h.idle p
  | writeOut i env =>
      refine ⟨fun n hn hguard => ?_, fun p => ?_⟩
      · rw [guarded_congr hc] at hguard
        exact (h.rests n hn hguard).congr hc rfl rfl
      · have hdata : (Sys.step s (.writeOut i env)).gateway.plcs.data p = _ :=
          setPlc_data s.gateway i (writeMaster env (s.gateway.plcs i)).1 p
        rw [hdata, writeMaster_idle fun a => h.idle ⟨i, a⟩]
        split_ifs
        · exact h.idle ⟨i, p.raddr⟩
        · exact h.idle p

theorem Calm.act (h : Calm s.gateway) {x : Input} (hok : Spares s x) : Calm (act s x).gateway := by
  cases x with
  | task e => exact h.step hok
  | sense i a w => exact h

/-- The variable that a call of `AddVar` leaves. -/
def stored (wrStatus : Name → StatusCode) (beyond : Name → NumericU) (q : Request) : UaVar :=
  OpcServer.writeVariable (wrStatus q.name) (q.value.overlay q.uaType.words (beyond q.name)) true
    { q.var with rawValue := q.value.overlay q.uaType.words (beyond q.name) }

/-- Every variable of the server is what one of the calls has left. -/
structure Stored (wrStatus : Name → StatusCode) (beyond : Name → NumericU) (Q : List Request)
    (o : OpcServer) : Prop where
  answers : o.wrStatus = wrStatus
  vars : ∀ t, o.isVariable t = true →
    ∃ q ∈ Q, q.name = t ∧ o.vars.val t = stored wrStatus beyond q

section
variable {wrStatus : Name → StatusCode} {beyond : Name → NumericU} {Q : List Request} {o : OpcServer}

theorem Stored.mono (h : Stored wrStatus beyond Q o) (q : Request) :
    Stored wrStatus beyond (Q ++ [q]) o := by
  refine ⟨h.answers, fun t ht => ?_⟩
  obtain ⟨r, hr, hrt⟩ := h.vars t ht
  exact ⟨r, List.mem_append_left _ hr, hrt⟩

theorem Stored.addVar (h : Stored wrStatus beyond Q o) (q : Request) :
    Stored wrStatus beyond (Q ++ [q]) (addVar beyond o q) := by
  by_cases href : q.name ∈ o.vars.keys ∨ DblSlash q.name
  · rw [addVar_of_refused href]
    exact h.mono q
  have hmore := addVarNodeId_more q.name (addVarName q o)
  have htouch : OpcServer.Touches {q.name} _ (OpcRegs.addVar beyond o q) := addVar_touches href
  refine ⟨addVar_wrStatus.trans h.answers, fun t ht => ?_⟩
  rw [htouch.isVariable] at ht
  have hkey := OpcServer.mem_keys_of_isVariable ht
  by_cases htq : t = q.name
  · subst htq
    have hnew : (addVarNodeId q.name (addVarName q o)).vars.val q.name = q.var :=
      (hmore.old _ (mem_addVarName.mpr (Or.inl rfl))).2.trans (KeyedMap.insert_val_self _ _ _)
    have hwr : (addVarNodeId q.name (addVarName q o)).wrStatus q.name = wrStatus q.name := by
      rw [hmore.wrStatus, ← h.answers]
      rfl
    refine ⟨q, List.mem_append_right _ (List.mem_singleton_self q), rfl, ?_⟩
    rw [OpcRegs.addVar, if_neg href, OpcServer.writeNumber, if_pos ht]
    dsimp only
    rw [OpcServer.modifyVar_val_self, hnew, hwr, stored]
  rw [htouch.others t htq]
  by_cases ht₁ : t ∈ (addVarName q o).vars.keys
  · -- an old variable is still what it was
    have ht₀ := (mem_addVarName.mp ht₁).resolve_left htq
    have hval : (addVarNodeId q.name (addVarName q o)).vars.val t = o.vars.val t :=
      (hmore.old t ht₁).2.trans (KeyedMap.insert_val_of_ne _ htq _)
    rw [hval]
    refine (h.mono q).vars t ?_
    simp only [OpcServer.isVariable, hkey, ht₀, hval] at ht ⊢
    exact ht
  · simp [OpcServer.isVariable, (hmore.new t hkey ht₁).2] at ht

theorem Stored.addVars (h : Stored wrStatus beyond Q o) (qs : List Request) :
    Stored wrStatus beyond (Q ++ qs) (qs.foldl (OpcRegs.addVar beyond) o) := by
  induction qs generalizing Q o with
  | nil => simpa using h
  | cons q qs ih => simpa using ih (h.addVar q)

end

/-- The local value fits into the entry's type. -/
def NumberFits (rm : RegC) : Prop := ∀ t ∈ rm.prop.rtype.uaType, Fits t.words rm.number

def AllFit (R : Regmap) : Prop := ∀ k ∈ R.keys, NumberFits (R.val k).toRegC

theorem fits_zero (n : ℕ) : Fits n {} := by
  simp [Fits, NumericU.typed]

theorem newEntry_fits {d : RegDef} (hk : d.kind ≠ .scada) (plcs : PlcVec) :
    NumberFits (RegC.getPlcValue plcs { toRegDef := d }).1 := by
  intro t ht
  rw [RegC.getPlcValue_toRegDef] at ht
  have hnew : Fits t.words ({ toRegDef := d } : RegC).number := fits_zero _
  rw [RegC.getPlcValue_number hk]
  exact fits_getPlcValue d.row ht rfl hk hnew plcs

theorem modbusEntry_fits (P : PlcSet) (D : Plc) (p : RegPtr) : NumberFits (modbusEntry P D p).toRegC :=
  newEntry_fits (by simp [RegDef.ofModbus]) P.vec

theorem regsCreateFromPlc_fit (P : PlcSet) : AllFit (regsCreateFromPlc P) := by
  intro k hk
  rw [mem_regsCreateFromPlc_keys] at hk
  obtain ⟨i, D, -, a, -, -, he⟩ := mem_modbusEntries.mp (KeyedMap.insertAll_val_mem hk noEntries)
  rw [regsCreateFromPlc, he]
  exact modbusEntry_fits P D ⟨i, a⟩

theorem scadaVar_fit {P : PlcSet} {R R' : Regmap} {v : ScadaVar} (hR : AllFit R)
    (h : scadaVar P R v = some R') : AllFit R' := by
  by_cases hacc : Accepted R.keys v
  · obtain ⟨⟨prop, row⟩, htype⟩ := Option.isSome_iff_exists.mp hacc.2
    rw [scadaVar_of_accepted hacc.1 htype, Option.map_eq_some_iff] at h
    obtain ⟨d, -, rfl⟩ := h
    exact KeyedMap.forall_insert (P := fun _ (e : Entry) => NumberFits e.toRegC)
      (fun t ht => fits_firstNumber ht) hR
  · rw [scadaVar_of_not_accepted hacc] at h
    exact Option.some.inj h ▸ hR

theorem cfgMaster_fit {c : Config} {P : PlcSet} {R : Regmap} (h : cfgMaster c = some (P, R)) :
    AllFit R :=
  Runs.foldlM_invariant (fun _ _ _ hs hstep => scadaVar_fit hs hstep) (cfgMaster_eq h).2
    (regsCreateFromPlc_fit P)

/-- No register of a new PLC object waits for a write-out. -/
theorem newRegs_rupdate (ts : List RegTuple) (name : Name) (port attempts a : ℤ) :
    ((initRegs (cfgInitPlcregs ts (newPlc name port attempts))).regs.val a).data.rupdate = 0 := by
  simp only [initRegs, KeyedMap.mapVals_val, (cfgInitPlcregs_regs ts _).1]
  by_cases ha : a ∈ (ts.map fun t => (t.raddr, t.reg)).map Prod.fst
  · have hval := KeyedMap.insertAll_val_mem ha (newPlc name port attempts).regs
    obtain ⟨t, -, ht⟩ := List.mem_map.mp hval
    exact (congrArg (fun e : ℤ × Mbreg => e.2.data.rupdate) ht).symm
  · rw [KeyedMap.insertAll_val_of_notMem ha]
    rfl

theorem vec_rupdate (listPLC : List Name) (gs : List PlcGroup) (p : RegPtr) :
    ((cfgInitPlcset listPLC gs).vec.data p).rupdate = 0 := by
  rw [PlcVec.data, PlcSet.vec]
  split
  · rename_i D hD
    obtain ⟨s, -, rfl⟩ := mem_cfgInitPlcset.mp hD
    exact newRegs_rupdate s.regs s.name s.port s.attempts p.raddr
  · exact newRegs_rupdate [] [] 0 0 p.raddr

section
variable {wrStatus : Name → StatusCode} {beyond : Name → NumericU} {c : Config} {m : Name}
  (h : initAll wrStatus beyond c = some g)
include h

theorem loaded_stored : Stored wrStatus beyond (allRequests g.regmap) g.opcs := by
  obtain ⟨P, R, -, -, -, hopcs⟩ := initAll_cases h
  rw [hopcs]
  have hnone : Stored wrStatus beyond [] ⟨.empty fun _ => { uaType := .uint16 }, wrStatus⟩ := by
    refine ⟨rfl, fun t ht => ?_⟩
    simp [OpcServer.isVariable, KeyedMap.empty] at ht
  exact hnone.addVars _

theorem loaded_path {k : Name} (hk : k ∈ g.regmap.keys) (hplain : '/' ∉ k) :
    ∃ a, (g.regmap.val k).strOpcname = a ++ '/' :: k := by
  obtain ⟨P, R, hr, -, hmap, -⟩ := initAll_cases h
  rw [hmap] at hk ⊢
  obtain ⟨base, hpath⟩ := (cfgMaster_sound hr k hk).path
  rw [KeyedMap.map_val, hpath]
  exact cleanPath_append base hplain

omit h in
theorem statusName_append (x : Name) : statusName (x ++ millisSuffix) = x ++ statusSuffix := by
  simp [statusName]

omit h in
/-- The status variable of `m` stands beside its own. -/
theorem statusName_path {a : Name} (hplain : '/' ∉ m) (hm : millisSuffix <:+ a ++ '/' :: m) :
    millisSuffix <:+ m ∧ '/' ∉ statusName m ∧ statusName (a ++ '/' :: m) = a ++ '/' :: statusName m := by
  have hsuffix : millisSuffix <:+ m := by
    rcases List.suffix_or_suffix_of_suffix hm (List.suffix_append a ('/' :: m)) with hs | hs
    · rcases List.suffix_cons_iff.mp hs with heq | hs
      · exact absurd heq (by simp [millisSuffix])
      · exact hs
    · exact absurd (hs.subset List.mem_cons_self) (by decide)
  obtain ⟨b, rfl⟩ := hsuffix
  rw [List.mem_append, not_or] at hplain
  refine ⟨List.suffix_append b millisSuffix, ?_, ?_⟩
  · rw [statusName_append, List.mem_append, not_or]
    exact ⟨hplain.1, by decide⟩
  · rw [← List.cons_append, ← List.append_assoc, statusName_append, statusName_append,
      List.append_assoc, List.cons_append]

/-- No key has a slash, and none is what another key's status variable or error counter
is called. -/
structure NamesApart (g : Gateway) : Prop where
  plain : ∀ n ∈ g.regmap.keys, '/' ∉ n
  status : ∀ n ∈ g.regmap.keys, ∀ m ∈ g.regmap.keys, millisSuffix <:+ m → n ≠ statusName m
  errors : ∀ n ∈ g.regmap.keys, ∀ m ∈ g.regmap.keys, n ≠ m ++ errSuffix

variable (hnames : NamesApart g)
include hnames

theorem base_eq {x : Name} (hn : n ∈ g.regmap.keys) (hplain : '/' ∉ x) {a : Name}
    (heq : (g.regmap.val n).strOpcname = a ++ '/' :: x) : n = x := by
  rw [← baseName_strOpcname h hn (hnames.plain n hn), heq, baseName_append a hplain]

theorem statusName_ne_path (hn : n ∈ g.regmap.keys) (hm : m ∈ g.regmap.keys)
    (hmillis : millisSuffix <:+ (g.regmap.val m).strOpcname) :
    (g.regmap.val n).strOpcname ≠ statusName (g.regmap.val m).strOpcname := by
  intro heq
  obtain ⟨a, ha⟩ := loaded_path h hm (hnames.plain m hm)
  rw [ha] at heq hmillis
  obtain ⟨hsuffix, hplain, hpath⟩ := statusName_path (hnames.plain m hm) hmillis
  exact hnames.status n hn m hm hsuffix (base_eq h hnames hn hplain (heq.trans hpath))

theorem errName_ne_path (hn : n ∈ g.regmap.keys) (hm : m ∈ g.regmap.keys) :
    (g.regmap.val n).strOpcname ≠ errName (g.regmap.val m).strOpcname := by
  intro heq
  obtain ⟨a, ha⟩ := loaded_path h hm (hnames.plain m hm)
  have hplain : '/' ∉ m ++ errSuffix := by
    rw [List.mem_append, not_or]
    exact ⟨hnames.plain m hm, by decide⟩
  apply hnames.errors n hn m hm
  apply base_eq h hnames hn hplain
  rw [heq, ha, errName, List.append_assoc, List.append_assoc, List.append_assoc, List.cons_append]

theorem path_inj (hn : n ∈ g.regmap.keys) (hm : m ∈ g.regmap.keys)
    (heq : (g.regmap.val n).strOpcname = (g.regmap.val m).strOpcname) : n = m := by
  obtain ⟨a, ha⟩ := loaded_path h hm (hnames.plain m hm)
  exact base_eq h hnames hn (hnames.plain m hm) (heq.trans ha)

/-- Only the entry itself asks for its path. -/
theorem request_own (hn : n ∈ g.regmap.keys) {q : Request} (hq : q ∈ allRequests g.regmap)
    (hname : q.name = (g.regmap.val n).strOpcname) :
    ∃ t, (g.regmap.val n).prop.rtype.uaType = some t ∧
      q = ⟨(g.regmap.val n).strOpcname, t, (g.regmap.val n).number⟩ := by
  obtain ⟨m, hm, hq⟩ := mem_allRequests.mp hq
  rw [requests, List.mem_append, List.mem_cons] at hq
  rcases hq with hq | rfl | hq
  · split_ifs at hq with hmillis
    · rw [List.mem_singleton.mp hq] at hname
      exact absurd hname.symm (statusName_ne_path h hnames hn hm hmillis)
    · exact absurd hq List.not_mem_nil
  · exact absurd hname.symm (errName_ne_path h hnames hn hm)
  · rw [Option.mem_toList, Option.map_eq_some_iff] at hq
    obtain ⟨t, ht, rfl⟩ := hq
    obtain rfl := path_inj h hnames hn hm hname.symm
    exact ⟨t, ht, rfl⟩

theorem path_own (hn : n ∈ g.regmap.keys) : (g.regmap.val n).strOpcname ∉ g.otherVars n := by
  intro hother
  obtain ⟨m, hm, hne, hs | hs⟩ := hother
  · exact hne (path_inj h hnames hn hm hs).symm
  · exact statusName_ne_path h hnames hn hm hs.1 hs.2

/-- The bytes that loading copies along with the guarded scalars are clear. -/
def ClearLoad (beyond : Name → NumericU) (g : Gateway) : Prop :=
  ∀ n ∈ g.regmap.keys, Guarded g n →
    ClearAbove (g.var n).uaType.words (beyond (g.regmap.val n).strOpcname)

variable (hclear : ClearLoad beyond g)
include hclear

theorem loaded_rests (hn : n ∈ g.regmap.keys) (hguard : Guarded g n) : Rests n g := by
  have hstored := loaded_stored h
  obtain ⟨q, hq, hname, hval⟩ := hstored.vars _ hguard.2.2
  obtain ⟨t, ht, rfl⟩ := request_own h hnames hn hq hname
  have hvar : g.var n = _ := hval
  have hua : (g.var n).uaType = t := by
    rw [hvar]
    rfl
  have hfits : Fits t.words (g.regmap.val n).number := by
    obtain ⟨P, R, hr, -, hmap, -⟩ := initAll_cases h
    rw [hmap] at hn ht ⊢
    exact cfgMaster_fit hr n hn t ht
  have hbytes := hclear n hn hguard
  rw [hua] at hbytes
  have hcopy : (g.regmap.val n).number.overlay t.words (beyond (g.regmap.val n).strOpcname) =
      (g.regmap.val n).number := (overlay_clear hbytes _).trans hfits
  have hown : g.OwnVariable n :=
    ⟨hn, hguard.2.2, path_own h hnames hn, ht.trans (congrArg some hua.symm)⟩
  refine ⟨hown, hguard.1, ?_, ?_, ?_, ?_⟩
  · rw [hua]
    exact hfits
  · intro ha
    rw [hstored.answers] at ha
    rw [hvar, stored, OpcServer.writeVariable_accepted ha]
    dsimp only
    rw [hcopy]
    exact hfits
  · intro _
    rw [hvar]
    exact hcopy
  · intro ha hgood
    rw [hstored.answers] at ha
    rw [hvar] at hgood
    exact ha ((writeVariable_good _ _ _ _).mp hgood).2

theorem loaded_calm : Calm g := by
  refine ⟨fun n hn hguard => loaded_rests h hnames hclear hn hguard, fun p => ?_⟩
  obtain ⟨P, R, hr, hplcs, -, -⟩ := initAll_cases h
  obtain ⟨rfl, -⟩ := cfgMaster_eq hr
  rw [hplcs]
  exact vec_rupdate c.plcList c.plcs p

/-- From a load on, and as long as nobody writes to a writable entry's variable, no
write-out sends a request, and every such variable shows its entry's local value. -/
theorem nothing_sent {devices : ℕ → ℤ → Word} {xs : List Input}
    (hxs : Runs.Along act Spares ⟨g, devices⟩ xs) :
    let g' := (Runs.run act ⟨g, devices⟩ xs).gateway
    (∀ i env, (writeMaster env (g'.plcs i)).2 = []) ∧
      ∀ n ∈ g'.regmap.keys, Guarded g' n →
        g'.opcs.wrStatus (g'.regmap.val n).strOpcname = statusGood →
        (g'.var n).node = (g'.regmap.val n).number := by
  have hcalm : Calm (Runs.run act ⟨g, devices⟩ xs).gateway :=
    hxs.invariant (I := fun s => Calm s.gateway) (fun _ _ hs hok => hs.act hok)
      (loaded_calm h hnames hclear)
  refine ⟨fun i env => ?_, fun n hn hguard ha => (hcalm.rests n hn hguard).node ha⟩
  rw [writeMaster_idle fun a => hcalm.idle ⟨i, a⟩]

end

/-- Two writable registers and a writable 32-bit variable over both. -/
def pairConfig : Config where
  plcList := allPlcs
  plcs := [smallGroup ['D'] [⟨0, ['a'], ['r', 'w'], none⟩, ⟨1, ['b'], ['r', 'w'], none⟩]]
  scadaList := allPlcs
  scada := [smallSet [] [⟨['x'], ['r', 'w'], ['u', '3', '2'], none, some ['D', '.', 'a']⟩]]

def pairGateway : Gateway := gatewayOf pairConfig rfl

theorem pairGateway_keys : pairGateway.regmap.keys = [['D', '.', 'a'], ['D', '.', 'b'], ['x']] := rfl

theorem pairGateway_apart : NamesApart pairGateway := by
  refine ⟨?_, ?_, ?_⟩ <;> rw [pairGateway_keys] <;> decide

theorem ne_path {t : Name} (ht : '/' ∉ t) (d : RegDef) : t ≠ d.strOpcname :=
  fun heq => ht (heq ▸ d.path)

theorem pairGateway_silent : (writeMaster (fun _ _ => ⟨⟨true, true⟩, true⟩)
    ((Runs.run act ⟨pairGateway, fun _ _ => 5⟩
      [.task (.pass fun _ => none), .sense 0 1 7, .task (.poll 0 fun _ => ⟨⟨true, true⟩, 2⟩),
        .task (.clientWrite ['y'] {}), .task (.pass fun _ => none)]).gateway.plcs 0)).2 = [] := by
  have hclear : ClearLoad zeroes pairGateway := fun n _ _ => (fits_zero _).clearAbove
  apply (nothing_sent (gatewayOf_loads pairConfig rfl) pairGateway_apart hclear _).1
  have hy : '/' ∉ (['y'] : Name) := by decide
  exact ⟨trivial, trivial, trivial, fun n _ _ => ne_path hy _, trivial, trivial⟩

end RwModbus.Untouched
