import RwModbus.System

/-!
# Read-only entries as mirrors of the PLC

A pass publishes the PLC's value of a read-only entry when it differs from the
local one. Every node of the server is writable, so a client can change the
node of such an entry while nothing moves in the PLC, and no later pass puts the
PLC's value back until the word itself changes.
-/
namespace RwModbus.Mirror
open Numeric Registers Reg Opc Refresh Sys

/-- Entry `n` has source words and a variable of its own and may not write. -/
structure ReadOnly (n : Name) (g : Gateway) : Prop extends g.OwnVariable n where
  kind : (g.regmap.val n).kind ≠ .scada
  readOnly : (g.regmap.val n).varModeRw = 0
  wrStatus : g.opcs.wrStatus (g.regmap.val n).strOpcname = statusGood

def shown (n : Name) (g : Gateway) : NumericU := (g.var n).node.typed (g.var n).uaType.words

/-- The scalar that `get_plc_value` decodes from the PLC's words. -/
def decoded (n : Name) (g : Gateway) : NumericU :=
  ((g.regmap.val n).getPlcValue g.plcs).2.typed (g.var n).uaType.words

def ErrorFree (n : Name) (s : System) (_ : Event) : Prop :=
  (s.gateway.regmap.val n).getPlcErrors s.gateway.plcs = 0

/-- At the end of a pass the node shows what the words stand for. -/
def Mirrors (n : Name) (s : System) : Event → Prop
  | .pass data =>
      shown n (s.gateway.taskRegsRefresh data).1 = decoded n (s.gateway.taskRegsRefresh data).1
  | _ => True

/-- Before the pass entry `m` may write and holds a client's value for a healthy PLC. -/
def Brings (g : Gateway) (m : Name) : Prop :=
  (g.regmap.val m).varModeRw ≠ 0 ∧
    opcGetValue g.opcs (g.regmap.val m).strOpcname ≠ (g.regmap.val m).number ∧
    (g.regmap.val m).getPlcErrors g.plcs = 0 ∧
    g.opcs.isGood (g.regmap.val m).strOpcname = true

/-- Entry `m` has no word in common with entry `n`, or it may not write, or its
variable is its own and brings nothing. -/
def Spares (n : Name) (g : Gateway) (m : Name) : Prop :=
  Disjoint (g.regmap.val n).sources (g.regmap.val m).sources ∨
    (g.regmap.val m).varModeRw = 0 ∨
    ((g.regmap.val m).strOpcname ∉ g.otherVars m ∧ ¬ Brings g m)

/-- When a pass starts, the node is at the local value, or errors are recorded, or
the words stand for another value and no entry that comes before stores into them. -/
def Current (n : Name) (s : System) : Event → Prop
  | .pass _ =>
      shown n s.gateway = (s.gateway.regmap.val n).number.typed (s.gateway.var n).uaType.words ∨
        (s.gateway.regmap.val n).varErrors ≠ 0 ∨
        (((s.gateway.regmap.val n).getPlcValue s.gateway.plcs).2 ≠ (s.gateway.regmap.val n).number ∧
          ∀ m ∈ s.gateway.regmap.before n, Spares n s.gateway m)
  | _ => True

/-- No entry that comes later in the pass stores into the entry's words. -/
def Spared (n : Name) (s : System) : Event → Prop
  | .pass _ => ∀ m ∈ s.gateway.regmap.after n, Spares n s.gateway m
  | _ => True

/-- No other entry stores into the entry's words. -/
def Alone (n : Name) (s : System) : Event → Prop
  | .pass _ => ∀ m ∈ s.gateway.regmap.keys, m ≠ n → Spares n s.gateway m
  | _ => True

def round (data : ReadData) (g : Gateway) (m : Name) : Gateway := (g.refreshEntry data m).1

variable {n : Name} {g g' : Gateway}

theorem ReadOnly.of_config (h : ReadOnly n g) (hc : g.SameConfig g') : ReadOnly n g' := by
  refine ⟨h.toOwnVariable.of_config hc, ?_, ?_, ?_⟩
  · rw [hc.defs]
    exact h.kind
  · rw [hc.defs]
    exact h.readOnly
  · rw [hc.opcs.wrStatus, hc.defs]
    exact h.wrStatus

theorem round_data {m : Name} {p : RegPtr} (data : ReadData)
    (h : (g.turn m).takes = true → p ∉ (g.regmap.val m).sources) :
    (round data g m).plcs.data p = g.plcs.data p := by
  by_cases hp : p ∈ (g.regmap.val m).sources
  · have hno : ¬ (g.turn m).takes = true := fun ht => h ht hp
    have hk : (g.turn m).rm.kind ≠ .scada := by
      obtain ⟨i, -, hi⟩ := hp
      intro hk
      simp [RegDef.source, show (g.regmap.val m).kind = .scada from hk] at hi
    have hplcs : ((g.turn m).refresh data).1.plcs = g.plcs := by
      rw [Turn.refresh_plcs hk, Turn.refreshModbus_plcs, if_neg hno]
      rfl
    exact congrArg (fun plcs : PlcVec => plcs.data p) hplcs
  · exact (Gateway.refreshEntry_frame data m g).plcs.others p hp

theorem refreshEntries_eq_run (data : ReadData) (ms : List Name) (g : Gateway) :
    (Gateway.refreshEntries data ms g).1 = Runs.run (round data) g ms := by
  induction ms generalizing g with
  | nil => rfl
  | cons m ms ih => exact ih _

theorem takes_turn {m : Name} : (g.turn m).takes = true ↔ Brings g m := by
  simp [Turn.takes_iff, Turn.isNewOpc, Turn.plcErr, Turn.opcErr, Turn.opcVal, Turn.oldVal,
    Gateway.turn, Brings]

/-- Rounds of other entries do not change whether an entry spares the words. -/
theorem Spares.rounds {m : Name} {ms : List Name} (h : Spares n g m)
    (hms : ∀ k ∈ ms, k ∈ g.regmap.keys ∧ k ≠ m) (data : ReadData) :
    Spares n (Runs.run (round data) g ms) m := by
  have hf := Gateway.refreshEntries_frame data ms g
  rw [refreshEntries_eq_run] at hf
  generalize Runs.run (round data) g ms = g' at *
  have hm : g'.regmap.val m = g.regmap.val m := hf.entries m fun hin => (hms m hin).2 rfl
  unfold Spares at h ⊢
  rw [show (g'.regmap.val n).sources = (g.regmap.val n).sources by rw [hf.defs], hm,
    hf.sameConfig.otherVars]
  refine h.imp_right (Or.imp_right fun hown => ⟨hown.1, fun hb => hown.2 ?_⟩)
  have hvar : g'.opcs.vars.val (g.regmap.val m).strOpcname =
      g.opcs.vars.val (g.regmap.val m).strOpcname := by
    refine hf.opcs.others _ fun ⟨k, hk, hin⟩ => hown.1 ⟨k, (hms k hk).1, (hms k hk).2, hin⟩
  have hisVar := hf.opcs.isVariable (g.regmap.val m).strOpcname
  obtain ⟨hrw, hnew, herr, hgood⟩ := hb
  rw [hm] at hrw hnew herr hgood
  rw [opcGetValue, OpcServer.getVarFullName_of_slash (g.regmap.val m).path] at hnew
  rw [RegDef.getPlcErrors_congr hf.plcs.errors] at herr
  refine ⟨hrw, ?_, herr, ?_⟩
  · rw [opcGetValue, OpcServer.getVarFullName_of_slash (g.regmap.val m).path]
    rwa [OpcServer.readRawUnion, hisVar, hvar] at hnew
  · rwa [OpcServer.isGood, hisVar, hvar] at hgood

/-- Rounds of entries that spare the words leave them as they are. -/
theorem rounds_data {ms : List Name} (hnd : ms.Nodup)
    (hms : ∀ m ∈ ms, m ∈ g.regmap.keys ∧ Spares n g m) (data : ReadData) {p : RegPtr}
    (hp : p ∈ (g.regmap.val n).sources) :
    (Runs.run (round data) g ms).plcs.data p = g.plcs.data p := by
  induction ms generalizing g with
  | nil => rfl
  | cons m ms ih =>
      obtain ⟨hout, hnd'⟩ := List.nodup_cons.mp hnd
      obtain ⟨hkey, hspare⟩ := hms m List.mem_cons_self
      have hf := Gateway.refreshEntry_frame data m g
      have hrest : ∀ k ∈ ms, k ∈ (round data g m).regmap.keys ∧ Spares n (round data g m) k := by
        intro k hk
        obtain ⟨hkey', hspare'⟩ := hms k (List.mem_cons_of_mem m hk)
        have hone : ∀ j ∈ [m], j ∈ g.regmap.keys ∧ j ≠ k := by
          intro j hj
          rw [List.mem_singleton.mp hj]
          exact ⟨hkey, fun h => hout (h ▸ hk)⟩
        exact ⟨hkey', hspare'.rounds hone data⟩
      have hp' : p ∈ ((round data g m).regmap.val n).sources := by
        rw [show ((round data g m).regmap.val n).sources = (g.regmap.val n).sources by
          rw [round, hf.defs]]
        exact hp
      rw [Runs.run_cons, ih hnd' hrest hp']
      apply round_data data
      intro ht hm
      rcases hspare with hdis | hro | hquiet
      · exact Set.disjoint_left.mp hdis hp hm
      · exact (takes_turn.mp ht).1 hro
      · exact hquiet.2 (takes_turn.mp ht)

theorem meaning_word_congr {d : RegDef} {plcs plcs' : PlcVec}
    (h : ∀ p ∈ d.sources, plcs'.data p = plcs.data p) :
    RegC.meaning d.prop (d.word plcs') = RegC.meaning d.prop (d.word plcs) := by
  refine RegC.meaning_congr d.row fun i hi => ?_
  unfold RegDef.word
  split
  · rename_i p hp
    rw [h p ⟨i, hi, hp⟩]
  · rfl

theorem decoded_eq (h : ReadOnly n g) (h0 : (g.regmap.val n).getPlcErrors g.plcs = 0) :
    decoded n g = (RegC.meaning (g.regmap.val n).prop ((g.regmap.val n).word g.plcs)).typed
      (g.var n).uaType.words := by
  rw [decoded, RegC.getPlcValue_snd h.kind, if_pos h0, RegC.typed_overlay_fresh h.uaType]

theorem atTurn_eq_run (data : ReadData) (n : Name) (g : Gateway) :
    g.atTurn data n = Runs.run (round data) g (g.regmap.before n) :=
  refreshEntries_eq_run data (g.regmap.before n) g

/-- Before the entry's turn: entries that spare its words leave them alone. -/
theorem atTurn_data (hb : ∀ m ∈ g.regmap.before n, Spares n g m) (data : ReadData)
    {p : RegPtr} (hp : p ∈ (g.regmap.val n).sources) :
    (g.atTurn data n).plcs.data p = g.plcs.data p := by
  rw [atTurn_eq_run]
  exact rounds_data (g.regmap.nodup.sublist (g.regmap.before_sublist n))
    (fun m hm => ⟨KeyedMap.mem_of_mem_before hm, hb m hm⟩) data hp

/-- From the entry's turn on: it stores nothing itself, and later entries that spare
its words leave them alone. -/
theorem afterTurn_data (h : ReadOnly n g) (ha : ∀ m ∈ g.regmap.after n, Spares n g m)
    (data : ReadData) {p : RegPtr} (hp : p ∈ (g.regmap.val n).sources) :
    (g.taskRegsRefresh data).1.plcs.data p = (g.atTurn data n).plcs.data p := by
  have hat := Gateway.atTurn_frame data n g
  have hown := Gateway.refreshEntry_frame data n (g.atTurn data n)
  have hprev : round data (g.atTurn data n) n =
      Runs.run (round data) g (g.regmap.before n ++ [n]) := by
    rw [Runs.run_append, ← atTurn_eq_run]
    rfl
  have hkeys : (round data (g.atTurn data n) n).regmap.keys = g.regmap.keys :=
    hown.keys.trans hat.keys
  have hspare : ∀ m ∈ g.regmap.after n, m ∈ (round data (g.atTurn data n) n).regmap.keys ∧
      Spares n (round data (g.atTurn data n) n) m := by
    intro m hm
    rw [hkeys, hprev]
    refine ⟨KeyedMap.mem_of_mem_after hm, (ha m hm).rounds (fun k hk => ?_) data⟩
    exact ⟨KeyedMap.mem_of_mem_upto h.mem hk, g.regmap.upto_ne_after h.mem hk hm⟩
  have hself : (round data (g.atTurn data n) n).plcs.data p = (g.atTurn data n).plcs.data p := by
    apply round_data data
    intro ht
    refine absurd (takes_turn.mp ht).1 (not_not_intro ?_)
    rw [hat.defs]
    exact h.readOnly
  rw [Gateway.taskRegsRefresh_split h.mem, refreshEntries_eq_run, ← hself]
  refine rounds_data (g.regmap.nodup.sublist (g.regmap.after_sublist n)) hspare data ?_
  rw [round, hown.defs, hat.defs]
  exact hp

/-- The words at the entry's turn are those at the end of the pass. -/
theorem decoded_pass (h : ReadOnly n g) (data : ReadData)
    (h0 : (g.regmap.val n).getPlcErrors g.plcs = 0) (ha : ∀ m ∈ g.regmap.after n, Spares n g m) :
    decoded n (g.taskRegsRefresh data).1 =
      (g.turnOf data n).plcVal.typed (g.var n).uaType.words := by
  have hf := Gateway.taskRegsRefresh_frame data g
  have hat := Gateway.atTurn_frame data n g
  have h' := h.of_config hf.sameConfig
  have hvar : ((g.taskRegsRefresh data).1.var n).uaType = (g.var n).uaType := by
    rw [Gateway.var, hf.opcs.uaType, hf.defs]
    rfl
  have hturn : (g.turnOf data n).plcVal.typed (g.var n).uaType.words =
      (RegC.meaning (g.regmap.val n).prop ((g.regmap.val n).word (g.atTurn data n).plcs)).typed
        (g.var n).uaType.words := by
    have herr : (g.regmap.val n).getPlcErrors (g.turnOf data n).plcs = 0 :=
      (RegDef.getPlcErrors_congr hat.plcs.errors).trans h0
    rw [Turn.plcVal, h.turnOf_rm data, RegC.getPlcValue_snd h.kind, if_pos herr,
      RegC.typed_overlay_fresh h.uaType]
    rfl
  rw [hturn, decoded_eq h' ((RegDef.getPlcErrors_congr hf.plcs.errors).trans (by rwa [hf.defs])),
    hvar, hf.defs]
  congr 1
  exact meaning_word_congr fun p hp => afterTurn_data h ha data hp

/-- The value found at the entry's turn is the one the words stood for before. -/
theorem plcVal_turnOf (h : ReadOnly n g) (data : ReadData)
    (hb : ∀ m ∈ g.regmap.before n, Spares n g m) :
    (g.turnOf data n).plcVal = ((g.regmap.val n).getPlcValue g.plcs).2 := by
  have herr : (g.regmap.val n).getPlcErrors (g.turnOf data n).plcs =
      (g.regmap.val n).getPlcErrors g.plcs :=
    RegDef.getPlcErrors_congr (Gateway.atTurn_frame data n g).plcs.errors
  rw [Turn.plcVal, h.turnOf_rm data, RegC.getPlcValue_snd h.kind, RegC.getPlcValue_snd h.kind, herr]
  congr 2
  exact meaning_word_congr fun p hp => atTurn_data hb data hp

theorem publishes_turnOf (h : ReadOnly n g) (data : ReadData)
    (h0 : (g.regmap.val n).getPlcErrors g.plcs = 0) :
    (g.turnOf data n).publishes = true ↔
      (g.turnOf data n).plcVal ≠ (g.regmap.val n).number ∨ (g.regmap.val n).varErrors ≠ 0 := by
  have hgood : (g.turnOf data n).plcErr = false := by
    rw [Turn.plcErr_eq_false, h.turnOf_rm data]
    exact (RegDef.getPlcErrors_congr (Gateway.atTurn_frame data n g).plcs.errors).trans h0
  simp [Turn.publishes, hgood, Turn.isNewPlc, Turn.oldErr, Turn.oldVal, h.turnOf_rm data]

theorem shown_pass (h : ReadOnly n g) (data : ReadData) :
    shown n (g.taskRegsRefresh data).1 =
      if (g.turnOf data n).publishes = true then
        (g.turnOf data n).plcVal.typed (g.var n).uaType.words
      else shown n g := by
  rw [shown, h.pass_var data, OpcServer.writeVariable_accepted h.wrStatus]
  by_cases hp : (g.turnOf data n).publishes = true
  · rw [if_pos ⟨h.kind, hp⟩, if_pos hp]
    exact NumericU.typed_typed _ _
  · rw [if_neg fun hc => hp hc.2, if_neg hp]
    rfl

/-- At the end of a pass whose later entries spare the words, the node shows their
value exactly if the entry was published or was at the local value before. -/
theorem mirrors_pass {s : System} {data : ReadData} (h : ReadOnly n s.gateway)
    (h0 : ErrorFree n s (.pass data)) (ha : Spared n s (.pass data)) :
    Mirrors n s (.pass data) ↔ (s.gateway.turnOf data n).publishes = true ∨
      shown n s.gateway = (s.gateway.regmap.val n).number.typed (s.gateway.var n).uaType.words := by
  simp only [Mirrors]
  rw [decoded_pass h data h0 ha, shown_pass h data]
  by_cases hp : (s.gateway.turnOf data n).publishes = true
  · simp [hp]
  · -- nothing new from the PLC: its value is the local one
    have hval : (s.gateway.turnOf data n).plcVal = (s.gateway.regmap.val n).number := by
      by_contra hne
      exact hp ((publishes_turnOf h data h0).mpr (Or.inl hne))
    simp [hp, hval]

theorem mirrors_of_current {s : System} (h : ReadOnly n s.gateway) (e : Event)
    (h0 : ErrorFree n s e) (ha : Spared n s e) (hc : Current n s e) : Mirrors n s e := by
  cases e with
  | pass data =>
      refine (mirrors_pass h h0 ha).mpr ?_
      rcases hc with hshown | herr | ⟨hval, hb⟩
      · exact Or.inr hshown
      · exact Or.inl ((publishes_turnOf h data h0).mpr (Or.inr herr))
      · refine Or.inl ((publishes_turnOf h data h0).mpr (Or.inl ?_))
        rwa [plcVal_turnOf h data hb]
  | clientWrite t x => trivial
  | writeValue t x data => trivial
  | refreshAll data => trivial
  | poll i env => trivial
  | writeOut i env => trivial

theorem current_of_mirrors {s : System} (h : ReadOnly n s.gateway) (e : Event)
    (h0 : ErrorFree n s e) (ha : Alone n s e) (hm : Mirrors n s e) : Current n s e := by
  cases e with
  | pass data =>
      have hafter : Spared n s (.pass data) := fun m hin =>
        ha m (KeyedMap.mem_of_mem_after hin) fun he => s.gateway.regmap.notMem_after h.mem (he ▸ hin)
      have hbefore : ∀ m ∈ s.gateway.regmap.before n, Spares n s.gateway m := fun m hin =>
        ha m (KeyedMap.mem_of_mem_before hin) fun he => s.gateway.regmap.notMem_before n (he ▸ hin)
      rcases (mirrors_pass h h0 hafter).mp hm with hp | hshown
      · refine Or.inr ?_
        rcases (publishes_turnOf h data h0).mp hp with hval | herr
        · rw [plcVal_turnOf h data hbefore] at hval
          exact Or.inr ⟨hval, hbefore⟩
        · exact Or.inl herr
      · exact Or.inl hshown
  | clientWrite t x => trivial
  | writeValue t x data => trivial
  | refreshAll data => trivial
  | poll i env => trivial
  | writeOut i env => trivial

/-- In a run without errors, every pass leaves the node at the PLC's value if before
each pass the entry is current and the entries that come later spare its words. If
all others spare them, being current is also necessary. -/
theorem along_mirrors {s : System} {es : List Event} (h : ReadOnly n s.gateway)
    (h0 : Runs.Along step (ErrorFree n) s es) :
    (Runs.Along step (fun s e => Spared n s e ∧ Current n s e) s es →
      Runs.Along step (Mirrors n) s es) ∧
    (Runs.Along step (Alone n) s es → Runs.Along step (Mirrors n) s es →
      Runs.Along step (Current n) s es) := by
  have hstay : ∀ s e, ReadOnly n s.gateway → ReadOnly n (step s e).gateway :=
    fun s e h => h.of_config (step_sameConfig s e)
  constructor
  · intro hc
    refine Runs.Along.imp (I := fun s => ReadOnly n s.gateway) ?_ (fun s e h _ => hstay s e h)
      (Runs.along_and.mpr ⟨h0, hc⟩) h
    exact fun s e h ok => mirrors_of_current h e ok.1 ok.2.1 ok.2.2
  · intro ha hm
    refine Runs.Along.imp (I := fun s => ReadOnly n s.gateway) ?_ (fun s e h _ => hstay s e h)
      (Runs.along_and.mpr ⟨h0, Runs.along_and.mpr ⟨ha, hm⟩⟩) h
    exact fun s e h ok => current_of_mirrors h e ok.1 ok.2.1 ok.2.2

def smallSystem : System where
  gateway := small { rvalue := 5 } (smallEntry 0 0 (.ofUi16 5))
    { uaType := .uint16, rawValue := .ofUi16 5, node := .ofUi16 5 }
  devices := fun _ _ => 5

theorem smallSystem_readOnly : ReadOnly ['v'] smallSystem.gateway :=
  ⟨small_ownVariable rfl rfl rfl, by decide, rfl, rfl⟩

/-- The device holds 7 where the gateway has 5 everywhere. -/
def movedSystem : System := { smallSystem with devices := fun _ _ => 7 }

/-- A poll brings the 7 and the next pass shows it; a client's write to another node
and one more pass leave it. -/
theorem moved_mirrors :
    Runs.Along step (Mirrors ['v']) movedSystem
      [.poll 0 fun _ => ⟨⟨true, true⟩, 1⟩, .pass fun _ => none, .clientWrite ['/', 'w'] (.ofUi16 9),
        .refreshAll fun _ => some {}, .pass fun _ => none] := by
  have hnone : ∀ g, ∀ m ∈ ([] : List Name), Spares ['v'] g m := fun _ _ hm =>
    absurd hm List.not_mem_nil
  apply (along_mirrors (s := movedSystem) smallSystem_readOnly ?_).1
  · -- the poll's word is out of step, the second pass finds the node at the local value
    exact ⟨⟨trivial, trivial⟩, ⟨hnone _, Or.inr (Or.inr ⟨by decide, hnone _⟩)⟩,
      ⟨trivial, trivial⟩, ⟨trivial, trivial⟩, ⟨hnone _, Or.inl (by decide)⟩, trivial⟩
  · exact ⟨rfl, rfl, rfl, rfl, rfl, trivial⟩

/-- A client writes 9 to the node; after the pass it still shows 9. -/
theorem client_overrides :
    ¬ ∀ n s es, ReadOnly n s.gateway → Runs.Along step (ErrorFree n) s es →
      Runs.Along step (Mirrors n) s es := by
  intro h
  have hrun := h ['v'] smallSystem [.clientWrite ['/', 'v'] (.ofUi16 9), .pass fun _ => none]
    smallSystem_readOnly ⟨rfl, rfl, trivial⟩
  have hlast := hrun.2.1
  simp only [Mirrors] at hlast
  revert hlast
  decide

end RwModbus.Mirror
