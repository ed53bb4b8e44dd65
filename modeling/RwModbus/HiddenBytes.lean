import RwModbus.Refresh

/-!
# Bytes above a scalar

Eight bytes are copied from a scalar that may be shorter, and the loop compares
all eight. Two runs of a pass are compared whose caches differ only in the bytes
above their scalars: they agree exactly if in every entry those bytes decide the
comparison with the local value the same way.
-/
namespace RwModbus.HiddenBytes
open Numeric Registers Reg Opc Refresh

def above (n : ℕ) (v : NumericU) : NumericU := NumericU.overlay n {} v

/-- The words of an entry's scalar; a type without a variable hides nothing. -/
def width (p : RegProp) : ℕ := (p.rtype.uaType.map UaType.words).getD 4

theorem eq_iff_typed_above (n : ℕ) (a b : NumericU) :
    a = b ↔ a.typed n = b.typed n ∧ above n a = above n b := by
  constructor
  · rintro rfl
    exact ⟨rfl, rfl⟩
  · rintro ⟨ht, ha⟩
    simp only [NumericU.typed, above, NumericU.overlay, NumericU.mk.injEq] at ht ha
    obtain ⟨h0, h1, h2, h3⟩ := ht
    obtain ⟨k0, k1, k2, k3⟩ := ha
    ext1
    · by_cases hn : 0 < n <;> simp_all
    · by_cases hn : 1 < n <;> simp_all
    · by_cases hn : 2 < n <;> simp_all
    · by_cases hn : 3 < n <;> simp_all

theorem width_le (p : RegProp) : width p ≤ 4 := by
  unfold width
  cases p.rtype.uaType with
  | none => exact le_refl 4
  | some t => exact t.words_le

theorem rsize_le_width {p : RegProp} (h : p.Row) : p.rsize ≤ width p := by
  have hrows : ∀ p ∈ regpropMap.map Prod.snd, p.rsize ≤ width p := by decide
  exact hrows p h

/-- Two states of a variable that differ at most above the scalar. -/
structure SameVar (v v' : UaVar) : Prop where
  isVar : v'.isVar = v.isVar
  uaType : v'.uaType = v.uaType
  node : v'.node = v.node
  uaStatus : v'.uaStatus = v.uaStatus
  rawValue : v'.rawValue.typed v.uaType.words = v.rawValue.typed v.uaType.words

structure SameOpcs (o o' : OpcServer) : Prop where
  keys : o'.vars.keys = o.vars.keys
  wrStatus : o'.wrStatus = o.wrStatus
  vars : ∀ s, SameVar (o.vars.val s) (o'.vars.val s)

structure SameReg (rm rm' : RegC) : Prop where
  toRegDef : rm'.toRegDef = rm.toRegDef
  varErrors : rm'.varErrors = rm.varErrors
  number : rm'.number.typed (width rm.prop) = rm.number.typed (width rm.prop)

theorem SameVar.refl (v : UaVar) : SameVar v v := ⟨rfl, rfl, rfl, rfl, rfl⟩

theorem SameReg.refl (rm : RegC) : SameReg rm rm := ⟨rfl, rfl, rfl⟩

theorem SameOpcs.refl (o : OpcServer) : SameOpcs o o := ⟨rfl, rfl, fun _ => SameVar.refl _⟩

def SameReads (data data' : ReadData) : Prop := ∀ s, (data' s).isSome = (data s).isSome

section
variable {o o' : OpcServer} {s : Name}

theorem SameOpcs.isVariable (h : SameOpcs o o') (s : Name) :
    o'.isVariable s = o.isVariable s := by
  simp only [OpcServer.isVariable, h.keys, (h.vars s).isVar]

theorem SameOpcs.isGood (h : SameOpcs o o') (s : Name) : o'.isGood s = o.isGood s := by
  simp only [OpcServer.isGood, h.isVariable, (h.vars s).uaStatus]

theorem SameOpcs.modifyVar (h : SameOpcs o o') {f f' : UaVar → UaVar}
    (hf : SameVar (f (o.vars.val s)) (f' (o'.vars.val s))) :
    SameOpcs (o.modifyVar s f) (o'.modifyVar s f') := by
  refine ⟨h.keys, h.wrStatus, fun t => ?_⟩
  by_cases ht : t = s
  · subst ht
    simpa using hf
  · have hother : ∀ (o : OpcServer) (f : UaVar → UaVar),
        (o.modifyVar s f).vars.val t = o.vars.val t := fun o f =>
      KeyedMap.modify_val_of_ne o.vars ht f
    rw [hother, hother]
    exact h.vars t

theorem SameOpcs.writeRawUnion (h : SameOpcs o o') (x : NumericU) (b : Bool) :
    SameOpcs (o.writeRawUnion s x b).1 (o'.writeRawUnion s x b).1 := by
  unfold OpcServer.writeRawUnion
  rw [h.keys]
  split_ifs
  · refine h.modifyVar ?_
    have hv := h.vars s
    refine ⟨hv.isVar, hv.uaType, ?_, ?_, rfl⟩
    · simp only [OpcServer.writeVariable, h.wrStatus, hv.uaType, hv.node]
    · simp only [OpcServer.writeVariable, h.wrStatus]
  · exact h

theorem SameVar.refreshVar {v v' : UaVar} (h : SameVar v v') {x x' : Option NumericU}
    (hx : x'.isSome = x.isSome) :
    SameVar (OpcServer.refreshVar x v) (OpcServer.refreshVar x' v') := by
  cases x <;> cases x' <;> simp only [Option.isSome, reduceCtorEq] at hx
  · exact h
  · refine ⟨h.isVar, h.uaType, h.node, h.uaStatus, ?_⟩
    simp only [OpcServer.refreshVar, h.uaType, h.node, NumericU.typed_overlay]

theorem SameOpcs.refreshRawValue (h : SameOpcs o o') {x x' : Option NumericU}
    (hx : x'.isSome = x.isSome) : SameOpcs (OpcServer.refreshRawValue x s o).1
      (OpcServer.refreshRawValue x' s o').1 := by
  rw [OpcServer.refreshRawValue_eq, OpcServer.refreshRawValue_eq, h.isVariable]
  split_ifs
  · exact h.modifyVar ((h.vars s).refreshVar hx)
  · exact h

theorem SameOpcs.jsonUpdate (h : SameOpcs o o') (hs : '/' ∈ s) {data data' : ReadData}
    (hdata : SameReads data data') : SameOpcs (jsonUpdate data s o) (jsonUpdate data' s o') := by
  rw [jsonUpdate_eq hs, jsonUpdate_eq hs]
  split_ifs
  · exact h.refreshRawValue (hdata _)
  · exact h

theorem SameOpcs.opcGetValue (h : SameOpcs o o') {p : RegProp} (hs : '/' ∈ s)
    (htype : o.isVariable s = true → p.rtype.uaType = some (o.vars.val s).uaType) :
    (opcGetValue o' s).typed (width p) = (opcGetValue o s).typed (width p) := by
  unfold Refresh.opcGetValue
  rw [OpcServer.getVarFullName_of_slash hs, OpcServer.getVarFullName_of_slash hs,
    OpcServer.readRawUnion, OpcServer.readRawUnion, h.isVariable]
  split_ifs with hv
  · simpa [width, htype hv] using (h.vars s).rawValue
  · rfl

end

/-- Writing to the sources uses bytes of the scalar only. -/
theorem setPlcValue_congr {d : RegDef} {v v' : NumericU}
    (h : v'.typed (width d.prop) = v.typed (width d.prop)) (plcs : PlcVec) :
    d.setPlcValue v' plcs = d.setPlcValue v plcs := by
  refine List.foldl_ext _ _ _ fun plcs i hi => ?_
  have hlt : i < width d.prop := lt_of_lt_of_le (List.mem_range.mp hi) (rsize_le_width d.row)
  rw [NumericU.mb64u_eq_of_typed hlt (width_le d.prop) h]

structure SameRound (r r' : Turn × Decision) : Prop where
  plcs : r'.1.plcs = r.1.plcs
  rm : SameReg r.1.rm r'.1.rm
  opcs : SameOpcs r.1.opcs r'.1.opcs
  decision : r'.2 = r.2

section
variable {plcs : PlcVec} {rm : RegC} {o o' : OpcServer} (h : SameOpcs o o')
  (htype : o.isVariable rm.strOpcname = true →
    rm.prop.rtype.uaType = some (o.vars.val rm.strOpcname).uaType)
include h

theorem opcErr_congr : (Turn.mk plcs rm o').opcErr = (Turn.mk plcs rm o).opcErr := by
  simp only [Turn.opcErr, h.isGood]

include htype

theorem opcVal_typed : (Turn.mk plcs rm o').opcVal.typed (width rm.prop) =
    (Turn.mk plcs rm o).opcVal.typed (width rm.prop) := h.opcGetValue rm.path htype

variable (hnew : (Turn.mk plcs rm o').isNewOpc = (Turn.mk plcs rm o).isNewOpc)
include hnew

theorem refreshScada_same :
    SameReg (Turn.mk plcs rm o).refreshScada.rm (Turn.mk plcs rm o').refreshScada.rm := by
  have htyped : (Turn.mk plcs rm o').opcVal.typed (width rm.prop) =
      (Turn.mk plcs rm o).opcVal.typed (width rm.prop) := opcVal_typed h htype
  simp only [Turn.refreshScada, hnew, opcErr_congr h]
  split_ifs
  · exact ⟨rfl, rfl, htyped⟩
  · exact SameReg.refl _

omit htype in
theorem takes_congr : (Turn.mk plcs rm o').takes = (Turn.mk plcs rm o).takes := by
  have hplc : (Turn.mk plcs rm o').plcErr = (Turn.mk plcs rm o).plcErr := rfl
  simp only [Turn.takes, hnew, opcErr_congr h, hplc]

theorem refreshModbus_same_rm :
    SameReg (Turn.mk plcs rm o).refreshModbus.rm (Turn.mk plcs rm o').refreshModbus.rm := by
  -- the PLC's side is the same text in both runs
  have hplc : (Turn.mk plcs rm o').plcErr = (Turn.mk plcs rm o).plcErr := rfl
  have hold : (Turn.mk plcs rm o').oldErr = (Turn.mk plcs rm o).oldErr := rfl
  have hpub : (Turn.mk plcs rm o').publishes = (Turn.mk plcs rm o).publishes := rfl
  have hval : (Turn.mk plcs rm o').plcVal = (Turn.mk plcs rm o).plcVal := rfl
  have htyped : (Turn.mk plcs rm o').opcVal.typed (width rm.prop) =
      (Turn.mk plcs rm o).opcVal.typed (width rm.prop) := opcVal_typed h htype
  have hprop : (rm.getPlcValue plcs).1.prop = rm.prop := by rw [RegC.getPlcValue_toRegDef]
  simp only [Turn.refreshModbus, Turn.publish, Turn.writeBack, takes_congr h hnew, hplc,
    hold, hpub, hval, opcErr_congr h]
  split_ifs <;> first | exact SameReg.refl _ | exact ⟨rfl, rfl, by rw [hprop]; exact htyped⟩

theorem refresh_same {data data' : ReadData} (hdata : SameReads data data') :
    SameRound ((Turn.mk plcs rm o).refresh data) ((Turn.mk plcs rm o').refresh data') := by
  unfold Turn.refresh
  dsimp only
  split_ifs with hk
  · have hrm := refreshScada_same h htype hnew
    refine ⟨rfl, hrm, ?_, by rw [hnew]⟩
    have hs : (Turn.mk plcs rm o').refreshScada.rm.strOpcname =
        (Turn.mk plcs rm o).refreshScada.rm.strOpcname := by rw [hrm.toRegDef]
    dsimp only
    rw [hs]
    exact SameOpcs.jsonUpdate h (RegDef.path _) hdata
  · have hrm := refreshModbus_same_rm h htype hnew
    have ht := takes_congr h hnew
    refine ⟨?_, hrm, ?_, by rw [hnew, ht]; rfl⟩
    · dsimp only
      rw [Turn.refreshModbus_plcs, Turn.refreshModbus_plcs, ht]
      split_ifs
      · exact setPlcValue_congr (opcVal_typed h htype) plcs
      · rfl
    · have hs : (Turn.mk plcs rm o').refreshModbus.rm.strOpcname =
          (Turn.mk plcs rm o).refreshModbus.rm.strOpcname := by rw [hrm.toRegDef]
      dsimp only
      rw [hs]
      refine SameOpcs.jsonUpdate ?_ (RegDef.path _) hdata
      rw [Turn.refreshModbus_opcs, Turn.refreshModbus_opcs,
        show (Turn.mk plcs rm o').publishes = (Turn.mk plcs rm o).publishes from rfl]
      split_ifs
      · rw [opcSetValue_eq rm.path, opcSetValue_eq rm.path]
        exact h.writeRawUnion _ _
      · exact h

end

/-- Each entry's variable is its own, and of its type where there is one. -/
structure Laid (g : Gateway) : Prop where
  own : ∀ n ∈ g.regmap.keys, (g.regmap.val n).strOpcname ∉ g.otherVars n
  uaType : ∀ n ∈ g.regmap.keys, g.opcs.isVariable (g.regmap.val n).strOpcname = true →
    (g.regmap.val n).prop.rtype.uaType = some (g.var n).uaType

def cached (n : Name) (g : Gateway) : NumericU :=
  opcGetValue g.opcs (g.regmap.val n).strOpcname

/-- Where the scalar equals the local value, the bytes above it equal the local
value's in both runs or in neither. -/
def HiddenAgree (n : Name) (g g' : Gateway) : Prop :=
  let k := width (g.regmap.val n).prop
  let local' := (g.regmap.val n).number
  (cached n g).typed k = local'.typed k →
    (above k (cached n g) = above k local' ↔ above k (cached n g') = above k local')

instance (n : Name) (g g' : Gateway) : Decidable (HiddenAgree n g g') :=
  inferInstanceAs (Decidable (_ → _))

/-- Two runs in the middle of a pass, with the entries `ns` still to come. -/
structure Paired (ns : List Name) (g g' : Gateway) : Prop where
  plcs : g'.plcs = g.plcs
  opcs : SameOpcs g.opcs g'.opcs
  keys : g'.regmap.keys = g.regmap.keys
  regs : ∀ m, SameReg (g.regmap.val m) (g'.regmap.val m)
  todo : ∀ m ∈ ns, g'.regmap.val m = g.regmap.val m

variable {g g' : Gateway} {data data' : ReadData}

theorem Laid.of_config {g g' : Gateway} (h : Laid g) (hc : g.SameConfig g') : Laid g' := by
  refine ⟨fun n hn => ?_, fun n hn hv => ?_⟩
  · rw [hc.keys] at hn
    rw [hc.defs, hc.otherVars]
    exact h.own n hn
  · rw [hc.keys] at hn
    rw [hc.defs, hc.opcs.isVariable] at hv
    rw [Gateway.var, hc.defs, hc.opcs.uaType]
    exact h.uaType n hn hv

theorem cached_typed {n : Name} {ns : List Name} (h : Paired ns g g') (hn : n ∈ ns) (hl : Laid g)
    (hk : n ∈ g.regmap.keys) : (cached n g').typed (width (g.regmap.val n).prop) =
      (cached n g).typed (width (g.regmap.val n).prop) := by
  rw [cached, cached, h.todo n hn]
  exact h.opcs.opcGetValue (g.regmap.val n).path (hl.uaType n hk)

/-- Agreement of the hidden bytes is agreement on "new from OPC". -/
theorem hiddenAgree_iff {n : Name} {ns : List Name} (h : Paired ns g g') (hn : n ∈ ns)
    (hl : Laid g) (hk : n ∈ g.regmap.keys) :
    HiddenAgree n g g' ↔ (g'.turn n).isNewOpc = (g.turn n).isNewOpc := by
  have htyped := cached_typed h hn hl hk
  have hnew : ∀ x : NumericU, differ x (g.regmap.val n).number = false ↔
      x.typed (width (g.regmap.val n).prop) =
        (g.regmap.val n).number.typed (width (g.regmap.val n).prop) ∧
      above (width (g.regmap.val n).prop) x =
        above (width (g.regmap.val n).prop) (g.regmap.val n).number := fun x =>
    differ_eq_false.trans (eq_iff_typed_above _ _ _)
  have hturn : (g.turn n).isNewOpc = differ (cached n g) (g.regmap.val n).number := rfl
  have hturn' : (g'.turn n).isNewOpc = differ (cached n g') (g.regmap.val n).number := by
    rw [← h.todo n hn]
    rfl
  rw [hturn, hturn', ← Bool.not_inj_iff, Bool.eq_iff_iff]
  simp only [Bool.not_eq_true', hnew, htyped, HiddenAgree]
  tauto

theorem cached_congr {n : Name} {V N : Set Name} {P : Set RegPtr}
    (hf : Gateway.Frame N V P g g') (hn : n ∉ N) (hv : (g.regmap.val n).strOpcname ∉ V) :
    cached n g' = cached n g := by
  have hpath := (g.regmap.val n).path
  rw [cached, cached, hf.entries n hn, opcGetValue, opcGetValue,
    OpcServer.getVarFullName_of_slash hpath, OpcServer.getVarFullName_of_slash hpath,
    OpcServer.readRawUnion, OpcServer.readRawUnion, hf.opcs.isVariable, hf.opcs.others _ hv]

theorem Paired.round {n : Name} {ns : List Name} (h : Paired (n :: ns) g g') (hns : n ∉ ns)
    (hl : Laid g) (hk : n ∈ g.regmap.keys) (hdata : SameReads data data')
    (hnew : (g'.turn n).isNewOpc = (g.turn n).isNewOpc) :
    Paired ns (g.refreshEntry data n).1 (g'.refreshEntry data' n).1 ∧
      (g'.refreshEntry data' n).2 = (g.refreshEntry data n).2 := by
  have hturn : g'.turn n = ⟨g.plcs, g.regmap.val n, g'.opcs⟩ := by
    rw [Gateway.turn, h.plcs, h.todo n List.mem_cons_self]
  rw [hturn] at hnew
  have hround := refresh_same h.opcs (hl.uaType n hk) hnew hdata
  have hval : ∀ m, m ≠ n → (g.refreshEntry data n).1.regmap.val m = g.regmap.val m := fun m hm =>
    (Gateway.refreshEntry_frame data n g).entries m hm
  have hval' : ∀ m, m ≠ n → (g'.refreshEntry data' n).1.regmap.val m = g'.regmap.val m :=
    fun m hm => (Gateway.refreshEntry_frame data' n g').entries m hm
  refine ⟨⟨?_, ?_, h.keys, fun m => ?_, fun m hm => ?_⟩, ?_⟩
  · simp only [Gateway.refreshEntry, hturn]
    exact hround.plcs
  · simp only [Gateway.refreshEntry, hturn]
    exact hround.opcs
  · by_cases hm : m = n
    · subst hm
      rw [Gateway.refreshEntry_val, Gateway.refreshEntry_val, hturn]
      exact hround.rm
    · rw [hval m hm, hval' m hm]
      exact h.regs m
  · have hmn : m ≠ n := fun he => hns (he ▸ hm)
    rw [hval m hmn, hval' m hmn]
    exact h.todo m (List.mem_cons_of_mem n hm)
  · simp only [Gateway.refreshEntry, hturn]
    exact hround.decision

theorem HiddenAgree.congr {n : Name} {N V N' V' : Set Name} {P P' : Set RegPtr}
    {h h' : Gateway} (hf : Gateway.Frame N V P g h) (hf' : Gateway.Frame N' V' P' g' h')
    (hn : n ∉ N) (hn' : n ∉ N') (hv : (g.regmap.val n).strOpcname ∉ V)
    (hv' : (g'.regmap.val n).strOpcname ∉ V') : HiddenAgree n h h' ↔ HiddenAgree n g g' := by
  rw [HiddenAgree, HiddenAgree, cached_congr hf hn hv, cached_congr hf' hn' hv', hf.entries n hn]

theorem refreshEntry_isNewOpc (data : ReadData) (n : Name) (g : Gateway) :
    (g.refreshEntry data n).2.isNewOpc = (g.turn n).isNewOpc := by
  simp only [Gateway.refreshEntry, Turn.refresh]
  split_ifs <;> rfl

/-- The rounds still to come decide alike exactly if the hidden bytes agree in
every one of them, and then the runs end alike. -/
theorem Paired.rounds {ns : List Name} (h : Paired ns g g') (hnd : ns.Nodup) (hl : Laid g)
    (hk : ∀ n ∈ ns, n ∈ g.regmap.keys) (hdata : SameReads data data') :
    ((Gateway.refreshEntries data' ns g').2 = (Gateway.refreshEntries data ns g).2 ↔
      ∀ n ∈ ns, HiddenAgree n g g') ∧
    ((∀ n ∈ ns, HiddenAgree n g g') →
      Paired [] (Gateway.refreshEntries data ns g).1 (Gateway.refreshEntries data' ns g').1) := by
  induction ns generalizing g g' with
  | nil => exact ⟨by simp [Gateway.refreshEntries], fun _ => h⟩
  | cons n ns ih =>
      obtain ⟨hns, hnd⟩ := List.nodup_cons.mp hnd
      have hkn := hk n List.mem_cons_self
      have hhead := hiddenAgree_iff h List.mem_cons_self hl hkn
      by_cases hnew : (g'.turn n).isNewOpc = (g.turn n).isNewOpc
      · have hf := Gateway.refreshEntry_frame data n g
        have hf' := Gateway.refreshEntry_frame data' n g'
        obtain ⟨hpair, hdec⟩ := h.round hns hl hkn hdata hnew
        have hrest : ∀ m ∈ ns, HiddenAgree m (g.refreshEntry data n).1 (g'.refreshEntry data' n).1 ↔
            HiddenAgree m g g' := by
          intro m hm
          have hmn : m ≠ n := fun he => hns (he ▸ hm)
          have hmk := hk m (List.mem_cons_of_mem n hm)
          have hv : (g.regmap.val m).strOpcname ∉ varsOf (g.regmap.val n).toRegDef := fun hv =>
            hl.own m hmk ⟨n, hkn, hmn.symm, hv⟩
          refine HiddenAgree.congr hf hf' hmn hmn hv ?_
          rw [h.todo m (List.mem_cons_of_mem n hm), h.todo n List.mem_cons_self]
          exact hv
        have htail := ih hpair hnd (hl.of_config hf.sameConfig)
          (fun m hm => hk m (List.mem_cons_of_mem n hm))
        simp only [Gateway.refreshEntries, List.cons.injEq, List.forall_mem_cons, hdec, true_and]
        rw [htail.1]
        have hall : (∀ m ∈ ns, HiddenAgree m (g.refreshEntry data n).1
            (g'.refreshEntry data' n).1) ↔ ∀ m ∈ ns, HiddenAgree m g g' :=
          forall₂_congr hrest
        refine ⟨?_, fun hc => htail.2 (hall.mpr hc.2)⟩
        rw [hall, hhead]
        simp [hnew]
      · -- the entry's own decision already differs
        have hno : ¬ HiddenAgree n g g' := fun hc => hnew (hhead.mp hc)
        refine ⟨⟨fun heq => ?_, fun hc => absurd (hc n List.mem_cons_self) hno⟩,
          fun hc => absurd (hc n List.mem_cons_self) hno⟩
        simp only [Gateway.refreshEntries, List.cons.injEq, Prod.mk.injEq, true_and] at heq
        have hdec := congrArg Decision.isNewOpc heq.1
        rw [refreshEntry_isNewOpc, refreshEntry_isNewOpc] at hdec
        exact absurd hdec hnew

/-- Two passes with the same decisions, words, update flags, and typed local and
OPC values. -/
structure SamePass (r r' : Gateway × List (Name × Decision)) : Prop where
  decisions : r'.2 = r.2
  plcs : r'.1.plcs = r.1.plcs
  regs : ∀ m, SameReg (r.1.regmap.val m) (r'.1.regmap.val m)
  opcs : SameOpcs r.1.opcs r'.1.opcs

/-- Two passes over the same words and local values and caches that differ above
the scalars have the same outcome exactly if, in every entry whose scalar equals
its local value, the hidden bytes decide the comparison the same way. -/
theorem samePass_iff {o' : OpcServer} (hl : Laid g) (ho : SameOpcs g.opcs o')
    (hdata : SameReads data data') :
    SamePass (g.taskRegsRefresh data) ({ g with opcs := o' }.taskRegsRefresh data') ↔
      ∀ n ∈ g.regmap.keys, HiddenAgree n g { g with opcs := o' } := by
  have hpair : Paired g.regmap.keys g { g with opcs := o' } :=
    ⟨rfl, ho, rfl, fun m => SameReg.refl _, fun _ _ => rfl⟩
  obtain ⟨hiff, hend⟩ := hpair.rounds g.regmap.nodup hl (fun _ hn => hn) hdata
  refine ⟨fun h => hiff.mp h.decisions, fun h => ?_⟩
  have hlast := hend h
  exact ⟨hiff.mpr h, hlast.plcs, hlast.regs, hlast.opcs⟩

/-- A word at 7 over a local value and a cached scalar of 5, with `w` above it. -/
def stale (w : Word) : Gateway :=
  small { rvalue := 7, rmode := 1 } (smallEntry 1 0 (.ofUi16 5))
    { uaType := .uint16, rawValue := { w0 := 5, w1 := w }, node := .ofUi16 5 }

theorem stale_laid (w : Word) : Laid (stale w) := by
  have hv : (stale w).OwnVariable ['v'] := small_ownVariable rfl rfl rfl
  refine ⟨fun n hn => ?_, fun n hn _ => ?_⟩
  · obtain rfl := List.mem_singleton.mp hn
    exact hv.own
  · obtain rfl := List.mem_singleton.mp hn
    exact hv.uaType

theorem stale_sameOpcs (w w' : Word) : SameOpcs (stale w).opcs (stale w').opcs :=
  ⟨rfl, rfl, fun _ => ⟨rfl, rfl, rfl, rfl, rfl⟩⟩

theorem stale_samePass : SamePass ((stale 1).taskRegsRefresh fun _ => none)
    ((stale 2).taskRegsRefresh fun _ => none) :=
  (samePass_iff (stale_laid 1) (stale_sameOpcs 1 2) fun _ => rfl).mpr (by decide)

/-- With clean bytes above the scalar the word stays 7, with garbage it becomes 5. -/
theorem stale_differs : ¬ ∀ (g : Gateway) (o' : OpcServer) (data data' : ReadData), Laid g →
    SameOpcs g.opcs o' → SameReads data data' →
    SamePass (g.taskRegsRefresh data) ({ g with opcs := o' }.taskRegsRefresh data') := by
  intro h
  have hpass := h (stale 0) (stale 1).opcs (fun _ => none) (fun _ => none) (stale_laid 0)
    (stale_sameOpcs 0 1) fun _ => rfl
  have hword := congrArg (fun plcs : PlcVec => (plcs.data ⟨0, 0⟩).rvalue) hpass.plcs
  revert hword
  decide

end RwModbus.HiddenBytes
