import RwModbus.Number
import RwModbus.System

/-!
# The answer of the REST interface

`JSON_reg` maps names to numbers. Every round of a pass ends with `json_update`,
which stores the entry's local value under its name and, for a heartbeat, the
value of the status variable under that one's name. When the loop is done, the
object is dumped to the string that the server hands out until the next pass;
the layout of the string is left out.
-/
namespace RwModbus.JsonAnswer
open Numeric Registers Reg Opc Refresh Sys Number

/-- What `get_type` of an entry's `Number` returns. The constructor sets `var_type_ua`,
but a type without variables gives way to that of the word it then assigns. -/
def numberType (d : RegDef) : UaType := d.prop.rtype.uaType.getD .uint16

/-- A number as the JSON library stores it, or the `false` of an unknown type. -/
inductive JsonValue where
  | integer (n : ℤ)
  | unsigned (n : ℕ)
  | float (bits : BitVec 32)
  | double (bits : BitVec 64)
  | boolean (b : Bool)
deriving DecidableEq, Repr

abbrev Answer := KeyedMap Name JsonValue

/-- The value that `json_set_number` picks. -/
def jsonSetNumber (typeUa : ℤ) (v : NumericU) : JsonValue :=
  if typeUa = code .int16 then .integer v.ui16.toInt
  else if typeUa = code .int32 then .integer v.ui32.toInt
  else if typeUa = code .int64 then .integer v.ui64.toInt
  else if typeUa = code .uint16 then .unsigned v.ui16.toNat
  else if typeUa = code .uint32 then .unsigned v.ui32.toNat
  else if typeUa = code .uint64 then .unsigned v.ui64.toNat
  else if typeUa = code .float then .float v.ui32
  else if typeUa = code .double then .double v.ui64
  else if typeUa = f10 then .float v.ui32
  else if typeUa = f100 then .float v.ui32
  else .boolean false

/-- The value of an entry. -/
def jsonNumber (rm : RegC) : JsonValue := jsonSetNumber (code (numberType rm.toRegDef)) rm.number

/-- `json_update`. The status is read into an unset variable. -/
def jsonUpdate (data unset : ReadData) (rm : RegC) (o : OpcServer) (J : Answer) :
    OpcServer × Answer :=
  let J := J.insert rm.strOpcname (jsonNumber rm)
  if millisSuffix <:+ rm.strOpcname then
    let s := statusName rm.strOpcname
    let full := o.getVarFullName s
    let r := OpcServer.readNumber (data full) full ((unset s).getD {}) o
    (r.1, J.insert s (.integer r.2.1.ui16.toInt))
  else (o, J)

/-- The loop body of `task_regs_refresh_` with the object. -/
def jsonRound (data unset : ReadData) (s : Gateway × Answer) (n : Name) : Gateway × Answer :=
  let t := s.1.turn n
  let r := if t.rm.kind = .scada then t.refreshScada else t.refreshModbus
  let u := jsonUpdate data unset r.rm r.opcs s.2
  ({ plcs := r.plcs, regmap := s.1.regmap.modify n fun _ => r.rm, opcs := u.1 }, u.2)

def jsonPass (data unset : ReadData) (g : Gateway) (J : Answer) : Gateway × Answer :=
  g.regmap.keys.foldl (jsonRound data unset) (g, J)

/-- The gateway with `JSON_reg` and `json_dump`. -/
structure Api where
  sys : System
  jsonReg : Answer
  jsonDump : Answer

/-- A step of the gateway, with what unset variables hold during it. -/
structure Label where
  event : Event
  unset : ReadData

def serve (a : Api) (l : Label) : Api :=
  match l.event with
  | .pass data =>
      let r := jsonPass data l.unset a.sys.gateway a.jsonReg
      { sys := { a.sys with gateway := r.1 }, jsonReg := r.2, jsonDump := r.2 }
  | e => { a with sys := step a.sys e }

def Label.isPass (l : Label) : Bool :=
  match l.event with
  | .pass _ => true
  | _ => false

variable {data unset : ReadData} {g : Gateway} {J : Answer} {n : Name}

theorem jsonUpdate_fst (rm : RegC) (o : OpcServer) :
    (jsonUpdate data unset rm o J).1 = Refresh.jsonUpdate data rm.strOpcname o := by
  unfold jsonUpdate Refresh.jsonUpdate OpcServer.readValue
  split_ifs
  · rw [OpcServer.readNumber_fst, OpcServer.readNumber_fst]
  · rfl

/-- The object does not get in the way of the pass. -/
theorem jsonRound_fst (s : Gateway × Answer) :
    (jsonRound data unset s n).1 = (s.1.refreshEntry data n).1 := by
  simp only [jsonRound, Gateway.refreshEntry, Turn.refresh, jsonUpdate_fst]

theorem rounds_fst (ms : List Name) (s : Gateway × Answer) :
    (ms.foldl (jsonRound data unset) s).1 = (Gateway.refreshEntries data ms s.1).1 := by
  induction ms generalizing s with
  | nil => rfl
  | cons m ms ih =>
      rw [List.foldl_cons, ih, jsonRound_fst]
      rfl

theorem jsonPass_fst : (jsonPass data unset g J).1 = (g.taskRegsRefresh data).1 :=
  rounds_fst g.regmap.keys (g, J)

theorem mem_jsonUpdate_keys {rm : RegC} {o : OpcServer} {s : Name} :
    s ∈ (jsonUpdate data unset rm o J).2.keys ↔ s ∈ varsOf rm.toRegDef ∨ s ∈ J.keys := by
  unfold jsonUpdate varsOf
  split_ifs with hm
  · simp only [KeyedMap.mem_insert_keys, Set.mem_ofPred_eq, hm, true_and]
    rw [or_assoc, or_left_comm]
  · simp [hm]

theorem jsonUpdate_val_own {rm : RegC} {o : OpcServer} :
    (jsonUpdate data unset rm o J).2.val rm.strOpcname = jsonNumber rm := by
  unfold jsonUpdate
  split_ifs with hm
  · rw [KeyedMap.insert_val_of_ne _ (statusName_ne hm).symm, KeyedMap.insert_val_self]
  · exact KeyedMap.insert_val_self _ _ _

theorem jsonUpdate_val_other {rm : RegC} {o : OpcServer} {s : Name}
    (hs : s ∉ varsOf rm.toRegDef) : (jsonUpdate data unset rm o J).2.val s = J.val s := by
  have hown : s ≠ rm.strOpcname := fun h => hs (Or.inl h)
  unfold jsonUpdate
  split_ifs with hm
  · have hstatus : s ≠ statusName rm.strOpcname := fun h => hs (Or.inr ⟨hm, h⟩)
    rw [KeyedMap.insert_val_of_ne _ hstatus, KeyedMap.insert_val_of_ne _ hown]
  · exact KeyedMap.insert_val_of_ne _ hown _

/-- The entry after its round, which is the one that `json_update` sees. -/
theorem jsonRound_entry (data unset : ReadData) (n : Name) (s : Gateway × Answer) :
    ∃ rm o, rm = (s.1.refreshEntry data n).1.regmap.val n ∧
      (jsonRound data unset s n).2 = (jsonUpdate data unset rm o s.2).2 := by
  refine ⟨_, _, ?_, rfl⟩
  simp only [Gateway.refreshEntry_val, Turn.refresh]

theorem mem_jsonRound_keys {s : Gateway × Answer} {t : Name} :
    t ∈ (jsonRound data unset s n).2.keys ↔
      t ∈ varsOf (s.1.regmap.val n).toRegDef ∨ t ∈ s.2.keys := by
  obtain ⟨rm, o, hrm, hJ⟩ := jsonRound_entry data unset n s
  rw [hJ, mem_jsonUpdate_keys, hrm, (Gateway.refreshEntry_frame data n s.1).defs]

theorem jsonRound_val_own (data unset : ReadData) (n : Name) (s : Gateway × Answer) :
    (jsonRound data unset s n).2.val (s.1.regmap.val n).strOpcname =
      jsonNumber ((s.1.refreshEntry data n).1.regmap.val n) := by
  obtain ⟨rm, o, hrm, hJ⟩ := jsonRound_entry data unset n s
  have hname : (s.1.regmap.val n).strOpcname = rm.strOpcname := by
    rw [hrm, (Gateway.refreshEntry_frame data n s.1).defs]
  rw [hJ, hname, jsonUpdate_val_own, hrm]

theorem jsonRound_val_other {s : Gateway × Answer} {t : Name}
    (ht : t ∉ varsOf (s.1.regmap.val n).toRegDef) :
    (jsonRound data unset s n).2.val t = s.2.val t := by
  obtain ⟨rm, o, hrm, hJ⟩ := jsonRound_entry data unset n s
  rw [hJ, jsonUpdate_val_other]
  rwa [hrm, (Gateway.refreshEntry_frame data n s.1).defs]

theorem jsonRound_defs (s : Gateway × Answer) (m : Name) :
    ((jsonRound data unset s n).1.regmap.val m).toRegDef = (s.1.regmap.val m).toRegDef := by
  rw [jsonRound_fst, (Gateway.refreshEntry_frame data n s.1).defs]

theorem mem_rounds_keys {ms : List Name} {s : Gateway × Answer} {t : Name} :
    t ∈ (ms.foldl (jsonRound data unset) s).2.keys ↔
      (∃ m ∈ ms, t ∈ varsOf (s.1.regmap.val m).toRegDef) ∨ t ∈ s.2.keys := by
  induction ms generalizing s with
  | nil => simp
  | cons m ms ih =>
      rw [List.foldl_cons, ih, mem_jsonRound_keys]
      simp only [jsonRound_defs, List.mem_cons, exists_eq_or_imp]
      rw [or_assoc, or_left_comm]

theorem rounds_val_other {ms : List Name} {s : Gateway × Answer} {t : Name}
    (ht : ∀ m ∈ ms, t ∉ varsOf (s.1.regmap.val m).toRegDef) :
    (ms.foldl (jsonRound data unset) s).2.val t = s.2.val t := by
  induction ms generalizing s with
  | nil => rfl
  | cons m ms ih =>
      rw [List.foldl_cons, ih, jsonRound_val_other (ht m List.mem_cons_self)]
      intro k hk
      rw [jsonRound_defs]
      exact ht k (List.mem_cons_of_mem m hk)

theorem mem_jsonPass_keys {t : Name} : t ∈ (jsonPass data unset g J).2.keys ↔
    (∃ m ∈ g.regmap.keys, t ∈ varsOf (g.regmap.val m).toRegDef) ∨ t ∈ J.keys := mem_rounds_keys

/-- An entry with a name of its own finds its value under it at the end of the pass. -/
theorem jsonPass_val (hn : n ∈ g.regmap.keys)
    (hown : (g.regmap.val n).strOpcname ∉ g.otherVars n) :
    (jsonPass data unset g J).2.val (g.regmap.val n).strOpcname =
      jsonNumber ((g.taskRegsRefresh data).1.regmap.val n) := by
  have hat := Gateway.atTurn_frame data n g
  have hbefore : ((g.regmap.before n).foldl (jsonRound data unset) (g, J)).1 = g.atTurn data n :=
    rounds_fst _ _
  have hsplit : jsonPass data unset g J = (g.regmap.after n).foldl (jsonRound data unset)
      (jsonRound data unset ((g.regmap.before n).foldl (jsonRound data unset) (g, J)) n) := by
    rw [jsonPass, g.regmap.keys_split hn, List.foldl_append, List.foldl_cons]
  rw [hsplit, rounds_val_other]
  · have hround := jsonRound_val_own data unset n
      ((g.regmap.before n).foldl (jsonRound data unset) (g, J))
    rw [hbefore, hat.defs] at hround
    rw [hround, (Gateway.afterTurn_frame hn data).entries n fun hne => hne rfl]
  · intro m hm hmem
    rw [jsonRound_defs, hbefore, hat.defs] at hmem
    refine hown ⟨m, KeyedMap.mem_of_mem_after hm, fun h => ?_, hmem⟩
    exact g.regmap.notMem_after hn (h ▸ hm)

theorem serve_other {a : Api} {l : Label} (h : l.isPass = false) :
    (serve a l).jsonReg = a.jsonReg ∧ (serve a l).jsonDump = a.jsonDump ∧
      (serve a l).sys.gateway.regmap = a.sys.gateway.regmap := by
  obtain ⟨e, unset⟩ := l
  cases e with
  | pass data => exact absurd h Bool.noConfusion
  | clientWrite v x => exact ⟨rfl, rfl, rfl⟩
  | writeValue v x data => exact ⟨rfl, rfl, rfl⟩
  | refreshAll data => exact ⟨rfl, rfl, rfl⟩
  | poll i env => exact ⟨rfl, rfl, rfl⟩
  | writeOut i env => exact ⟨rfl, rfl, rfl⟩

/-- The served object has the names in `K` and those of the entries and nothing else,
and shows the local value of every entry with a name of its own. -/
structure Serves (K : Set Name) (a : Api) : Prop where
  names : ∀ t, t ∈ a.jsonDump.keys ↔
    (∃ m ∈ a.sys.gateway.regmap.keys, t ∈ varsOf (a.sys.gateway.regmap.val m).toRegDef) ∨ t ∈ K
  values : ∀ n ∈ a.sys.gateway.regmap.keys,
    (a.sys.gateway.regmap.val n).strOpcname ∉ a.sys.gateway.otherVars n →
    a.jsonDump.val (a.sys.gateway.regmap.val n).strOpcname =
      jsonNumber (a.sys.gateway.regmap.val n)

/-- The object that the passes work on has the names in `K`, and of others none but
those of entries. -/
structure Grows (K : Set Name) (a : Api) : Prop where
  old : ∀ t ∈ K, t ∈ a.jsonReg.keys
  new : ∀ t ∈ a.jsonReg.keys,
    (∃ m ∈ a.sys.gateway.regmap.keys, t ∈ varsOf (a.sys.gateway.regmap.val m).toRegDef) ∨ t ∈ K

variable {K : Set Name} {a : Api} {l : Label}

theorem Grows.pass (h : Grows K a) (hl : l.isPass = true) :
    Grows K (serve a l) ∧ Serves K (serve a l) := by
  obtain ⟨e, unset⟩ := l
  cases e with
  | pass data =>
      have hf := Gateway.taskRegsRefresh_frame data a.sys.gateway
      have hsys : (serve a ⟨.pass data, unset⟩).sys.gateway =
          (a.sys.gateway.taskRegsRefresh data).1 := jsonPass_fst
      have hnames : ∀ t, t ∈ (serve a ⟨.pass data, unset⟩).jsonReg.keys ↔
          (∃ m ∈ a.sys.gateway.regmap.keys, t ∈ varsOf (a.sys.gateway.regmap.val m).toRegDef) ∨
            t ∈ K := by
        intro t
        refine mem_jsonPass_keys.trans ⟨fun ht => ?_, fun ht => ht.imp_right (h.old t)⟩
        exact ht.elim Or.inl (h.new t)
      have hkeep : ∀ t, t ∈ (serve a ⟨.pass data, unset⟩).jsonReg.keys ↔
          (∃ m ∈ (serve a ⟨.pass data, unset⟩).sys.gateway.regmap.keys,
            t ∈ varsOf ((serve a ⟨.pass data, unset⟩).sys.gateway.regmap.val m).toRegDef) ∨
            t ∈ K := by
        intro t
        rw [hsys, hf.keys]
        simp only [hf.defs]
        exact hnames t
      refine ⟨⟨fun t ht => (hkeep t).mpr (Or.inr ht), fun t ht => (hkeep t).mp ht⟩, hkeep, ?_⟩
      intro n hn hown
      rw [hsys, hf.keys] at hn
      rw [hsys, hf.defs, hf.sameConfig.otherVars] at hown
      rw [hsys, hf.defs]
      exact jsonPass_val hn hown
  | clientWrite v x => exact absurd hl Bool.noConfusion
  | writeValue v x data => exact absurd hl Bool.noConfusion
  | refreshAll data => exact absurd hl Bool.noConfusion
  | poll i env => exact absurd hl Bool.noConfusion
  | writeOut i env => exact absurd hl Bool.noConfusion

theorem Grows.other (h : Grows K a) (hl : l.isPass = false) : Grows K (serve a l) := by
  obtain ⟨hreg, -, hmap⟩ := serve_other (a := a) hl
  refine ⟨?_, ?_⟩
  · rw [hreg]
    exact h.old
  · rw [hreg, hmap]
    exact h.new

theorem Serves.other (h : Serves K a) (hl : l.isPass = false) : Serves K (serve a l) := by
  obtain ⟨-, hdump, hmap⟩ := serve_other (a := a) hl
  refine ⟨?_, ?_⟩
  · rw [hdump, hmap]
    exact h.names
  · simp only [Gateway.otherVars, hdump, hmap]
    exact h.values

theorem Grows.step (h : Grows K a) (l : Label) : Grows K (serve a l) := by
  cases hl : l.isPass with
  | true => exact (h.pass hl).1
  | false => exact h.other hl

/-- From the first pass on, the served object shows the local value of every entry
with a name of its own, and it has no names but those of entries and those that
were there before. -/
theorem run_serves (a : Api) (es fs : List Label) (data unset : ReadData) :
    Serves {t | t ∈ a.jsonReg.keys}
      (Runs.run serve a (es ++ ⟨.pass data, unset⟩ :: fs)) := by
  have hgrows : Grows {t | t ∈ a.jsonReg.keys} (Runs.run serve a es) :=
    Runs.invariant (fun _ l h => h.step l) es ⟨fun _ ht => ht, fun _ ht => Or.inr ht⟩
  rw [Runs.run_append, Runs.run_cons]
  refine (Runs.invariant (I := fun a' => Grows {t | t ∈ a.jsonReg.keys} a' ∧
    Serves {t | t ∈ a.jsonReg.keys} a') ?_ fs (hgrows.pass rfl)).2
  intro a' l h
  cases hl : l.isPass with
  | true => exact h.1.pass hl
  | false => exact ⟨h.1.other hl, h.2.other hl⟩

/-- What can happen to a process: a step, or `reinit`, which replaces everything but
the object and the text. -/
inductive Life where
  | task (l : Label)
  | reinit (s : System)

def live (a : Api) : Life → Api
  | .task l => serve a l
  | .reinit s => { a with sys := s }

/-- `main` before the first pass. -/
def fresh (s : System) : Api where
  sys := s
  jsonReg := .empty fun _ => .boolean false
  jsonDump := .empty fun _ => .boolean false

/-- An entry of the configuration shows up under the name. -/
def Named (t : Name) (g : Gateway) : Prop :=
  ∃ m ∈ g.regmap.keys, t ∈ varsOf (g.regmap.val m).toRegDef

/-- No pass runs while an entry has the name. -/
def Unnamed (t : Name) (a : Api) : Life → Prop
  | .task l => l.isPass = true → ¬ Named t a.sys.gateway
  | .reinit _ => True

variable {t : Name}

theorem live_answer (a : Api) (x : Life) :
    (t ∈ (live a x).jsonReg.keys ↔ t ∈ a.jsonReg.keys ∨ ¬ Unnamed t a x) ∧
      (Unnamed t a x → (live a x).jsonReg.val t = a.jsonReg.val t) := by
  match x with
  | .reinit s => simp [live, Unnamed]
  | .task ⟨e, unset⟩ =>
      cases e with
      | pass data =>
          have hun : Unnamed t a (.task ⟨.pass data, unset⟩) ↔ ¬ Named t a.sys.gateway := by
            simp [Unnamed, Label.isPass]
          rw [hun, not_not]
          refine ⟨mem_jsonPass_keys.trans or_comm, fun h => rounds_val_other fun m hm hmem => ?_⟩
          exact h ⟨m, hm, hmem⟩
      | clientWrite v y => simp [live, serve, Unnamed, Label.isPass]
      | writeValue v y data => simp [live, serve, Unnamed, Label.isPass]
      | refreshAll data => simp [live, serve, Unnamed, Label.isPass]
      | poll i env => simp [live, serve, Unnamed, Label.isPass]
      | writeOut i env => simp [live, serve, Unnamed, Label.isPass]

theorem live_dump {a : Api} (h : a.jsonDump = a.jsonReg) (x : Life) :
    (live a x).jsonDump = (live a x).jsonReg := by
  match x with
  | .reinit s => exact h
  | .task ⟨e, unset⟩ => cases e <;> first | rfl | exact h

theorem run_answer (a : Api) (es : List Life) :
    (t ∈ (Runs.run live a es).jsonReg.keys ↔
      t ∈ a.jsonReg.keys ∨ ¬ Runs.Along live (Unnamed t) a es) ∧
      (Runs.Along live (Unnamed t) a es →
        (Runs.run live a es).jsonReg.val t = a.jsonReg.val t) := by
  induction es generalizing a with
  | nil => simp [Runs.Along]
  | cons x es ih =>
      obtain ⟨hmem, hval⟩ := live_answer (t := t) a x
      obtain ⟨hmem', hval'⟩ := ih (live a x)
      refine ⟨?_, fun h => (hval' h.2).trans (hval h.1)⟩
      rw [Runs.run_cons, hmem', hmem, Runs.Along, not_and_or, or_assoc]

/-- The text never loses a name: it has every name that an entry had in a pass, under
whatever configuration, and shows the value of the last such pass. -/
theorem names_stay (s : System) (t : Name) (es fs : List Life) :
    (t ∈ (Runs.run live (fresh s) es).jsonDump.keys ↔
      ¬ Runs.Along live (Unnamed t) (fresh s) es) ∧
    (Runs.Along live (Unnamed t) (Runs.run live (fresh s) es) fs →
      (Runs.run live (fresh s) (es ++ fs)).jsonDump.val t =
        (Runs.run live (fresh s) es).jsonDump.val t) := by
  have hdump : ∀ xs, (Runs.run live (fresh s) xs).jsonDump = (Runs.run live (fresh s) xs).jsonReg :=
    fun xs => Runs.invariant (I := fun a : Api => a.jsonDump = a.jsonReg)
      (fun _ x h => live_dump h x) xs rfl
  rw [hdump, hdump, Runs.run_append]
  refine ⟨(run_answer (fresh s) es).1.trans (or_iff_right List.not_mem_nil), ?_⟩
  exact (run_answer (Runs.run live (fresh s) es) fs).2

end RwModbus.JsonAnswer
