import RwModbus.System
import RwModbus.OneWord

/-!
# From the client to the device

One writable word with a variable of its own and a passive device. Its value
exists five times: server node, cache, local value, PLC word and device
register. Each copy trails the one before it in the sequence of the client's
writes, and that order is the invariant of every interleaving of the tasks.
-/
namespace RwModbus.DataFlow
open Numeric Registers Reg Opc Refresh Master OneWord Sys

/-- A running system with what has been written to one variable by clients, and
to one device register by the gateway. -/
structure History where
  sys : System
  fromClient : List Word := []
  toDevice : List Word := []

/-- The values that a client writes to variable `v` in a step. -/
def clientValues (v : Name) : Event → List Word
  | .clientWrite t x => if t = v then [x.ui16] else []
  | _ => []

/-- The values that the device of register `p` acknowledges for it in a step. -/
def deviceValues (p : RegPtr) (s : System) : Event → List Word
  | .writeOut i env =>
      if i = p.plc then writesTo p.raddr (ackedWrites (writeMaster env (s.gateway.plcs i)).2)
      else []
  | _ => []

def record (v : Name) (p : RegPtr) (h : History) (e : Event) : History where
  sys := step h.sys e
  fromClient := h.fromClient ++ clientValues v e
  toDevice := h.toDevice ++ deviceValues p h.sys e

/-- Clients write, the caches are refreshed with clear upper bytes in `v`, passes
run, and the polls and write-outs of the register's device succeed. -/
def Allowed (v : Name) (p : RegPtr) (h : History) : Event → Prop
  | .clientWrite _ _ => True
  | .writeValue _ _ _ => False
  | .refreshAll data => ∀ beyond, data v = some beyond →
      beyond.w1 = 0 ∧ beyond.w2 = 0 ∧ beyond.w3 = 0
  | .pass _ => True
  | .poll i env => i = p.plc → 0 < (readMaster (h.sys.devices i) env (h.sys.gateway.plcs i)).1.rc
  | .writeOut i env => i = p.plc → (writeMaster env (h.sys.gateway.plcs i)).1.rcWrite = 0

/-- What is assumed of the copies: entry `n` is alone over register `p`, and nothing has failed. -/
structure Copies (n : Name) (p : RegPtr) (s : System) : Prop where
  sole : Sole s.gateway n p
  registered : p.raddr ∈ (s.gateway.plcs p.plc).regs.keys
  rerrors : (s.gateway.plcs.data p).rerrors = 0
  varErrors : (s.gateway.regmap.val n).varErrors = 0
  uaStatus : (s.gateway.var n).uaStatus = statusGood

/-- All copies agree on `x` and no update is pending. -/
structure Start (n : Name) (p : RegPtr) (x : Word) (s : System) : Prop extends Copies n p s where
  node : (s.gateway.var n).node = .ofUi16 x
  cache : (s.gateway.var n).rawValue = .ofUi16 x
  localVal : (s.gateway.regmap.val n).number = .ofUi16 x
  word : (s.gateway.plcs.data p).rvalue = x
  rupdate : (s.gateway.plcs.data p).rupdate = 0
  device : s.devices p.plc p.raddr = x

/-- What is promised of every reachable state. -/
structure Consistent (n : Name) (p : RegPtr) (x : Word) (h : History) : Prop where
  node : (h.sys.gateway.var n).node = .ofUi16 (h.fromClient.getLastD x)
  localWord : (h.sys.gateway.regmap.val n).number = .ofUi16 (h.sys.gateway.plcs.data p).rvalue
  synced : (h.sys.gateway.plcs.data p).rupdate = 0 →
    (h.sys.gateway.plcs.data p).rvalue = h.sys.devices p.plc p.raddr
  ordered : h.toDevice.Sublist h.fromClient
  settled : (h.sys.gateway.var n).rawValue = (h.sys.gateway.var n).node →
    (h.sys.gateway.regmap.val n).number = (h.sys.gateway.var n).rawValue →
    (h.sys.gateway.plcs.data p).rupdate = 0 →
    h.sys.devices p.plc p.raddr = h.fromClient.getLastD x

/-- The client's writes fall into three parts: the word has the last value of
`taken`, the cache the last one of `cached`, and the rest is in the node only.
The device has what was sent of `taken`; a pending word is yet to be sent. -/
structure Chain (n : Name) (p : RegPtr) (x : Word) (h : History) (taken cached fresh : List Word) :
    Prop extends Copies n p h.sys where
  split : h.fromClient = taken ++ cached ++ fresh
  node : (h.sys.gateway.var n).node = .ofUi16 (h.fromClient.getLastD x)
  cache : (h.sys.gateway.var n).rawValue = .ofUi16 ((taken ++ cached).getLastD x)
  localWord : (h.sys.gateway.regmap.val n).number = .ofUi16 (h.sys.gateway.plcs.data p).rvalue
  word : (h.sys.gateway.plcs.data p).rvalue = taken.getLastD x
  sent : (h.sys.gateway.plcs.data p).rupdate = 0 →
    (h.sys.gateway.plcs.data p).rvalue = h.sys.devices p.plc p.raddr ∧ h.toDevice.Sublist taken
  pending : (h.sys.gateway.plcs.data p).rupdate ≠ 0 →
    ∃ done, taken = done ++ [(h.sys.gateway.plcs.data p).rvalue] ∧ h.toDevice.Sublist done

variable {n : Name} {p : RegPtr} {x : Word}

theorem Start.chain {s : System} (h : Start n p x s) : Chain n p x ⟨s, [], []⟩ [] [] [] := by
  refine ⟨h.toCopies, rfl, h.node, h.cache, ?_, h.word, fun _ => ⟨?_, List.Sublist.refl _⟩,
    fun hne => absurd h.rupdate hne⟩
  · rw [h.word]
    exact h.localVal
  · exact h.word.trans h.device.symm

/-- The invariant gives the promises. -/
theorem Chain.consistent {h : History} {taken cached fresh : List Word}
    (hc : Chain n p x h taken cached fresh) : Consistent n p x h := by
  refine ⟨hc.node, hc.localWord, fun hu => (hc.sent hu).1, ?_, fun hraw hnum hu => ?_⟩
  · have hprefix : taken.Sublist h.fromClient := by
      rw [hc.split, List.append_assoc]
      exact List.sublist_append_left taken _
    by_cases hu : (h.sys.gateway.plcs.data p).rupdate = 0
    · exact (hc.sent hu).2.trans hprefix
    · obtain ⟨done, hdone, hsub⟩ := hc.pending hu
      exact (hsub.trans (hdone ▸ List.sublist_append_left done _)).trans hprefix
  · rw [hraw, hc.node, hc.localWord, NumericU.ofUi16_inj] at hnum
    rw [← hnum]
    exact (hc.sent hu).1.symm

variable {h : History} {taken cached fresh : List Word}

theorem Chain.congr (hc : Chain n p x h taken cached fresh) {h' : History}
    (hcopies : Copies n p h'.sys) (hvar : h'.sys.gateway.var n = h.sys.gateway.var n)
    (hnum : (h'.sys.gateway.regmap.val n).number = (h.sys.gateway.regmap.val n).number)
    (hval : (h'.sys.gateway.plcs.data p).rvalue = (h.sys.gateway.plcs.data p).rvalue)
    (hupd : (h'.sys.gateway.plcs.data p).rupdate = (h.sys.gateway.plcs.data p).rupdate)
    (hdev : h'.sys.devices p.plc p.raddr = h.sys.devices p.plc p.raddr)
    (hfrom : h'.fromClient = h.fromClient) (hto : h'.toDevice = h.toDevice) :
    Chain n p x h' taken cached fresh := by
  refine ⟨hcopies, hfrom.trans hc.split, ?_, ?_, ?_, hval.trans hc.word, ?_, ?_⟩
  · rw [hvar, hfrom]
    exact hc.node
  · rw [hvar]
    exact hc.cache
  · rw [hnum, hval]
    exact hc.localWord
  · rw [hupd, hval, hdev, hto]
    exact hc.sent
  · rw [hupd, hval, hto]
    exact hc.pending

theorem Chain.sent_sublist (hc : Chain n p x h taken cached fresh) :
    h.toDevice.Sublist taken := by
  by_cases hu : (h.sys.gateway.plcs.data p).rupdate = 0
  · exact (hc.sent hu).2
  · obtain ⟨done, hdone, hsub⟩ := hc.pending hu
    exact hsub.trans (hdone ▸ List.sublist_append_left done _)

/-- The pending word goes out. -/
theorem Chain.ack (hc : Chain n p x h taken cached fresh) {h' : History}
    (hcopies : Copies n p h'.sys) (hvar : h'.sys.gateway.var n = h.sys.gateway.var n)
    (hnum : (h'.sys.gateway.regmap.val n).number = (h.sys.gateway.regmap.val n).number)
    (hreg : h'.sys.gateway.plcs.data p =
      { h.sys.gateway.plcs.data p with rupdate := 0, rerrors := 0 })
    (hpend : (h.sys.gateway.plcs.data p).rupdate ≠ 0)
    (hdev : h'.sys.devices p.plc p.raddr = (h.sys.gateway.plcs.data p).rvalue)
    (hfrom : h'.fromClient = h.fromClient)
    (hto : h'.toDevice = h.toDevice ++ [(h.sys.gateway.plcs.data p).rvalue]) :
    Chain n p x h' taken cached fresh := by
  have hval : (h'.sys.gateway.plcs.data p).rvalue = (h.sys.gateway.plcs.data p).rvalue := by
    rw [hreg]
  obtain ⟨done, hdone, hsub⟩ := hc.pending hpend
  refine ⟨hcopies, hfrom.trans hc.split, ?_, ?_, ?_, hval.trans hc.word,
    fun _ => ⟨hval.trans hdev.symm, ?_⟩, fun hu => ?_⟩
  · rw [hvar, hfrom]
    exact hc.node
  · rw [hvar]
    exact hc.cache
  · rw [hnum, hval]
    exact hc.localWord
  · rw [hto, hdone]
    exact hsub.append (List.Sublist.refl _)
  · exact absurd (congrArg Mbregdata.rupdate hreg) hu

/-- The word takes the newest value of the cache, which makes it pending. -/
theorem Chain.take {front : List Word} {last : Word}
    (hc : Chain n p x h taken (front ++ [last]) fresh) {h' : History} (hcopies : Copies n p h'.sys)
    (hvar : h'.sys.gateway.var n = h.sys.gateway.var n)
    (hnum : (h'.sys.gateway.regmap.val n).number = .ofUi16 last)
    (hval : (h'.sys.gateway.plcs.data p).rvalue = last)
    (hupd : (h'.sys.gateway.plcs.data p).rupdate ≠ 0)
    (hfrom : h'.fromClient = h.fromClient) (hto : h'.toDevice = h.toDevice) :
    Chain n p x h' (taken ++ (front ++ [last])) [] fresh := by
  have hlast : (taken ++ (front ++ [last])).getLastD x = last := by
    rw [← List.append_assoc, List.getLastD_concat]
  refine ⟨hcopies, ?_, ?_, ?_, ?_, ?_, fun hu => absurd hu hupd,
    fun _ => ⟨taken ++ front, ?_, ?_⟩⟩
  · rw [hfrom, hc.split, List.append_nil]
  · rw [hvar, hfrom]
    exact hc.node
  · rw [hvar, List.append_nil]
    exact hc.cache
  · rw [hnum, hval]
  · rw [hlast, hval]
  · rw [hval, List.append_assoc]
  · rw [hto]
    exact hc.sent_sublist.trans (List.sublist_append_left taken front)

theorem Copies.step {s : System} (hc : Copies n p s) (e : Event)
    (herr : ((step s e).gateway.plcs.data p).rerrors = 0)
    (hvar : ((step s e).gateway.regmap.val n).varErrors = 0)
    (hua : ((step s e).gateway.var n).uaStatus = statusGood) : Copies n p (step s e) := by
  have hconf := step_sameConfig s e
  refine ⟨hc.sole.of_config hconf, ?_, herr, hvar, hua⟩
  rw [hconf.plcKeys]
  exact hc.registered

variable {v : Name}

/-- A step in which no client writes to `v`. -/
theorem fromClient_record {e : Event} (he : clientValues v e = []) :
    (record v p h e).fromClient = h.fromClient := by
  rw [record, he, List.append_nil]

/-- A step in which the device acknowledges nothing for `p`. -/
theorem toDevice_record {e : Event} (he : deviceValues p h.sys e = []) :
    (record v p h e).toDevice = h.toDevice := by
  rw [record, he, List.append_nil]

theorem Chain.clientWrite (hname : (h.sys.gateway.regmap.val n).strOpcname = v)
    (hc : Chain n p x h taken cached fresh) (t : Name) (w : NumericU) :
    ∃ fresh', Chain n p x (record v p h (.clientWrite t w)) taken cached fresh' := by
  have hto : (record v p h (.clientWrite t w)).toDevice = h.toDevice :=
    toDevice_record rfl
  by_cases ht : t = v
  · have hvar : (step h.sys (.clientWrite t w)).gateway.var n =
        { h.sys.gateway.var n with node := .ofUi16 w.ui16 } := by
      subst hname ht
      refine (OpcServer.clientWrite_val hc.sole.isVar w).trans ?_
      rw [← NumericU.typed_one, ← hc.sole.words]
      rfl
    have hcopies : Copies n p (step h.sys (.clientWrite t w)) :=
      hc.toCopies.step _ hc.rerrors hc.varErrors (by rw [hvar]; exact hc.uaStatus)
    have hfrom : (record v p h (.clientWrite t w)).fromClient = h.fromClient ++ [w.ui16] := by
      simp [record, clientValues, ht]
    refine ⟨fresh ++ [w.ui16], hcopies, ?_, ?_, ?_, hc.localWord, hc.word, ?_, ?_⟩
    · rw [hfrom, hc.split, List.append_assoc]
    · rw [hfrom, List.getLastD_concat]
      exact congrArg UaVar.node hvar
    · exact (congrArg UaVar.rawValue hvar).trans hc.cache
    · rw [hto]
      exact hc.sent
    · rw [hto]
      exact hc.pending
  · have hvar : (step h.sys (.clientWrite t w)).gateway.var n = h.sys.gateway.var n := by
      refine (OpcServer.clientWrite_touches t w _).others _ fun hmem => ht ?_
      exact (Set.mem_singleton_iff.mp hmem).symm.trans hname
    have hcopies : Copies n p (step h.sys (.clientWrite t w)) :=
      hc.toCopies.step _ hc.rerrors hc.varErrors (by rw [hvar]; exact hc.uaStatus)
    exact ⟨fresh, hc.congr hcopies hvar rfl rfl rfl rfl
      (fromClient_record (if_neg ht)) hto⟩

theorem Chain.refreshAll (hname : (h.sys.gateway.regmap.val n).strOpcname = v)
    (hc : Chain n p x h taken cached fresh) {data : ReadData}
    (hok : Allowed v p h (.refreshAll data)) :
    ∃ cached' fresh', Chain n p x (record v p h (.refreshAll data)) taken cached' fresh' := by
  have hvar : (step h.sys (.refreshAll data)).gateway.var n =
      OpcServer.refreshVar (data v) (h.sys.gateway.var n) := by
    subst hname
    exact OpcServer.refreshAllValues_val hc.sole.isVar data
  have hfrom : (record v p h (.refreshAll data)).fromClient = h.fromClient :=
    fromClient_record rfl
  have hto : (record v p h (.refreshAll data)).toDevice = h.toDevice :=
    toDevice_record rfl
  rcases hd : data v with _ | beyond
  · rw [hd] at hvar
    have hcopies : Copies n p (step h.sys (.refreshAll data)) :=
      hc.toCopies.step _ hc.rerrors hc.varErrors (by rw [hvar]; exact hc.uaStatus)
    exact ⟨cached, fresh, hc.congr hcopies hvar rfl rfl rfl rfl hfrom hto⟩
  · rw [hd] at hvar
    obtain ⟨h1, h2, h3⟩ := hok beyond hd
    have hcopies : Copies n p (step h.sys (.refreshAll data)) :=
      hc.toCopies.step _ hc.rerrors hc.varErrors (by rw [hvar]; exact hc.uaStatus)
    refine ⟨cached ++ fresh, [], hcopies, ?_, ?_, ?_, hc.localWord, hc.word, ?_, ?_⟩
    · rw [hfrom, hc.split, List.append_nil, List.append_assoc]
    · rw [hfrom]
      exact (congrArg UaVar.node hvar).trans hc.node
    · refine (congrArg UaVar.rawValue hvar).trans ?_
      rw [← List.append_assoc, ← hc.split]
      simp [OpcServer.refreshVar, hc.sole.words, hc.node, NumericU.overlay, NumericU.ofUi16,
        h1, h2, h3]
    · rw [hto]
      exact hc.sent
    · rw [hto]
      exact hc.pending

theorem Chain.pass (hc : Chain n p x h taken cached fresh) (data : ReadData) :
    ∃ taken' cached', Chain n p x (record v p h (.pass data)) taken' cached' fresh := by
  have hfrom : (record v p h (.pass data)).fromClient = h.fromClient :=
    fromClient_record rfl
  have hto : (record v p h (.pass data)).toDevice = h.toDevice :=
    toDevice_record rfl
  have hS := hc.sole
  have hquiet : ¬ (h.sys.gateway.turnOf data n).publishes = true := by
    rw [hS.publishes_iff data hc.rerrors, hS.wordAt_eq data, hc.localWord, hc.varErrors]
    simp
  have hvar : (step h.sys (.pass data)).gateway.var n = h.sys.gateway.var n := by
    refine (hS.pass_var data).trans (if_neg fun hq => hquiet hq.2)
  have hword : (step h.sys (.pass data)).gateway.plcs.data p = _ := hS.pass_data data
  have hnum : ((step h.sys (.pass data)).gateway.regmap.val n).number = _ :=
    hS.pass_number data hc.rerrors
  have htake := hS.takes_iff data hc.rerrors
  by_cases ht : (h.sys.gateway.turnOf data n).takes = true
  · rw [if_pos ht] at hword hnum
    have hne := (htake.mp ht).1
    rw [hc.cache, hc.localWord, Ne, NumericU.ofUi16_inj, hc.word] at hne
    have hstore : ((step h.sys (.pass data)).gateway.plcs.data p) =
        { h.sys.gateway.plcs.data p with
          rvalue := (taken ++ cached).getLastD x, rupdate := 1 } := by
      rw [hword, hc.cache, NumericU.ui16_ofUi16, setReg, if_pos hS.rmode, hc.word,
        if_pos fun he => hne he.symm]
    -- something newer than the word must be in the cache
    obtain ⟨front, last, rfl⟩ : ∃ front last, cached = front ++ [last] := by
      rcases List.eq_nil_or_concat cached with rfl | ⟨front, last, hl⟩
      · simp at hne
      · exact ⟨front, last, by simpa using hl⟩
    rw [hc.cache] at hnum
    rw [← List.append_assoc, List.getLastD_concat] at hstore hnum
    have hcopies : Copies n p (step h.sys (.pass data)) :=
      hc.toCopies.step _ (by rw [hstore]; exact hc.rerrors) (hS.pass_varErrors data hc.rerrors)
        (by rw [hvar]; exact hc.uaStatus)
    have hupd : ((step h.sys (.pass data)).gateway.plcs.data p).rupdate ≠ 0 := by
      rw [hstore]
      exact one_ne_zero
    exact ⟨taken ++ (front ++ [last]), [], hc.take hcopies hvar hnum
      (congrArg Mbregdata.rvalue hstore) hupd hfrom hto⟩
  · rw [if_neg ht] at hword hnum
    rw [hS.wordAt_eq data, ← hc.localWord] at hnum
    have hcopies : Copies n p (step h.sys (.pass data)) :=
      hc.toCopies.step _ (by rw [hword]; exact hc.rerrors) (hS.pass_varErrors data hc.rerrors)
        (by rw [hvar]; exact hc.uaStatus)
    exact ⟨taken, cached, hc.congr hcopies hvar hnum (congrArg Mbregdata.rvalue hword)
      (congrArg Mbregdata.rupdate hword) rfl hfrom hto⟩

theorem Chain.poll (hc : Chain n p x h taken cached fresh) {i : ℕ} {env : ℕ → ReadAttempt}
    (hok : Allowed v p h (.poll i env)) :
    Chain n p x (record v p h (.poll i env)) taken cached fresh := by
  have hfrom : (record v p h (.poll i env)).fromClient = h.fromClient :=
    fromClient_record rfl
  have hto : (record v p h (.poll i env)).toDevice = h.toDevice :=
    toDevice_record rfl
  have hdata := setPlc_data h.sys.gateway i
    (readMaster (h.sys.devices i) env (h.sys.gateway.plcs i)).1 p
  have hsame : (step h.sys (.poll i env)).gateway.plcs.data p = h.sys.gateway.plcs.data p := by
    refine hdata.trans ?_
    by_cases hi : i = p.plc
    · subst hi
      rw [if_pos rfl, readMaster_ok (hok rfl)]
      have hzero := hc.rerrors
      have hplaced := (h.sys.gateway.plcs p.plc).placed p.raddr
      have hsync := fun hu => (hc.sent hu).1
      have hmode := hc.sole.rmode
      simp only [PlcVec.data] at hzero hsync hmode ⊢
      generalize (h.sys.gateway.plcs p.plc).regs.val p.raddr = R at *
      dsimp only [takePoll]
      split_ifs with hu
      · -- no pending update: the device sends back the same word
        have hu : R.data.rupdate = 0 := hu.resolve_left (by rw [hmode]; decide)
        have haddr : (h.sys.gateway.plcs p.plc).regMin +
            (R.raddr - (h.sys.gateway.plcs p.plc).regMin) = p.raddr := by omega
        rw [haddr, ← hsync hu, ← hzero]
      · rw [← hzero]
    · rw [if_neg fun hp => hi hp.symm]
  have hcopies : Copies n p (step h.sys (.poll i env)) :=
    hc.toCopies.step _ (by rw [hsame]; exact hc.rerrors) hc.varErrors hc.uaStatus
  exact hc.congr hcopies rfl rfl (congrArg Mbregdata.rvalue hsame)
    (congrArg Mbregdata.rupdate hsame) rfl hfrom hto

theorem Chain.writeOut (hc : Chain n p x h taken cached fresh) {i : ℕ}
    {env : ℤ → ℕ → WriteAttempt} (hok : Allowed v p h (.writeOut i env)) :
    Chain n p x (record v p h (.writeOut i env)) taken cached fresh := by
  have hfrom : (record v p h (.writeOut i env)).fromClient = h.fromClient :=
    fromClient_record rfl
  have hdata : (step h.sys (.writeOut i env)).gateway.plcs.data p = _ :=
    setPlc_data h.sys.gateway i (writeMaster env (h.sys.gateway.plcs i)).1 p
  by_cases hi : i = p.plc
  · subst hi
    have hout := writeMaster_outcome env (h.sys.gateway.plcs p.plc)
    have hdev : (step h.sys (.writeOut p.plc env)).devices p.plc p.raddr =
        (writesTo p.raddr (ackedWrites (writeMaster env (h.sys.gateway.plcs p.plc)).2)).getLastD
          (h.sys.devices p.plc p.raddr) := by
      simp [step, applyWrites_apply]
    have hto : (record v p h (.writeOut p.plc env)).toDevice = h.toDevice ++
        writesTo p.raddr (ackedWrites (writeMaster env (h.sys.gateway.plcs p.plc)).2) := by
      simp [record, deviceValues]
    rw [if_pos rfl] at hdata
    rcases hout.served p.raddr hc.registered with ⟨-, hpend, hreg, hsent⟩ | ⟨-, hkept, hnone⟩
    · -- the pending word goes out
      have hreg : (step h.sys (.writeOut p.plc env)).gateway.plcs.data p =
          { h.sys.gateway.plcs.data p with rupdate := 0, rerrors := 0 } := by
        rw [hdata, hreg]
        rfl
      have hcopies : Copies n p (step h.sys (.writeOut p.plc env)) :=
        hc.toCopies.step _ (by rw [hreg]) hc.varErrors hc.uaStatus
      rw [hsent] at hdev hto
      exact hc.ack hcopies rfl rfl hreg hpend hdev hfrom hto
    · have hsame : (step h.sys (.writeOut p.plc env)).gateway.plcs.data p =
          h.sys.gateway.plcs.data p := by
        rw [hdata, hkept (hok rfl)]
        rfl
      have hcopies : Copies n p (step h.sys (.writeOut p.plc env)) :=
        hc.toCopies.step _ (by rw [hsame]; exact hc.rerrors) hc.varErrors hc.uaStatus
      rw [hnone] at hdev hto
      exact hc.congr hcopies rfl rfl (congrArg Mbregdata.rvalue hsame)
        (congrArg Mbregdata.rupdate hsame) hdev hfrom (by rw [hto, List.append_nil])
  · have hto : (record v p h (.writeOut i env)).toDevice = h.toDevice :=
      toDevice_record (if_neg hi)
    rw [if_neg fun hp => hi hp.symm] at hdata
    have hcopies : Copies n p (step h.sys (.writeOut i env)) :=
      hc.toCopies.step _ (by rw [hdata]; exact hc.rerrors) hc.varErrors hc.uaStatus
    have hdev : (step h.sys (.writeOut i env)).devices p.plc p.raddr =
        h.sys.devices p.plc p.raddr := by
      simp [step, Function.update_of_ne fun hp => hi hp.symm]
    exact hc.congr hcopies rfl rfl (congrArg Mbregdata.rvalue hdata)
      (congrArg Mbregdata.rupdate hdata) hdev hfrom hto

def Inv (n : Name) (p : RegPtr) (x : Word) (v : Name) (h : History) : Prop :=
  (h.sys.gateway.regmap.val n).strOpcname = v ∧
    ∃ taken cached fresh, Chain n p x h taken cached fresh

theorem Inv.step {e : Event} (hinv : Inv n p x v h) (hok : Allowed v p h e) :
    Inv n p x v (record v p h e) := by
  obtain ⟨hname, taken, cached, fresh, hc⟩ := hinv
  refine ⟨?_, ?_⟩
  · rw [← hname]
    exact congrArg RegDef.strOpcname ((step_sameConfig h.sys e).defs n)
  cases e with
  | clientWrite t w =>
      obtain ⟨fresh', hc'⟩ := hc.clientWrite hname t w
      exact ⟨taken, cached, fresh', hc'⟩
  | writeValue t w data => exact hok.elim
  | refreshAll data =>
      obtain ⟨cached', fresh', hc'⟩ := hc.refreshAll hname hok
      exact ⟨taken, cached', fresh', hc'⟩
  | pass data =>
      obtain ⟨taken', cached', hc'⟩ := hc.pass data
      exact ⟨taken', cached', fresh, hc'⟩
  | poll i env => exact ⟨taken, cached, fresh, hc.poll hok⟩
  | writeOut i env => exact ⟨taken, cached, fresh, hc.writeOut hok⟩

/-- In every state that the tasks can reach from agreement the copies are
consistent with the client's writes. -/
theorem reachable_consistent {s : System} (hs : Start n p x s) (es : List Event)
    (hes : Runs.Along (record (s.gateway.regmap.val n).strOpcname p)
      (Allowed (s.gateway.regmap.val n).strOpcname p) ⟨s, [], []⟩ es) :
    Consistent n p x
      (Runs.run (record (s.gateway.regmap.val n).strOpcname p) ⟨s, [], []⟩ es) := by
  have hinv := hes.invariant (I := Inv n p x (s.gateway.regmap.val n).strOpcname)
    (fun _ _ hinv hok => hinv.step hok) ⟨rfl, [], [], [], hs.chain⟩
  obtain ⟨-, taken, cached, fresh, hc⟩ := hinv
  exact hc.consistent

def smallSystem : System where
  gateway := small { rvalue := 5, rmode := 1 } (smallEntry 1 0 (.ofUi16 5))
    { uaType := .uint16, rawValue := .ofUi16 5, node := .ofUi16 5 }
  devices := fun _ _ => 5

theorem smallSystem_start : Start ['v'] ⟨0, 0⟩ 5 smallSystem :=
  ⟨⟨small_sole rfl rfl rfl, List.mem_singleton_self _, rfl, rfl, rfl⟩, rfl, rfl, rfl, rfl, rfl,
    rfl⟩

theorem smallSystem_consistent : Consistent ['v'] ⟨0, 0⟩ 5
    (Runs.run (record ['/', 'v'] ⟨0, 0⟩) ⟨smallSystem, [], []⟩
      [.clientWrite ['/', 'v'] (.ofUi16 9), .refreshAll fun _ => some {}, .pass fun _ => none,
        .writeOut 0 fun _ _ => ⟨⟨true, true⟩, true⟩, .poll 0 fun _ => ⟨⟨true, true⟩, 1⟩]) := by
  refine reachable_consistent smallSystem_start _ ⟨trivial, ?_, trivial, ?_, ?_, trivial⟩
  · intro beyond hb
    obtain rfl := Option.some.inj hb
    decide
  · intro
    decide
  · intro
    decide

end RwModbus.DataFlow
