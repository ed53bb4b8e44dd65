import RwModbus.DataFlow
import RwModbus.Requests

/-!
# The client's last write arrives

`RefreshAllValues`, `task_regs_refresh_` and `write_master` each carry the value one
copy further. Once a client has stopped writing, one call of each in this order brings
all five copies to the last value, whatever the tasks do before, between and after.
-/
namespace RwModbus.DataFlow
open Numeric Registers Reg Opc Refresh Master OneWord Sys

theorem setPlcValue_attempts (u : NumericU) (d : RegDef) (plcs : PlcVec) (i : ℕ) :
    ((d.setPlcValue u plcs) i).attempts = (plcs i).attempts := by
  refine List.foldlRecOn (motive := fun q : PlcVec => (q i).attempts = (plcs i).attempts) _ _ rfl ?_
  intro q hq k _
  cases hr : d.source k with
  | none => simpa only [RegDef.setPlcReg, hr] using hq
  | some r =>
      by_cases hi : i = r.plc
      · subst hi
        simpa [RegDef.setPlcReg, hr, PlcVec.store] using hq
      · simpa [RegDef.setPlcReg, hr, PlcVec.store, hi] using hq

theorem refreshEntries_attempts (data : ReadData) (ms : List Name) (g : Gateway) (i : ℕ) :
    ((Gateway.refreshEntries data ms g).1.plcs i).attempts = (g.plcs i).attempts := by
  induction ms generalizing g with
  | nil => rfl
  | cons m ms ih =>
      refine (ih (g.refreshEntry data m).1).trans ?_
      by_cases hk : (g.turn m).rm.kind = .scada
      · simp only [Gateway.refreshEntry, Turn.refresh, if_pos hk, Turn.refreshScada]
        rfl
      · have hplcs : (g.refreshEntry data m).1.plcs = (g.turn m).refreshModbus.plcs :=
          Turn.refresh_plcs hk data
        rw [hplcs, Turn.refreshModbus_plcs]
        split_ifs
        · exact setPlcValue_attempts _ _ _ i
        · rfl

theorem readMaster_attempts (device : ℤ → Word) (env : ℕ → ReadAttempt) (m : ModbusPLC) :
    (readMaster device env m).1.attempts = m.attempts := by
  have hset := (readLoop_spec device env m.attempts.toNat { m with rc := 0, att := 0 } le_rfl).1
  simp only [setup, Prod.mk.injEq] at hset
  exact hset.1

theorem writeTurn_attempts (env : ℤ → ℕ → WriteAttempt) (m : ModbusPLC) (a : ℤ) :
    (writeTurn env m a).1.attempts = m.attempts := by
  by_cases hp : Pending m a
  · have hloop := (writeLoop_ends (env a) a m.attempts.toNat { m with rc := 0, att := 0 }
      (Or.inl rfl) (by simp)).1
    rw [writeTurn_pending hp]
    dsimp only
    split_ifs <;> exact hloop
  · rw [writeTurn_idle hp]

theorem writeMaster_attempts (env : ℤ → ℕ → WriteAttempt) (m : ModbusPLC) :
    (writeMaster env m).1.attempts = m.attempts := by
  have hturns : ∀ (as : List ℤ) (m : ModbusPLC), (writeTurns env as m).1.attempts = m.attempts := by
    intro as
    induction as with
    | nil => exact fun _ => rfl
    | cons a as ih => exact fun m => (ih (writeTurn env m a).1).trans (writeTurn_attempts env m a)
  exact hturns m.regs.keys { m with rcWrite := 0 }

theorem step_attempts (s : System) (e : Event) (i : ℕ) :
    ((step s e).gateway.plcs i).attempts = (s.gateway.plcs i).attempts := by
  have hset : ∀ (j : ℕ) (m : ModbusPLC), m.attempts = (s.gateway.plcs j).attempts →
      ((setPlc s.gateway j m).plcs i).attempts = (s.gateway.plcs i).attempts := by
    intro j m hm
    by_cases h : i = j
    · subst h
      simpa [setPlc] using hm
    · simp [setPlc, h]
  cases e with
  | clientWrite t w => rfl
  | writeValue t w data => rfl
  | refreshAll data => rfl
  | pass data => exact refreshEntries_attempts data s.gateway.regmap.keys s.gateway i
  | poll j env => exact hset j _ (readMaster_attempts _ _ _)
  | writeOut j env => exact hset j _ (writeMaster_attempts _ _)

variable {n : Name} {p : RegPtr} {x : Word} {v : Name} {h : History} {e : Event}

/-- The client's last value, or the one that all copies began with. -/
def lastValue (x : Word) (h : History) : Word := h.fromClient.getLastD x

/-- A step that is allowed and in which no client writes to `v`. -/
def Quiet (v : Name) (p : RegPtr) (h : History) (e : Event) : Prop :=
  Allowed v p h e ∧ clientValues v e = []

/-- The cache has the last value. -/
structure Cached (n : Name) (p : RegPtr) (x : Word) (v : Name) (h : History) : Prop where
  inv : Inv n p x v h
  cache : (h.sys.gateway.var n).rawValue = .ofUi16 (lastValue x h)

/-- The local value, and with it the PLC's word, has it too. -/
structure Taken (n : Name) (p : RegPtr) (x : Word) (v : Name) (h : History) : Prop
    extends Cached n p x v h where
  localVal : (h.sys.gateway.regmap.val n).number = .ofUi16 (lastValue x h)

/-- Nothing is pending. -/
structure Sent (n : Name) (p : RegPtr) (x : Word) (v : Name) (h : History) : Prop
    extends Taken n p x v h where
  rupdate : (h.sys.gateway.plcs.data p).rupdate = 0

/-- A value that has gone all the way is where all copies agree. -/
theorem Sent.start (hs : Sent n p x v h) : Start n p (lastValue x h) h.sys := by
  obtain ⟨-, taken, cached, fresh, hc⟩ := hs.inv
  have hword : (h.sys.gateway.plcs.data p).rvalue = lastValue x h := by
    have hlocal := hc.localWord
    rw [hs.localVal, NumericU.ofUi16_inj] at hlocal
    exact hlocal.symm
  refine ⟨hc.toCopies, hc.node, hs.cache, hs.localVal, hword, hs.rupdate, ?_⟩
  rw [← (hc.sent hs.rupdate).1]
  exact hword

theorem lastValue_record (he : clientValues v e = []) :
    lastValue x (record v p h e) = lastValue x h := by
  rw [lastValue, fromClient_record he, lastValue]

theorem Inv.refreshed (hinv : Inv n p x v h) {data : ReadData}
    (hok : Allowed v p h (.refreshAll data)) :
    ((record v p h (.refreshAll data)).sys.gateway.var n).rawValue =
      if (data v).isSome then .ofUi16 (lastValue x h) else (h.sys.gateway.var n).rawValue := by
  obtain ⟨hname, taken, cached, fresh, hc⟩ := hinv
  have hvar : ((record v p h (.refreshAll data)).sys.gateway.var n) =
      OpcServer.refreshVar (data v) (h.sys.gateway.var n) := by
    subst hname
    exact OpcServer.refreshAllValues_val hc.sole.isVar data
  rw [hvar]
  rcases hd : data v with _ | beyond
  · rfl
  · obtain ⟨h1, h2, h3⟩ := hok beyond hd
    simp [OpcServer.refreshVar, hc.sole.words, hc.node, NumericU.overlay, NumericU.ofUi16, h1, h2,
      h3, lastValue]

/-- A pass never writes to the variable, whose PLC word is the local value. -/
theorem Inv.pass_var (hinv : Inv n p x v h) (data : ReadData) :
    (record v p h (.pass data)).sys.gateway.var n = h.sys.gateway.var n := by
  obtain ⟨-, taken, cached, fresh, hc⟩ := hinv
  have hquiet : ¬ (h.sys.gateway.turnOf data n).publishes = true := by
    rw [hc.sole.publishes_iff data hc.rerrors, hc.sole.wordAt_eq data, hc.localWord, hc.varErrors]
    simp
  exact (hc.sole.pass_var data).trans (if_neg fun hq => hquiet hq.2)

theorem Inv.pass_number (hinv : Inv n p x v h) (data : ReadData) :
    ((record v p h (.pass data)).sys.gateway.regmap.val n).number =
      (h.sys.gateway.var n).rawValue := by
  obtain ⟨-, taken, cached, fresh, hc⟩ := hinv
  refine (hc.sole.pass_number data hc.rerrors).trans ?_
  have htakes := hc.sole.takes_iff data hc.rerrors
  split_ifs with ht
  · rfl
  · rw [hc.sole.wordAt_eq data, ← hc.localWord]
    by_contra hne
    exact ht (htakes.mpr ⟨fun heq => hne heq.symm, hc.uaStatus⟩)

/-- A pass that finds the cache at the local value leaves the register alone. -/
theorem Inv.pass_data (hinv : Inv n p x v h)
    (hsame : (h.sys.gateway.var n).rawValue = (h.sys.gateway.regmap.val n).number)
    (data : ReadData) :
    (record v p h (.pass data)).sys.gateway.plcs.data p = h.sys.gateway.plcs.data p := by
  obtain ⟨-, taken, cached, fresh, hc⟩ := hinv
  refine (hc.sole.pass_data data).trans (if_neg fun ht => ?_)
  exact ((hc.sole.takes_iff data hc.rerrors).mp ht).1 hsame

theorem poll_rupdate (s : System) (p : RegPtr) (i : ℕ) (env : ℕ → ReadAttempt) :
    ((step s (.poll i env)).gateway.plcs.data p).rupdate = (s.gateway.plcs.data p).rupdate := by
  refine (congrArg Mbregdata.rupdate (setPlc_data s.gateway i
    (readMaster (s.devices i) env (s.gateway.plcs i)).1 p)).trans ?_
  by_cases hi : p.plc = i
  · rw [if_pos hi, PlcVec.data, hi]
    rcases lt_or_ge 0 (readMaster (s.devices i) env (s.gateway.plcs i)).1.rc with hok | hno
    · rw [readMaster_ok hok]
      exact takePoll_rupdate _ _ _
    · rw [readMaster_failed hno]
  · rw [if_neg hi]

/-- A write-out that fails nowhere leaves nothing pending. -/
theorem writeMaster_sends {m : ModbusPLC} {a : ℤ} (ha : a ∈ m.regs.keys)
    (hmode : (m.regs.val a).data.rmode ≠ 0) (hatt : 1 ≤ m.attempts) {env : ℤ → ℕ → WriteAttempt}
    (hok : (writeMaster env m).1.rcWrite = 0) :
    ((writeMaster env m).1.regs.val a).data.rupdate = 0 := by
  have hall := writeTurns_accounted env m.regs.nodup (m := { m with rcWrite := 0 }) hatt
  have hnone : (m.regs.keys.countP fun b => Pending (writeMaster env m).1 b) = 0 := by
    have hcount := hall.count
    rw [writeMaster] at hok ⊢
    dsimp only at hcount
    omega
  have hidle := List.countP_eq_zero.mp hnone a ha
  have hkept : ((writeMaster env m).1.regs.val a).data.rmode ≠ 0 := by
    rw [(writeMaster_data env m a).2]
    exact hmode
  by_contra hne
  exact hidle (decide_eq_true (And.intro hkept hne))

theorem Inv.writeOut_rupdate (hinv : Inv n p x v h)
    (hatt : 1 ≤ (h.sys.gateway.plcs p.plc).attempts) {env : ℤ → ℕ → WriteAttempt}
    (hok : Allowed v p h (.writeOut p.plc env)) :
    ((record v p h (.writeOut p.plc env)).sys.gateway.plcs.data p).rupdate = 0 := by
  obtain ⟨-, taken, cached, fresh, hc⟩ := hinv
  have hdata : (record v p h (.writeOut p.plc env)).sys.gateway.plcs.data p = _ :=
    setPlc_data h.sys.gateway p.plc (writeMaster env (h.sys.gateway.plcs p.plc)).1 p
  rw [hdata, if_pos rfl]
  exact writeMaster_sends hc.registered (ne_of_eq_of_ne hc.sole.rmode one_ne_zero) hatt (hok rfl)

/-- A write-out makes nothing pending. -/
theorem Inv.writeOut_idle (hinv : Inv n p x v h) (i : ℕ) (env : ℤ → ℕ → WriteAttempt)
    (h0 : (h.sys.gateway.plcs.data p).rupdate = 0) :
    ((record v p h (.writeOut i env)).sys.gateway.plcs.data p).rupdate = 0 := by
  obtain ⟨-, taken, cached, fresh, hc⟩ := hinv
  have hdata : (record v p h (.writeOut i env)).sys.gateway.plcs.data p = _ :=
    setPlc_data h.sys.gateway i (writeMaster env (h.sys.gateway.plcs i)).1 p
  rw [hdata]
  by_cases hi : p.plc = i
  · subst hi
    rw [if_pos rfl]
    rcases (writeMaster_outcome env (h.sys.gateway.plcs p.plc)).served p.raddr hc.registered with
      ⟨-, hpend, -, -⟩ | ⟨⟨k, hval⟩, -, -⟩
    · exact absurd h0 hpend
    · rw [hval]
      exact h0
  · rw [if_neg hi]
    exact h0

theorem Cached.step (hs : Cached n p x v h) (hq : Quiet v p h e) :
    Cached n p x v (record v p h e) := by
  refine ⟨hs.inv.step hq.1, ?_⟩
  rw [lastValue_record hq.2]
  cases e with
  | clientWrite t w =>
      have ht : t ≠ v := by
        intro ht
        have hnone := hq.2
        simp [clientValues, ht] at hnone
      rw [← hs.cache]
      refine congrArg UaVar.rawValue ((OpcServer.clientWrite_touches t w _).others _ fun hm => ht ?_)
      exact (Set.mem_singleton_iff.mp hm).symm.trans hs.inv.1
  | writeValue t w data => exact hq.1.elim
  | refreshAll data =>
      rw [hs.inv.refreshed hq.1]
      split_ifs
      · rfl
      · exact hs.cache
  | pass data =>
      rw [hs.inv.pass_var data]
      exact hs.cache
  | poll i env => exact hs.cache
  | writeOut i env => exact hs.cache

theorem Taken.step (hs : Taken n p x v h) (hq : Quiet v p h e) :
    Taken n p x v (record v p h e) := by
  refine ⟨hs.toCached.step hq, ?_⟩
  rw [lastValue_record hq.2]
  cases e with
  | writeValue t w data => exact hq.1.elim
  | pass data => exact (hs.inv.pass_number data).trans hs.cache
  | clientWrite t w => exact hs.localVal
  | refreshAll data => exact hs.localVal
  | poll i env => exact hs.localVal
  | writeOut i env => exact hs.localVal

theorem Sent.step (hs : Sent n p x v h) (hq : Quiet v p h e) :
    Sent n p x v (record v p h e) := by
  refine ⟨hs.toTaken.step hq, ?_⟩
  cases e with
  | writeValue t w data => exact hq.1.elim
  | pass data =>
      rw [hs.inv.pass_data (hs.cache.trans hs.localVal.symm) data]
      exact hs.rupdate
  | clientWrite t w => exact hs.rupdate
  | refreshAll data => exact hs.rupdate
  | poll i env => exact (poll_rupdate h.sys p i env).trans hs.rupdate
  | writeOut i env => exact hs.inv.writeOut_idle i env hs.rupdate

theorem Inv.cached (hinv : Inv n p x v h) {data : ReadData}
    (hok : Allowed v p h (.refreshAll data)) (hdata : (data v).isSome = true) :
    Cached n p x v (record v p h (.refreshAll data)) := by
  refine ⟨hinv.step hok, ?_⟩
  rw [hinv.refreshed hok, if_pos hdata, lastValue_record rfl]

theorem Cached.taken (hs : Cached n p x v h) (data : ReadData) :
    Taken n p x v (record v p h (.pass data)) := by
  refine ⟨hs.step ⟨trivial, rfl⟩, ?_⟩
  rw [hs.inv.pass_number data, hs.cache, lastValue_record rfl]

theorem Taken.sent (hs : Taken n p x v h) (hatt : 1 ≤ (h.sys.gateway.plcs p.plc).attempts)
    {env : ℤ → ℕ → WriteAttempt} (hok : Allowed v p h (.writeOut p.plc env)) :
    Sent n p x v (record v p h (.writeOut p.plc env)) :=
  ⟨hs.step ⟨hok, rfl⟩, hs.inv.writeOut_rupdate hatt hok⟩

theorem record_attempts (i : ℕ) :
    ((record v p h e).sys.gateway.plcs i).attempts = (h.sys.gateway.plcs i).attempts :=
  step_attempts h.sys e i

theorem run_attempts (es : List Event) (i : ℕ) :
    ((Runs.run (record v p) h es).sys.gateway.plcs i).attempts = (h.sys.gateway.plcs i).attempts :=
  Runs.invariant
    (I := fun h' : History => (h'.sys.gateway.plcs i).attempts = (h.sys.gateway.plcs i).attempts)
    (fun _ _ hh => (record_attempts i).trans hh) es rfl

theorem run_sys (es : List Event) :
    (Runs.run (record v p) h es).sys = Runs.run Sys.step h.sys es := by
  induction es generalizing h with
  | nil => rfl
  | cons e es ih => exact ih

theorem run_fromClient (es : List Event) :
    (Runs.run (record v p) h es).fromClient = h.fromClient ++ es.flatMap (clientValues v) := by
  induction es generalizing h with
  | nil => simp
  | cons e es ih =>
      rw [Runs.run_cons, ih, List.flatMap_cons, ← List.append_assoc]
      rfl

theorem run_lastValue {es : List Event} (hes : ∀ e ∈ es, clientValues v e = []) :
    lastValue x (Runs.run (record v p) h es) = lastValue x h := by
  rw [lastValue, run_fromClient, List.flatMap_eq_nil_iff.mpr hes, List.append_nil, lastValue]

/-- A value on its way arrives with the next write-out. -/
theorem Taken.arrives (hs : Taken n p x v h) (hatt : 1 ≤ (h.sys.gateway.plcs p.plc).attempts)
    {before after : List Event} {env : ℤ → ℕ → WriteAttempt}
    (hes : Runs.Along (record v p) (Quiet v p) h (before ++ .writeOut p.plc env :: after)) :
    Sent n p x v (Runs.run (record v p) h (before ++ .writeOut p.plc env :: after)) := by
  obtain ⟨hbefore, hout, hafter⟩ := Runs.along_append.mp hes
  have htaken := hbefore.invariant (fun _ _ hh hq => Taken.step hh hq) hs
  have hsent := htaken.sent (by rwa [run_attempts]) hout.1
  rw [Runs.run_append, Runs.run_cons]
  exact hafter.invariant (fun _ _ hh hq => Sent.step hh hq) hsent

/-- A value in the cache arrives with the next pass and a later write-out. -/
theorem Cached.arrives (hs : Cached n p x v h)
    (hatt : 1 ≤ (h.sys.gateway.plcs p.plc).attempts) {before later after : List Event}
    {d : ReadData} {env : ℤ → ℕ → WriteAttempt}
    (hes : Runs.Along (record v p) (Quiet v p) h
      (before ++ .pass d :: (later ++ .writeOut p.plc env :: after))) :
    Sent n p x v (Runs.run (record v p) h
      (before ++ .pass d :: (later ++ .writeOut p.plc env :: after))) := by
  obtain ⟨hbefore, -, hafter⟩ := Runs.along_append.mp hes
  have hcached := hbefore.invariant (fun _ _ hh hq => Cached.step hh hq) hs
  rw [Runs.run_append, Runs.run_cons]
  apply (hcached.taken d).arrives _ hafter
  rwa [record_attempts, run_attempts]

/-- After the client's last write, one refresh of the caches, one pass and one
write-out in this order bring every copy to the last value. -/
theorem last_write_arrives {s : System} (hs : Start n p x s)
    (hname : (s.gateway.regmap.val n).strOpcname = v)
    (hatt : 1 ≤ (s.gateway.plcs p.plc).attempts) {es₀ es₁ es₂ es₃ : List Event}
    {data d : ReadData} {env : ℤ → ℕ → WriteAttempt} (hdata : (data v).isSome = true)
    (hlast : ∀ e ∈ es₁ ++ .pass d :: (es₂ ++ .writeOut p.plc env :: es₃), clientValues v e = [])
    (hes : Runs.Along (record v p) (Allowed v p) ⟨s, [], []⟩
      (es₀ ++ .refreshAll data :: (es₁ ++ .pass d :: (es₂ ++ .writeOut p.plc env :: es₃)))) :
    Start n p ((es₀.flatMap (clientValues v)).getLastD x) (Runs.run Sys.step s
      (es₀ ++ .refreshAll data :: (es₁ ++ .pass d :: (es₂ ++ .writeOut p.plc env :: es₃)))) := by
  obtain ⟨hbefore, hrefresh, hafter⟩ := Runs.along_append.mp hes
  have hinv : Inv n p x v (Runs.run (record v p) ⟨s, [], []⟩ es₀) :=
    hbefore.invariant (fun _ _ hh hok => hh.step hok) ⟨hname, [], [], [], hs.chain⟩
  have hcached := hinv.cached hrefresh hdata
  have hsent : Sent n p x v _ :=
    hcached.arrives (by rwa [record_attempts, run_attempts]) (hafter.and_mem hlast)
  have hstart := hsent.start
  rw [run_lastValue hlast, lastValue_record rfl, lastValue, run_fromClient, ← Runs.run_cons,
    ← Runs.run_append, run_sys] at hstart
  exact hstart

/-- Two writes, of which the second one arrives. -/
theorem smallSystem_arrives : Start ['v'] ⟨0, 0⟩ 12
    (Runs.run Sys.step smallSystem
      ([.clientWrite ['/', 'v'] (.ofUi16 9), .clientWrite ['/', 'v'] (.ofUi16 12)] ++
        .refreshAll (fun _ => some {}) :: ([] ++ .pass (fun _ => none) ::
          ([.poll 0 fun _ => ⟨⟨true, true⟩, 1⟩] ++ .writeOut 0 (fun _ _ => ⟨⟨true, true⟩, true⟩) ::
            [])))) := by
  have hquiet : ∀ e ∈ ([] : List Event) ++ .pass (fun _ => none) ::
      ([.poll 0 fun _ => ⟨⟨true, true⟩, 1⟩] ++ .writeOut 0 (fun _ _ => ⟨⟨true, true⟩, true⟩) :: []),
      clientValues ['/', 'v'] e = [] := by
    intro e he
    simp only [List.nil_append, List.cons_append, List.mem_cons, List.not_mem_nil, or_false] at he
    rcases he with rfl | rfl | rfl <;> rfl
  change Start _ _ (([.clientWrite ['/', 'v'] (.ofUi16 9), .clientWrite ['/', 'v'] (.ofUi16 12)]
    : List Event).flatMap (clientValues ['/', 'v']) |>.getLastD 5) _
  apply last_write_arrives smallSystem_start rfl (by decide) rfl hquiet
  refine ⟨trivial, trivial, fun beyond hb => ?_, trivial, fun _ => ?_, fun _ => ?_, trivial⟩
  · obtain rfl := Option.some.inj hb
    decide
  · decide
  · decide

end RwModbus.DataFlow
