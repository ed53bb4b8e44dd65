import RwModbus.System
import RwModbus.Requests
import RwModbus.Convergence

/-!
# Three passes settle a word

A pass compares an entry's local value with the cache on one side and with the PLC's
word on the other, eight bytes each, and may act on both differences at once. The
copies can then change places for a pass or two. Left alone they agree after three
passes, and the state before the first one tells on which value. Other entries over the
word may follow, as long as they have no value of their own to bring.
-/
namespace RwModbus.Settling
open Numeric Registers Reg Opc Refresh Master OneWord Sys
open Convergence (others_rounds)

structure Slot where
  cache : NumericU
  number : NumericU
  word : Word
  failed : Bool
deriving DecidableEq

namespace Slot

/-- There is nothing to publish. -/
def Quiet (t : Slot) : Prop := t.number = .ofUi16 t.word ∧ t.failed = false

instance (t : Slot) : Decidable t.Quiet := inferInstanceAs (Decidable (_ ∧ _))

def pass (t : Slot) : Slot where
  cache := if t.Quiet then t.cache else .ofUi16 t.word
  number := if t.cache = t.number then .ofUi16 t.word else t.cache
  word := if t.cache = t.number then t.word else t.cache.ui16
  failed := false

/-- The PLC's word prevails over a cache without a change, and over one that is a word
with clear bytes above it. -/
def WordWins (t : Slot) : Prop :=
  ¬ t.Quiet ∧ (t.cache = t.number ∨ t.cache = .ofUi16 t.cache.ui16)

instance (t : Slot) : Decidable t.WordWins := inferInstanceAs (Decidable (_ ∧ _))

def winner (t : Slot) : Word := if t.WordWins then t.word else t.cache.ui16

/-- All copies have the same word. -/
def agreed (y : Word) : Slot := ⟨.ofUi16 y, .ofUi16 y, y, false⟩

theorem agreed_quiet (y : Word) : (agreed y).Quiet := ⟨rfl, rfl⟩

/-- From a quiet slot one pass is enough if the cache is a word with clear bytes above. -/
theorem Quiet.pass_eq {t : Slot} {y : Word} (h : t.Quiet) (hy : t.cache = .ofUi16 y) :
    t.pass = agreed y := by
  by_cases hc : t.cache = t.number
  · have hword : t.word = y := by
      rw [← NumericU.ofUi16_inj, ← h.1, ← hc, hy]
    rw [pass, if_pos h, if_pos hc, if_pos hc, hword, hy, agreed]
  · rw [pass, if_pos h, if_neg hc, if_neg hc, hy, NumericU.ui16_ofUi16, agreed]

@[simp] theorem agreed_pass (y : Word) : (agreed y).pass = agreed y :=
  (agreed_quiet y).pass_eq rfl

theorem agreed_passes (y : Word) (k : ℕ) : pass^[k] (agreed y) = agreed y :=
  Function.iterate_fixed (agreed_pass y) k

/-- The first pass of a quiet slot takes the cache whole, and the second one drops the
bytes above the word. -/
theorem Quiet.pass_pass {t : Slot} (h : t.Quiet) : t.pass.pass = agreed t.cache.ui16 := by
  by_cases hclear : t.cache = .ofUi16 t.cache.ui16
  · rw [h.pass_eq hclear, agreed_pass]
  have hc : t.cache ≠ t.number := by
    intro hc
    rw [hc, h.1, NumericU.ui16_ofUi16] at hclear
    exact hclear rfl
  have hfirst : t.pass = ⟨t.cache, t.cache, t.cache.ui16, false⟩ := by
    simp only [pass, if_pos h, if_neg hc]
  have hnews : ¬ Quiet ⟨t.cache, t.cache, t.cache.ui16, false⟩ := fun hq => hclear hq.1
  rw [hfirst, pass, if_neg hnews, if_pos rfl, if_pos rfl, agreed]

/-- Word and cache change places. -/
theorem pass_of_news {t : Slot} (h : ¬ t.Quiet) (hc : t.cache ≠ t.number) :
    t.pass = ⟨.ofUi16 t.word, t.cache, t.cache.ui16, false⟩ := by
  simp only [pass, if_neg h, if_neg hc]

/-- Three passes bring the copies to agree. -/
theorem pass_three (t : Slot) : t.pass.pass.pass = agreed t.winner := by
  by_cases h : t.Quiet
  · have hlost : ¬ t.WordWins := fun hw => hw.1 h
    rw [h.pass_pass, agreed_pass, winner, if_neg hlost]
  by_cases hc : t.cache = t.number
  · -- the word is published and nothing is taken
    have hwin : t.WordWins := ⟨h, Or.inl hc⟩
    have hfirst : t.pass = agreed t.word := by simp only [pass, if_neg h, if_pos hc, agreed]
    rw [hfirst, agreed_pass, agreed_pass, winner, if_pos hwin]
  have hfirst := pass_of_news h hc
  by_cases hclear : t.cache = .ofUi16 t.cache.ui16
  · -- the published word comes back
    have hwin : t.WordWins := ⟨h, Or.inr hclear⟩
    have hquiet : t.pass.Quiet := by
      rw [hfirst]
      exact ⟨hclear, rfl⟩
    rw [hquiet.pass_pass, hfirst, NumericU.ui16_ofUi16, winner, if_pos hwin]
  · -- the bytes above the taken word let them change places once more
    have hlost : ¬ t.WordWins := fun hw => hw.2.elim hc hclear
    have hnews : ¬ t.pass.Quiet := by
      rw [hfirst]
      exact fun hq => hclear hq.1
    have hdiffer : t.pass.cache ≠ t.pass.number := by
      rw [hfirst]
      intro heq
      have hword := congrArg NumericU.ui16 heq
      simp only [NumericU.ui16_ofUi16] at hword heq
      exact hclear (hword ▸ heq.symm)
    have hsecond := pass_of_news hnews hdiffer
    simp only [hfirst, NumericU.ui16_ofUi16] at hsecond ⊢
    have hquiet : (⟨.ofUi16 t.cache.ui16, .ofUi16 t.word, t.word, false⟩ : Slot).Quiet := ⟨rfl, rfl⟩
    rw [hsecond, hquiet.pass_eq rfl, winner, if_neg hlost]

theorem pass_iterate (t : Slot) {k : ℕ} (hk : 3 ≤ k) : pass^[k] t = agreed t.winner := by
  obtain ⟨j, rfl⟩ := Nat.exists_eq_add_of_le' hk
  rw [Function.iterate_add_apply]
  exact (congrArg pass^[j] (pass_three t)).trans (agreed_passes _ j)

end Slot

/-- The register and the entry with its variable, as far as a round changes them. -/
structure Port where
  reg : Mbregdata
  number : NumericU
  varErrors : ℕ
  var : UaVar

namespace Port

def slot (t : Port) : Slot := ⟨t.var.rawValue, t.number, t.reg.rvalue, decide (t.varErrors ≠ 0)⟩

def round (t : Port) : Port where
  reg := if t.var.rawValue = t.number then t.reg else (setReg t.var.rawValue.ui16 t.reg).1
  number := if t.var.rawValue = t.number then .ofUi16 t.reg.rvalue else t.var.rawValue
  varErrors := 0
  var :=
    if t.slot.Quiet then t.var
    else { t.var with rawValue := .ofUi16 t.reg.rvalue, node := .ofUi16 t.reg.rvalue }

theorem slot_round {t : Port} (hmode : t.reg.rmode = 1) : t.round.slot = t.slot.pass := by
  rw [slot, round, Slot.pass]
  congr 1
  · dsimp only
    split_ifs <;> rfl
  · dsimp only
    rw [apply_ite Mbregdata.rvalue, setReg_rvalue hmode]
    rfl

end Port

def port (n : Name) (p : RegPtr) (g : Gateway) : Port :=
  ⟨g.plcs.data p, (g.regmap.val n).number, (g.regmap.val n).varErrors, g.var n⟩

variable {g : Gateway} {n m k : Name} {p : RegPtr}

section
variable (h : Exposes g n p) (hua : (g.var n).uaStatus = statusGood)
  (hwr : g.opcs.wrStatus (g.regmap.val n).strOpcname = statusGood)
  (h0 : (g.plcs.data p).rerrors = 0)
include h h0

theorem publishes_iff : (g.turn n).publishes = true ↔ ¬ (port n p g).slot.Quiet := by
  rw [h.round_publishes_iff h0, Slot.Quiet, not_and_or]
  apply or_congr ne_comm
  exact ((not_congr decide_eq_false_iff_not).trans not_not).symm

include hua

theorem takes_iff : (g.turn n).takes = true ↔
    (g.var n).rawValue ≠ (g.regmap.val n).number := by
  rw [h.round_takes_iff h0]
  exact and_iff_left hua

theorem round_data (data : ReadData) :
    (g.refreshEntry data n).1.plcs.data p = (port n p g).round.reg := by
  have htakes := takes_iff h hua h0
  refine (h.round_data data).trans ?_
  by_cases hc : (g.var n).rawValue = (g.regmap.val n).number
  · rw [if_neg fun ht => htakes.mp ht hc]
    exact (if_pos hc).symm
  · rw [if_pos (htakes.mpr hc)]
    exact (if_neg hc).symm

theorem round_number (data : ReadData) :
    ((g.refreshEntry data n).1.regmap.val n).number = (port n p g).round.number := by
  have htakes := takes_iff h hua h0
  rw [Gateway.refreshEntry_val, h.round_number h0]
  by_cases hc : (g.var n).rawValue = (g.regmap.val n).number
  · rw [if_neg fun ht => htakes.mp ht hc]
    exact (if_pos hc).symm
  · rw [if_pos (htakes.mpr hc)]
    exact (if_neg hc).symm

include hwr

theorem round_var (data : ReadData) :
    (g.refreshEntry data n).1.var n = (port n p g).round.var := by
  have hpub := publishes_iff h h0
  rw [h.toOwnVariable.round_var]
  by_cases hq : (port n p g).slot.Quiet
  · rw [if_neg fun hc => hpub.mp hc.2 hq]
    exact (if_pos hq).symm
  · rw [if_pos ⟨h.kind, hpub.mpr hq⟩, h.round_plcErr h0, h.round_plcVal h0,
      OpcServer.writeVariable_accepted hwr]
    refine Eq.trans ?_ (if_neg hq).symm
    simp only [port, h.words, NumericU.typed_one, NumericU.ui16_ofUi16, Bool.not_false, if_true,
      ← hua]

theorem round_port (data : ReadData) :
    port n p (g.refreshEntry data n).1 = (port n p g).round := by
  have herr : ((g.refreshEntry data n).1.regmap.val n).varErrors = 0 := by
    rw [Gateway.refreshEntry_val]
    exact h.round_varErrors h0 data
  rw [port, round_data h hua h0, round_number h hua h0, round_var h hua hwr h0, herr]
  rfl

end

/-- Node, cache and local value of entry `m` are the word `y`. -/
structure Holds (g : Gateway) (m : Name) (y : Word) : Prop where
  node : (g.var m).node = .ofUi16 y
  cache : (g.var m).rawValue = .ofUi16 y
  number : (g.regmap.val m).number = .ofUi16 y

/-- The entry brings no value of its own. -/
def Follows (g : Gateway) (m : Name) : Prop := ∃ y, Holds g m y

/-- All entries over `p` are writable words with good variables, and all but `n` follow. -/
structure Team (n : Name) (p : RegPtr) (g : Gateway) : Prop where
  mem : n ∈ g.regmap.keys
  leads : p ∈ (g.regmap.val n).sources
  exposes : ∀ m ∈ g.regmap.keys, p ∈ (g.regmap.val m).sources → Exposes g m p
  uaStatus : ∀ m ∈ g.regmap.keys, p ∈ (g.regmap.val m).sources → (g.var m).uaStatus = statusGood
  accepts : ∀ m ∈ g.regmap.keys, p ∈ (g.regmap.val m).sources →
    g.opcs.wrStatus (g.regmap.val m).strOpcname = statusGood
  rerrors : (g.plcs.data p).rerrors = 0
  follows : ∀ m ∈ g.regmap.keys, p ∈ (g.regmap.val m).sources → m ≠ n → Follows g m

theorem Holds.congr {g' : Gateway} {y : Word} (h : Holds g m y) (hvar : g'.var m = g.var m)
    (hrm : g'.regmap.val m = g.regmap.val m) : Holds g' m y := by
  refine ⟨?_, ?_, ?_⟩
  · rw [hvar]
    exact h.node
  · rw [hvar]
    exact h.cache
  · rw [hrm]
    exact h.number

namespace Team

theorem lead (h : Team n p g) : Exposes g n p := h.exposes n h.mem h.leads

/-- A change that leaves the configuration and all entries over the word but `k`. -/
theorem of_config {g' : Gateway} (h : Team n p g) (hc : g.SameConfig g')
    (herr : (g'.plcs.data p).rerrors = 0)
    (hua : ∀ m ∈ g.regmap.keys, p ∈ (g.regmap.val m).sources → (g'.var m).uaStatus = statusGood)
    (hfollows : ∀ m ∈ g.regmap.keys, p ∈ (g.regmap.val m).sources → m ≠ n → Follows g' m) :
    Team n p g' := by
  refine ⟨?_, ?_, fun m hm hp => ?_, fun m hm hp => ?_, fun m hm hp => ?_, herr, fun m hm hp => ?_⟩
  · rw [hc.keys]
    exact h.mem
  · rw [hc.defs]
    exact h.leads
  · rw [hc.keys] at hm
    rw [hc.defs] at hp
    exact (h.exposes m hm hp).of_config hc
  · rw [hc.keys] at hm
    rw [hc.defs] at hp
    exact hua m hm hp
  · rw [hc.keys] at hm
    rw [hc.defs] at hp
    rw [hc.opcs.wrStatus, hc.defs]
    exact h.accepts m hm hp
  · rw [hc.keys] at hm
    rw [hc.defs] at hp
    exact hfollows m hm hp

/-- The round of a follower: it takes nothing, and holds the word afterwards. -/
theorem round_follower (h : Team n p g) (hm : m ∈ g.regmap.keys)
    (hp : p ∈ (g.regmap.val m).sources) (hmn : m ≠ n) (data : ReadData) :
    (g.refreshEntry data m).1.plcs.data p = g.plcs.data p ∧
      Holds (g.refreshEntry data m).1 m (g.plcs.data p).rvalue := by
  have hx := h.exposes m hm hp
  have hua := h.uaStatus m hm hp
  obtain ⟨y, hy⟩ := h.follows m hm hp hmn
  have hsame : (g.var m).rawValue = (g.regmap.val m).number := hy.cache.trans hy.number.symm
  have hvar := round_var hx hua (h.accepts m hm hp) h.rerrors data
  refine ⟨(round_data hx hua h.rerrors data).trans (if_pos hsame), ?_⟩
  have hnumber := (round_number hx hua h.rerrors data).trans (if_pos hsame)
  by_cases hq : (port m p g).slot.Quiet
  · have hword : y = (g.plcs.data p).rvalue := by
      rw [← NumericU.ofUi16_inj, ← hy.number]
      exact hq.1
    have hkept := hvar.trans (if_pos hq)
    refine ⟨?_, ?_, hnumber⟩
    · rw [hkept, ← hword]
      exact hy.node
    · rw [hkept, ← hword]
      exact hy.cache
  · have hpublished := hvar.trans (if_neg hq)
    exact ⟨by rw [hpublished]; rfl, by rw [hpublished]; rfl, hnumber⟩

/-- What a round leaves of the entries over the word that it is not about. -/
theorem round_others (h : Team n p g) (hk : k ∈ g.regmap.keys) (hm : m ∈ g.regmap.keys)
    (hp : p ∈ (g.regmap.val m).sources) (hne : k ≠ m) (data : ReadData) :
    (g.refreshEntry data k).1.regmap.val m = g.regmap.val m ∧
      (g.refreshEntry data k).1.var m = g.var m :=
  others_rounds (h.exposes m hm hp).toOwnVariable (List.forall_mem_singleton.mpr ⟨hk, hne⟩) data

theorem round (h : Team n p g) (hk : k ∈ g.regmap.keys) (data : ReadData) :
    Team n p (g.refreshEntry data k).1 := by
  have hf := Gateway.refreshEntry_frame data k g
  apply h.of_config hf.sameConfig ((hf.plcs.errors p).trans h.rerrors)
  · intro m hm hp
    by_cases hkm : k = m
    · subst hkm
      rw [round_var (h.exposes k hm hp) (h.uaStatus k hm hp) (h.accepts k hm hp) h.rerrors]
      rw [Port.round, apply_ite UaVar.uaStatus]
      exact (ite_self _).trans (h.uaStatus k hm hp)
    · rw [(h.round_others hk hm hp hkm data).2]
      exact h.uaStatus m hm hp
  · intro m hm hp hmn
    by_cases hkm : k = m
    · subst hkm
      exact ⟨_, (h.round_follower hm hp hmn data).2⟩
    · obtain ⟨hrm, hvar⟩ := h.round_others hk hm hp hkm data
      obtain ⟨y, hy⟩ := h.follows m hm hp hmn
      exact ⟨y, hy.congr hvar hrm⟩

/-- Only the leading entry's own round changes its port. -/
theorem round_port_other (h : Team n p g) (hk : k ∈ g.regmap.keys) (hkn : k ≠ n)
    (data : ReadData) : port n p (g.refreshEntry data k).1 = port n p g := by
  obtain ⟨hrm, hvar⟩ := h.round_others hk h.mem h.leads hkn data
  have hdata : (g.refreshEntry data k).1.plcs.data p = g.plcs.data p := by
    by_cases hp : p ∈ (g.regmap.val k).sources
    · exact (h.round_follower hk hp hkn data).1
    · exact (Gateway.refreshEntry_frame data k g).plcs.others p hp
  rw [port, hdata, hrm, hvar, port]

theorem round_port_self (h : Team n p g) (data : ReadData) :
    port n p (g.refreshEntry data n).1 = (port n p g).round :=
  round_port h.lead (h.uaStatus n h.mem h.leads) (h.accepts n h.mem h.leads) h.rerrors data

theorem rounds (h : Team n p g) {ns : List Name} (hnd : ns.Nodup)
    (hns : ∀ k ∈ ns, k ∈ g.regmap.keys) (data : ReadData) :
    Team n p (Gateway.refreshEntries data ns g).1 ∧
      port n p (Gateway.refreshEntries data ns g).1 =
        if n ∈ ns then (port n p g).round else port n p g := by
  induction ns generalizing g with
  | nil => exact ⟨h, (if_neg List.not_mem_nil).symm⟩
  | cons k ns ih =>
      obtain ⟨hk, hnd⟩ := List.nodup_cons.mp hnd
      obtain ⟨hkey, hkeys⟩ := List.forall_mem_cons.mp hns
      obtain ⟨hteam, hport⟩ := ih (h.round hkey data) hnd hkeys
      refine ⟨hteam, hport.trans ?_⟩
      by_cases hkn : k = n
      · subst hkn
        rw [if_neg hk, if_pos List.mem_cons_self, h.round_port_self data]
      · rw [h.round_port_other hkey hkn data]
        have hiff : n ∈ k :: ns ↔ n ∈ ns := by simp [Ne.symm hkn]
        simp only [hiff]

/-- A pass keeps the team and is one round of the leading entry. -/
theorem pass (h : Team n p g) (data : ReadData) :
    Team n p (g.taskRegsRefresh data).1 ∧
      port n p (g.taskRegsRefresh data).1 = (port n p g).round := by
  obtain ⟨hteam, hport⟩ := h.rounds g.regmap.nodup (fun _ hk => hk) data
  exact ⟨hteam, hport.trans (if_pos h.mem)⟩

end Team

/-- The team with its register, which the device knows and which has the device's word
unless an update is pending. -/
structure Wired (n : Name) (p : RegPtr) (s : System) : Prop extends Team n p s.gateway where
  registered : p.raddr ∈ (s.gateway.plcs p.plc).regs.keys
  synced : (s.gateway.plcs.data p).rupdate = 0 →
    (s.gateway.plcs.data p).rvalue = s.devices p.plc p.raddr

/-- The polls and write-outs of the register's device succeed. -/
def Succeeds (p : RegPtr) (s : System) : Event → Prop
  | .poll i env => i = p.plc → 0 < (readMaster (s.devices i) env (s.gateway.plcs i)).1.rc
  | .writeOut i env => i = p.plc → (writeMaster env (s.gateway.plcs i)).1.rcWrite = 0
  | _ => True

/-- Nobody writes to the variable, and no refresh finds bytes above its word. -/
def Spares (t : Name) (s : System) : Event → Prop
  | .clientWrite u _ => u ≠ t
  | .writeValue u _ _ => s.gateway.opcs.getVarFullName u ≠ t
  | .refreshAll data => ∀ beyond, data t = some beyond → beyond.w1 = 0 ∧ beyond.w2 = 0 ∧ beyond.w3 = 0
  | _ => True

/-- All is well with the device, and the followers' variables are spared. -/
def Sound (n : Name) (p : RegPtr) (s : System) (e : Event) : Prop :=
  Succeeds p s e ∧ ∀ m ∈ s.gateway.regmap.keys, p ∈ (s.gateway.regmap.val m).sources → m ≠ n →
    Spares (s.gateway.regmap.val m).strOpcname s e

def IsPass : Event → Bool
  | .pass _ => true
  | _ => false

variable {s : System} {y : Word}

/-- Passes apart, a spared variable keeps the entry's word. -/
theorem Holds.spared (h : Holds s.gateway m y) (hx : Exposes s.gateway m p) {e : Event}
    (hok : Spares (s.gateway.regmap.val m).strOpcname s e) (he : IsPass e = false) :
    Holds (step s e).gateway m y := by
  cases e with
  | pass data => exact Bool.noConfusion he
  | clientWrite t w =>
      refine h.congr ((OpcServer.clientWrite_touches t w _).others _ fun hm => hok ?_) rfl
      exact (Set.mem_singleton_iff.mp hm).symm
  | writeValue t w data =>
      refine h.congr ((OpcServer.writeValue_touches data t w true _).others _ fun hm => hok ?_) rfl
      exact (Set.mem_singleton_iff.mp hm).symm
  | refreshAll data =>
      have hval := OpcServer.refreshAllValues_val hx.isVar data
      cases hd : data (s.gateway.regmap.val m).strOpcname with
      | none =>
          rw [hd] at hval
          exact h.congr hval rfl
      | some beyond =>
          obtain ⟨h1, h2, h3⟩ := hok beyond hd
          rw [hd] at hval
          refine ⟨(congrArg UaVar.node hval).trans h.node, ?_, h.number⟩
          refine (congrArg UaVar.rawValue hval).trans ?_
          have hwords := hx.words
          have hnode := h.node
          rw [Gateway.var] at hwords hnode
          simp [OpcServer.refreshVar, hwords, hnode, NumericU.overlay, NumericU.ofUi16, h1, h2, h3]
  | poll i env => exact h.congr rfl rfl
  | writeOut i env => exact h.congr rfl rfl

theorem Wired.follows_spared (h : Wired n p s) {e : Event} (hok : Sound n p s e)
    (he : IsPass e = false) (m : Name) (hm : m ∈ s.gateway.regmap.keys)
    (hp : p ∈ (s.gateway.regmap.val m).sources) (hmn : m ≠ n) : Follows (step s e).gateway m := by
  obtain ⟨y, hy⟩ := h.follows m hm hp hmn
  exact ⟨y, hy.spared (h.exposes m hm hp) (hok.2 m hm hp hmn) he⟩

theorem Team.of_opcs (h : Team n p g) {o : OpcServer}
    (ho : OpcServer.Touches Set.univ g.opcs o)
    (hua : ∀ m ∈ g.regmap.keys, p ∈ (g.regmap.val m).sources →
      (o.vars.val (g.regmap.val m).strOpcname).uaStatus = statusGood)
    (hfollows : ∀ m ∈ g.regmap.keys, p ∈ (g.regmap.val m).sources → m ≠ n →
      Follows { g with opcs := o } m) : Team n p { g with opcs := o } :=
  h.of_config (setOpcs_sameConfig ho) h.rerrors hua hfollows

theorem Wired.clientWrite (h : Wired n p s) {t : Name} {w : NumericU}
    (hok : Sound n p s (.clientWrite t w)) : Wired n p (step s (.clientWrite t w)) := by
  have htouch := OpcServer.clientWrite_touches t w s.gateway.opcs
  have hothers : ∀ u, t ≠ u → (s.gateway.opcs.clientWrite t w).vars.val u = s.gateway.opcs.vars.val u :=
    fun u hu => htouch.others u fun hm => hu (Set.mem_singleton_iff.mp hm).symm
  refine ⟨h.toTeam.of_opcs (htouch.mono (Set.subset_univ _)) (fun m hm hp => ?_)
    (h.follows_spared hok rfl), h.registered, h.synced⟩
  · by_cases ht : t = (s.gateway.regmap.val m).strOpcname
    · subst ht
      rw [OpcServer.clientWrite_val (h.exposes m hm hp).isVar]
      exact h.uaStatus m hm hp
    · rw [hothers _ ht]
      exact h.uaStatus m hm hp

theorem Wired.writeValue (h : Wired n p s) {t : Name} {w : NumericU} {data : Option NumericU}
    (hok : Sound n p s (.writeValue t w data)) : Wired n p (step s (.writeValue t w data)) := by
  have htouch := OpcServer.writeValue_touches data t w true s.gateway.opcs
  have hothers : ∀ u, s.gateway.opcs.getVarFullName t ≠ u →
      (s.gateway.opcs.writeValue data t w true).vars.val u = s.gateway.opcs.vars.val u :=
    fun u hu => htouch.others u fun hm => hu (Set.mem_singleton_iff.mp hm).symm
  refine ⟨h.toTeam.of_opcs (htouch.mono (Set.subset_univ _)) (fun m hm hp => ?_)
    (h.follows_spared hok rfl), h.registered, h.synced⟩
  · by_cases ht : s.gateway.opcs.getVarFullName t = (s.gateway.regmap.val m).strOpcname
    · have hvar : s.gateway.opcs.isVariable (s.gateway.opcs.getVarFullName t) = true := by
        rw [ht]
        exact (h.exposes m hm hp).isVar
      rw [← ht, OpcServer.writeValue_val hvar, ht,
        OpcServer.writeVariable_accepted (h.accepts m hm hp)]
      rfl
    · rw [hothers _ ht]
      exact h.uaStatus m hm hp

theorem Wired.refreshAll (h : Wired n p s) {data : ReadData}
    (hok : Sound n p s (.refreshAll data)) : Wired n p (step s (.refreshAll data)) := by
  refine ⟨h.toTeam.of_opcs (OpcServer.refreshAllValues_touches data _) (fun m hm hp => ?_)
    (h.follows_spared hok rfl), h.registered, h.synced⟩
  rw [OpcServer.refreshAllValues_val (h.exposes m hm hp).isVar, OpcServer.refreshVar_uaStatus]
  exact h.uaStatus m hm hp

theorem setReg_of_eq {rd : Mbregdata} {y : Word} (hmode : rd.rmode = 1) (h : rd.rvalue = y) :
    (setReg y rd).1 = rd := by
  rw [setReg, if_pos hmode, if_neg (not_not.mpr h)]

theorem Wired.pass_port (h : Wired n p s) (data : ReadData) :
    port n p (step s (.pass data)).gateway = (port n p s.gateway).round := (h.toTeam.pass data).2

/-- A word that a pass changes becomes pending. -/
theorem Wired.pass (h : Wired n p s) (data : ReadData) : Wired n p (step s (.pass data)) := by
  have hc := step_sameConfig s (.pass data)
  have hdata : (step s (.pass data)).gateway.plcs.data p = _ := congrArg Port.reg (h.pass_port data)
  refine ⟨(h.toTeam.pass data).1, ?_, ?_⟩
  · rw [hc.plcKeys]
    exact h.registered
  · rw [hdata]
    dsimp only [Port.round, port]
    split_ifs
    · exact h.synced
    by_cases heq : (s.gateway.plcs.data p).rvalue = (s.gateway.var n).rawValue.ui16
    · rw [setReg_of_eq h.lead.rmode heq]
      exact h.synced
    · intro hidle
      have hchanged : (setReg (s.gateway.var n).rawValue.ui16 (s.gateway.plcs.data p)).1.rvalue ≠
          (s.gateway.plcs.data p).rvalue := by
        rw [setReg_rvalue h.lead.rmode]
        exact Ne.symm heq
      rw [setReg_rupdate hchanged] at hidle
      exact absurd hidle one_ne_zero

/-- A poll that succeeds brings the word that is already there. -/
theorem Wired.poll_data (h : Wired n p s) {i : ℕ} {env : ℕ → ReadAttempt}
    (hok : Succeeds p s (.poll i env)) :
    (step s (.poll i env)).gateway.plcs.data p = s.gateway.plcs.data p := by
  have hdata : (step s (.poll i env)).gateway.plcs.data p = _ :=
    setPlc_data s.gateway i (readMaster (s.devices i) env (s.gateway.plcs i)).1 p
  rw [hdata]
  by_cases hi : p.plc = i
  · subst hi
    have hzero : ((s.gateway.plcs p.plc).regs.val p.raddr).data.rerrors = 0 := h.rerrors
    have hsync : ((s.gateway.plcs p.plc).regs.val p.raddr).data.rupdate = 0 →
        ((s.gateway.plcs p.plc).regs.val p.raddr).data.rvalue = s.devices p.plc p.raddr := h.synced
    rw [if_pos rfl, readMaster_ok (hok rfl), PlcVec.data]
    by_cases hpend : Pending (s.gateway.plcs p.plc) p.raddr
    · rw [takePoll_pending hpend, ← hzero]
    · have hword := @takePoll_rvalue (s.devices p.plc) _ _ hpend
      have hidle : ((s.gateway.plcs p.plc).regs.val p.raddr).data.rupdate = 0 := by
        by_contra hne
        exact hpend ⟨ne_of_eq_of_ne h.lead.rmode one_ne_zero, hne⟩
      rw [takePoll, if_pos (Or.inr hidle)] at hword ⊢
      simp only at hword ⊢
      rw [hword, ← hsync hidle, ← hzero]
  · rw [if_neg hi]

theorem Wired.poll (h : Wired n p s) {i : ℕ} {env : ℕ → ReadAttempt}
    (hok : Sound n p s (.poll i env)) : Wired n p (step s (.poll i env)) := by
  have hdata := h.poll_data hok.1
  have hc := step_sameConfig s (.poll i env)
  refine ⟨h.toTeam.of_config hc ((congrArg Mbregdata.rerrors hdata).trans h.rerrors) h.uaStatus
    (h.follows_spared hok rfl), ?_, ?_⟩
  · rw [hc.plcKeys]
    exact h.registered
  · rw [hdata]
    exact h.synced

/-- A write-out without failures sends a pending word and leaves any other as it is. -/
theorem Wired.writeOut_data (h : Wired n p s) {i : ℕ} {env : ℤ → ℕ → WriteAttempt}
    (hok : Succeeds p s (.writeOut i env)) :
    ((step s (.writeOut i env)).gateway.plcs.data p = s.gateway.plcs.data p ∧
      (step s (.writeOut i env)).devices p.plc p.raddr = s.devices p.plc p.raddr) ∨
    ((step s (.writeOut i env)).gateway.plcs.data p =
        { s.gateway.plcs.data p with rupdate := 0, rerrors := 0 } ∧
      (step s (.writeOut i env)).devices p.plc p.raddr = (s.gateway.plcs.data p).rvalue) := by
  have hdata : (step s (.writeOut i env)).gateway.plcs.data p = _ :=
    setPlc_data s.gateway i (writeMaster env (s.gateway.plcs i)).1 p
  by_cases hi : p.plc = i
  · subst hi
    have hdev : (step s (.writeOut p.plc env)).devices p.plc p.raddr =
        (writesTo p.raddr (ackedWrites (writeMaster env (s.gateway.plcs p.plc)).2)).getLastD
          (s.devices p.plc p.raddr) := by
      simp [step, applyWrites_apply]
    rw [if_pos rfl] at hdata
    cases (writeMaster_outcome env (s.gateway.plcs p.plc)).served p.raddr h.registered with
    | inl hsent =>
        obtain ⟨-, -, hreg, hwords⟩ := hsent
        rw [hwords] at hdev
        rw [hreg] at hdata
        exact Or.inr ⟨hdata, hdev⟩
    | inr hkept =>
        obtain ⟨-, hreg, hnone⟩ := hkept
        rw [hnone] at hdev
        rw [hreg (hok rfl)] at hdata
        exact Or.inl ⟨hdata, hdev⟩
  · rw [if_neg hi] at hdata
    exact Or.inl ⟨hdata, by simp [step, Function.update_of_ne hi]⟩

theorem Wired.writeOut_rvalue (h : Wired n p s) {i : ℕ} {env : ℤ → ℕ → WriteAttempt}
    (hok : Succeeds p s (.writeOut i env)) :
    ((step s (.writeOut i env)).gateway.plcs.data p).rvalue = (s.gateway.plcs.data p).rvalue := by
  cases h.writeOut_data hok with
  | inl hkept => rw [hkept.1]
  | inr hsent => rw [hsent.1]

theorem Wired.writeOut (h : Wired n p s) {i : ℕ} {env : ℤ → ℕ → WriteAttempt}
    (hok : Sound n p s (.writeOut i env)) : Wired n p (step s (.writeOut i env)) := by
  have hc := step_sameConfig s (.writeOut i env)
  have hreg : p.raddr ∈ ((step s (.writeOut i env)).gateway.plcs p.plc).regs.keys := by
    rw [hc.plcKeys]
    exact h.registered
  cases h.writeOut_data hok.1 with
  | inl hkept =>
      refine ⟨h.toTeam.of_config hc ((congrArg Mbregdata.rerrors hkept.1).trans h.rerrors) h.uaStatus
        (h.follows_spared hok rfl), hreg, ?_⟩
      rw [hkept.1, hkept.2]
      exact h.synced
  | inr hsent =>
      refine ⟨h.toTeam.of_config hc (congrArg Mbregdata.rerrors hsent.1) h.uaStatus
        (h.follows_spared hok rfl), hreg, ?_⟩
      rw [hsent.1, hsent.2]
      exact fun _ => rfl

/-- The wiring survives every sound step. -/
theorem Wired.step (h : Wired n p s) {e : Event} (hok : Sound n p s e) : Wired n p (step s e) := by
  cases e with
  | clientWrite t w => exact h.clientWrite hok
  | writeValue t w data => exact h.writeValue hok
  | refreshAll data => exact h.refreshAll hok
  | pass data => exact h.pass data
  | poll i env => exact h.poll hok
  | writeOut i env => exact h.writeOut hok

/-- Every follower that has had its round holds the settled word. -/
theorem Team.rounds_hold (h : Team n p g) (hy : (port n p g).slot = Slot.agreed y) {ns : List Name}
    (hnd : ns.Nodup) (hns : ∀ k ∈ ns, k ∈ g.regmap.keys) (data : ReadData) :
    ∀ m ∈ ns, p ∈ (g.regmap.val m).sources → m ≠ n →
      Holds (Gateway.refreshEntries data ns g).1 m y := by
  induction ns generalizing g with
  | nil => exact fun m hm => absurd hm List.not_mem_nil
  | cons k ns ih =>
      obtain ⟨hk, hnd⟩ := List.nodup_cons.mp hnd
      obtain ⟨hkey, hkeys⟩ := List.forall_mem_cons.mp hns
      have hteam := h.round hkey data
      have hdefs := (Gateway.refreshEntry_frame data k g).defs
      have hslot : (port n p (g.refreshEntry data k).1).slot = Slot.agreed y := by
        by_cases hkn : k = n
        · subst hkn
          rw [h.round_port_self data, Port.slot_round h.lead.rmode, hy, Slot.agreed_pass]
        · rw [h.round_port_other hkey hkn data, hy]
      intro m hm hp hmn
      cases List.mem_cons.mp hm with
      | inr hmem =>
          rw [← hdefs] at hp
          exact ih hteam hslot hnd hkeys m hmem hp hmn
      | inl heq =>
          subst heq
          have hword : (g.plcs.data p).rvalue = y := congrArg Slot.word hy
          have hround := (h.round_follower hkey hp hmn data).2
          rw [hword] at hround
          have hx := (h.exposes m hkey hp).of_config (Gateway.refreshEntry_frame data m g).sameConfig
          obtain ⟨hrm, hvar⟩ := others_rounds hx.toOwnVariable
            (fun j hj => ⟨hkeys j hj, fun he => hk (he ▸ hj)⟩) data
          exact hround.congr hvar hrm

/-- All copies of every entry over the word but `n` are at `y`. -/
def Followed (n : Name) (p : RegPtr) (y : Word) (s : System) : Prop :=
  ∀ m ∈ s.gateway.regmap.keys, p ∈ (s.gateway.regmap.val m).sources → m ≠ n → Holds s.gateway m y

theorem Wired.pass_followed (h : Wired n p s) (hy : (port n p s.gateway).slot = Slot.agreed y)
    (data : ReadData) : Followed n p y (Sys.step s (.pass data)) := by
  intro m hm hp
  have hc := step_sameConfig s (.pass data)
  rw [hc.keys] at hm
  rw [hc.defs] at hp
  exact h.rounds_hold hy s.gateway.regmap.nodup (fun _ hk => hk) data m hm hp

/-- Nobody changes the cache of `t`; a client's write changes the node only. -/
def LeavesCache (t : Name) (s : System) : Event → Prop
  | .writeValue u _ _ => s.gateway.opcs.getVarFullName u ≠ t
  | .refreshAll data => data t = none
  | _ => True

def LeftAlone (n : Name) (p : RegPtr) (s : System) (e : Event) : Prop :=
  Sound n p s e ∧ LeavesCache (s.gateway.regmap.val n).strOpcname s e

def passes (es : List Event) : ℕ := es.countP IsPass

def slotOf (n : Name) (p : RegPtr) (s : System) : Slot := (port n p s.gateway).slot

theorem slotOf_congr {s' : System} (hcache : (s'.gateway.var n).rawValue = (s.gateway.var n).rawValue)
    (hrm : s'.gateway.regmap.val n = s.gateway.regmap.val n)
    (hword : (s'.gateway.plcs.data p).rvalue = (s.gateway.plcs.data p).rvalue) :
    slotOf n p s' = slotOf n p s := by
  rw [slotOf, Port.slot, port, hcache, hrm, hword]
  rfl

/-- Only a pass changes the entry or the register's word. -/
theorem Wired.entry_step (h : Wired n p s) {e : Event} (hok : Sound n p s e)
    (he : IsPass e = false) :
    (Sys.step s e).gateway.regmap.val n = s.gateway.regmap.val n ∧
      ((Sys.step s e).gateway.plcs.data p).rvalue = (s.gateway.plcs.data p).rvalue := by
  cases e with
  | pass data => exact Bool.noConfusion he
  | poll i env => exact ⟨rfl, congrArg Mbregdata.rvalue (h.poll_data hok.1)⟩
  | writeOut i env => exact ⟨rfl, h.writeOut_rvalue hok.1⟩
  | clientWrite t w => exact ⟨rfl, rfl⟩
  | writeValue t w data => exact ⟨rfl, rfl⟩
  | refreshAll data => exact ⟨rfl, rfl⟩

theorem Wired.cache_step (h : Wired n p s) {e : Event}
    (hok : LeavesCache (s.gateway.regmap.val n).strOpcname s e) (he : IsPass e = false) :
    ((Sys.step s e).gateway.var n).rawValue = (s.gateway.var n).rawValue := by
  cases e with
  | pass data => exact Bool.noConfusion he
  | poll i env => rfl
  | writeOut i env => rfl
  | clientWrite t w =>
      by_cases ht : t = (s.gateway.regmap.val n).strOpcname
      · subst ht
        have hval := OpcServer.clientWrite_val h.lead.isVar w
        exact (congrArg UaVar.rawValue hval).trans rfl
      · refine congrArg UaVar.rawValue ((OpcServer.clientWrite_touches t w _).others _ fun hm => ht ?_)
        exact (Set.mem_singleton_iff.mp hm).symm
  | writeValue t w data =>
      refine congrArg UaVar.rawValue
        ((OpcServer.writeValue_touches data t w true _).others _ fun hm => hok ?_)
      exact (Set.mem_singleton_iff.mp hm).symm
  | refreshAll data =>
      have hvar : (Sys.step s (.refreshAll data)).gateway.var n = _ :=
        OpcServer.refreshAllValues_val h.lead.isVar data
      rw [hvar, hok]
      rfl

theorem eq_pass {e : Event} (he : IsPass e = true) : ∃ data, e = .pass data := by
  cases e with
  | pass data => exact ⟨data, rfl⟩
  | clientWrite t w => exact Bool.noConfusion he
  | writeValue t w data => exact Bool.noConfusion he
  | refreshAll data => exact Bool.noConfusion he
  | poll i env => exact Bool.noConfusion he
  | writeOut i env => exact Bool.noConfusion he

/-- Passes apart, a step leaves the copies as they are. -/
theorem Wired.slotOf_step (h : Wired n p s) {e : Event} (hok : LeftAlone n p s e) :
    slotOf n p (Sys.step s e) = if IsPass e then (slotOf n p s).pass else slotOf n p s := by
  cases he : IsPass e with
  | false =>
      obtain ⟨hrm, hword⟩ := h.entry_step hok.1 he
      exact slotOf_congr (h.cache_step hok.2 he) hrm hword
  | true =>
      obtain ⟨data, rfl⟩ := eq_pass he
      exact (congrArg Port.slot (h.pass_port data)).trans (Port.slot_round h.lead.rmode)

theorem Wired.followed_step (h : Wired n p s) {e : Event} (hok : Sound n p s e)
    (he : IsPass e = false) (hy : Followed n p y s) : Followed n p y (Sys.step s e) := by
  intro m hm hp hmn
  have hc := step_sameConfig s e
  rw [hc.keys] at hm
  rw [hc.defs] at hp
  exact (hy m hm hp hmn).spared (h.exposes m hm hp) (hok.2 m hm hp hmn) he

/-- A run is its passes, as far as the leading entry goes. -/
theorem slotOf_run {es : List Event} (h : Wired n p s)
    (hes : Runs.Along Sys.step (LeftAlone n p) s es) :
    Wired n p (Runs.run Sys.step s es) ∧
      slotOf n p (Runs.run Sys.step s es) = Slot.pass^[passes es] (slotOf n p s) := by
  induction es generalizing s with
  | nil => exact ⟨h, rfl⟩
  | cons e es ih =>
      obtain ⟨hok, hrest⟩ := hes
      obtain ⟨hwired, hslot⟩ := ih (h.step hok.1) hrest
      rw [h.slotOf_step hok] at hslot
      refine ⟨hwired, hslot.trans ?_⟩
      cases he : IsPass e with
      | false => simp [passes, he]
      | true => simp [passes, he]

/-- All copies of entry `n` are at `y`, and so is the device once nothing is pending. -/
structure Settled (n : Name) (p : RegPtr) (y : Word) (s : System) : Prop where
  cache : (s.gateway.var n).rawValue = .ofUi16 y
  localVal : (s.gateway.regmap.val n).number = .ofUi16 y
  word : (s.gateway.plcs.data p).rvalue = y
  device : (s.gateway.plcs.data p).rupdate = 0 → s.devices p.plc p.raddr = y

theorem Wired.settled (h : Wired n p s) (hslot : slotOf n p s = Slot.agreed y) :
    Settled n p y s := by
  have hword : (s.gateway.plcs.data p).rvalue = y := congrArg Slot.word hslot
  refine ⟨congrArg Slot.cache hslot, congrArg Slot.number hslot, hword, fun hidle => ?_⟩
  rw [← h.synced hidle]
  exact hword

/-- The fourth pass takes the followers along. -/
theorem followed_run {es : List Event} (h : Wired n p s)
    (hes : Runs.Along Sys.step (LeftAlone n p) s es) (hfour : 4 ≤ passes es) :
    Followed n p (slotOf n p s).winner (Runs.run Sys.step s es) := by
  induction es using List.reverseRecOn with
  | nil => exact absurd hfour (by decide)
  | append_singleton es e ih =>
      obtain ⟨hbefore, hok, -⟩ := Runs.along_append.mp hes
      obtain ⟨hwired, hslot⟩ := slotOf_run h hbefore
      rw [Runs.run_append, Runs.run_cons, Runs.run_nil]
      rw [passes, List.countP_append] at hfour
      cases he : IsPass e with
      | false =>
          apply hwired.followed_step hok.1 he
          apply ih hbefore
          rwa [List.countP_singleton, if_neg (by simp [he]), Nat.add_zero] at hfour
      | true =>
          obtain ⟨data, rfl⟩ := eq_pass he
          rw [List.countP_singleton, if_pos he] at hfour
          apply hwired.pass_followed
          exact hslot.trans (Slot.pass_iterate _ (Nat.le_of_succ_le_succ hfour))

/-- The device has moved from 5 to 6 while a client wrote 9 to its own entry; the
reference has seen the 6. -/
def contested : System where
  gateway := Convergence.pair 6 5 9 6 6
  devices := fun _ _ => 6

theorem contested_wired : Wired ['a'] ⟨0, 0⟩ contested := by
  have hshared : Convergence.SharedWord contested.gateway ⟨0, 0⟩ := Convergence.pair_shared 6 5 9 6 6
  have hkeys : ∀ m ∈ contested.gateway.regmap.keys, m = ['a'] ∨ m = ['b'] := by
    intro m hm
    simpa [contested, Convergence.pair] using hm
  refine ⟨⟨List.mem_cons_self, by decide, hshared.exposes,
    fun m hm hp => (hshared.clear m hm hp).uaStatus,
    fun m hm hp => (hshared.clear m hm hp).wrStatus, rfl, fun m hm _ hne => ?_⟩,
    List.mem_singleton_self _, fun _ => rfl⟩
  rw [(hkeys m hm).resolve_left hne]
  exact ⟨6, rfl, rfl, rfl⟩

end RwModbus.Settling
