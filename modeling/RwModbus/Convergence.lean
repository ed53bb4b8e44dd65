import RwModbus.Library.Circulation
import RwModbus.OneWord

/-!
# Several entries over one word

The writable entries over one word are copies of a shared slot: the word is the
slot, an entry's local value is what it last agreed on, and its cached OPC value
is the remote side. A pass of the loop is a pass over these copies, whatever
other entries do in between.
-/
namespace RwModbus.Convergence
open Numeric Registers Reg Opc Refresh OneWord SharedSlot

def exposing (g : Gateway) (p : RegPtr) (ns : List Name) : List Name :=
  ns.filter fun n => p ∈ (g.regmap.val n).sources

def word (g : Gateway) (p : RegPtr) : NumericU := .ofUi16 (g.plcs.data p).rvalue

def copy (g : Gateway) (n : Name) : Copy NumericU := ⟨(g.regmap.val n).number, (g.var n).rawValue⟩

/-- The word and the values of its entries in the order of the loop. -/
def view (g : Gateway) (p : RegPtr) : NumericU × List (Copy NumericU) :=
  (word g p, (exposing g p g.regmap.keys).map (copy g))

/-- The entry and its variable are free of errors and hold 16-bit values. -/
structure Clear (g : Gateway) (n : Name) : Prop where
  varErrors : (g.regmap.val n).varErrors = 0
  uaStatus : (g.var n).uaStatus = statusGood
  wrStatus : g.opcs.wrStatus (g.regmap.val n).strOpcname = statusGood
  number : (g.regmap.val n).number = .ofUi16 (g.regmap.val n).number.ui16
  rawValue : (g.var n).rawValue = .ofUi16 (g.var n).rawValue.ui16

/-- An error-free word all of whose entries are writable, error-free and of
type `u16`. -/
structure SharedWord (g : Gateway) (p : RegPtr) : Prop where
  rerrors : (g.plcs.data p).rerrors = 0
  exposes : ∀ n ∈ g.regmap.keys, p ∈ (g.regmap.val n).sources → Exposes g n p
  clear : ∀ n ∈ g.regmap.keys, p ∈ (g.regmap.val n).sources → Clear g n

variable {g : Gateway} {p : RegPtr} {n m : Name}

theorem others_rounds (h : g.OwnVariable m) {ns : List Name}
    (hns : ∀ n ∈ ns, n ∈ g.regmap.keys ∧ n ≠ m) (data : ReadData) :
    (Gateway.refreshEntries data ns g).1.regmap.val m = g.regmap.val m ∧
      (Gateway.refreshEntries data ns g).1.var m = g.var m := by
  refine h.frame ((Gateway.refreshEntries_frame data ns g).mono ?_ ?_ (Set.Subset.refl _))
  · exact fun n hn => (hns n hn).2
  · exact fun s ⟨n, hn, hs⟩ => ⟨n, (hns n hn).1, (hns n hn).2, hs⟩

section
variable (h : Exposes g n p) (hc : Clear g n) (h0 : (g.plcs.data p).rerrors = 0)
include h hc h0

theorem takes_iff : (g.turn n).takes = true ↔ (g.var n).rawValue ≠ (g.regmap.val n).number := by
  rw [h.round_takes_iff h0]
  exact and_iff_left hc.uaStatus

theorem publishes_iff : (g.turn n).publishes = true ↔ word g p ≠ (g.regmap.val n).number := by
  rw [h.round_publishes_iff h0]
  exact or_iff_left (not_not_intro hc.varErrors)

theorem round_word (data : ReadData) : word (g.refreshEntry data n).1 p =
    if (g.var n).rawValue = (g.regmap.val n).number then word g p else (g.var n).rawValue := by
  have htakes := takes_iff h hc h0
  refine (congrArg (fun rd : Mbregdata => NumericU.ofUi16 rd.rvalue) (h.round_data data)).trans ?_
  by_cases heq : (g.var n).rawValue = (g.regmap.val n).number
  · rw [if_neg fun ht => htakes.mp ht heq, if_pos heq]
    rfl
  · rw [if_pos (htakes.mpr heq), if_neg heq, setReg_rvalue h.rmode]
    exact hc.rawValue.symm

theorem round_number (data : ReadData) : ((g.refreshEntry data n).1.regmap.val n).number =
    word (g.refreshEntry data n).1 p := by
  have htakes := takes_iff h hc h0
  rw [Gateway.refreshEntry_val, h.round_number h0, round_word h hc h0]
  by_cases heq : (g.var n).rawValue = (g.regmap.val n).number
  · rw [if_neg fun ht => htakes.mp ht heq, if_pos heq]
    rfl
  · rw [if_pos (htakes.mpr heq), if_neg heq]

theorem round_var (data : ReadData) : (g.refreshEntry data n).1.var n =
    if word g p = (g.regmap.val n).number then g.var n
    else { g.var n with
      rawValue := word g p, node := (word g p).typed (g.var n).uaType.words } := by
  have hpub := publishes_iff h hc h0
  rw [h.toOwnVariable.round_var]
  by_cases heq : word g p = (g.regmap.val n).number
  · rw [if_neg fun hp => hpub.mp hp.2 heq, if_pos heq]
  · rw [if_pos ⟨h.kind, hpub.mpr heq⟩, if_neg heq, OpcServer.writeVariable_accepted hc.wrStatus,
      h.round_plcErr h0, h.round_plcVal h0]
    simp only [Bool.not_false, if_true, ← hc.uaStatus]
    rfl

/-- The round of an entry over the word visits its copy. -/
theorem round_visit (data : ReadData) :
    (word (g.refreshEntry data n).1 p, copy (g.refreshEntry data n).1 n) =
      visit (word g p) (copy g n) := by
  have hcopy : copy (g.refreshEntry data n).1 n = ⟨word (g.refreshEntry data n).1 p,
      if word g p = (g.regmap.val n).number then (g.var n).rawValue else word g p⟩ := by
    rw [copy, round_number h hc h0, round_var h hc h0]
    split_ifs <;> rfl
  rw [hcopy, round_word h hc h0]
  rfl

theorem Clear.round (data : ReadData) : Clear (g.refreshEntry data n).1 n := by
  have hf := Gateway.refreshEntry_frame data n g
  have hvar := round_var h hc h0 data
  refine ⟨?_, ?_, ?_, ?_, ?_⟩
  · rw [Gateway.refreshEntry_val]
    exact h.round_varErrors h0 data
  · rw [hvar]
    split_ifs <;> exact hc.uaStatus
  · rw [hf.opcs.wrStatus, hf.defs]
    exact hc.wrStatus
  · rw [round_number h hc h0]
    rfl
  · rw [hvar]
    split_ifs
    · exact hc.rawValue
    · rfl

end

theorem Clear.congr {g' : Gateway} (hc : Clear g n) (hs : g.SameConfig g')
    (hval : g'.regmap.val n = g.regmap.val n) (hvar : g'.var n = g.var n) : Clear g' n := by
  refine ⟨?_, ?_, ?_, ?_, ?_⟩
  · rw [hval]
    exact hc.varErrors
  · rw [hvar]
    exact hc.uaStatus
  · rw [hval, hs.opcs.wrStatus]
    exact hc.wrStatus
  · rw [hval]
    exact hc.number
  · rw [hvar]
    exact hc.rawValue

theorem SharedWord.round (h : SharedWord g p) (hn : n ∈ g.regmap.keys) (data : ReadData) :
    SharedWord (g.refreshEntry data n).1 p := by
  have hf := Gateway.refreshEntry_frame data n g
  refine ⟨(hf.plcs.errors p).trans h.rerrors, fun m hm hp => ?_, fun m hm hp => ?_⟩ <;>
    rw [hf.defs] at hp
  · exact (h.exposes m hm hp).of_config hf.sameConfig
  · by_cases hmn : m = n
    · subst hmn
      exact (h.clear m hm hp).round (h.exposes m hm hp) h.rerrors data
    · have hothers := others_rounds (h.exposes m hm hp).toOwnVariable
        (List.forall_mem_singleton.mpr ⟨hn, Ne.symm hmn⟩) data
      exact (h.clear m hm hp).congr hf.sameConfig hothers.1 hothers.2

theorem exposing_congr {g' : Gateway} (hs : g.SameConfig g') (ns : List Name) :
    exposing g' p ns = exposing g p ns := by
  simp only [exposing, hs.defs]

theorem map_copy_congr (h : SharedWord g p) {ms ns : List Name} (hms : ∀ m ∈ ms, m ∈ g.regmap.keys)
    (hns : ∀ n ∈ ns, n ∈ g.regmap.keys) (hne : ∀ m ∈ ms, m ∉ ns) (data : ReadData) :
    (exposing g p ms).map (copy (Gateway.refreshEntries data ns g).1) =
      (exposing g p ms).map (copy g) := by
  refine List.map_congr_left fun m hm => ?_
  obtain ⟨hm, hp⟩ := List.mem_filter.mp hm
  have hothers := others_rounds (h.exposes m (hms m hm) (of_decide_eq_true hp)).toOwnVariable
    (fun n hn => ⟨hns n hn, fun he => hne m hm (he ▸ hn)⟩) data
  rw [copy, hothers.1, hothers.2, copy]

theorem word_round (hp : p ∉ (g.regmap.val n).sources) (data : ReadData) :
    word (g.refreshEntry data n).1 p = word g p := by
  rw [word, (Gateway.refreshEntry_frame data n g).plcs.others p hp, word]

theorem rounds_visits (h : SharedWord g p) {ns : List Name} (hnd : ns.Nodup)
    (hns : ∀ n ∈ ns, n ∈ g.regmap.keys) (data : ReadData) :
    let g' := (Gateway.refreshEntries data ns g).1
    SharedWord g' p ∧
      (word g' p, (exposing g p ns).map (copy g')) =
        visits (word g p) ((exposing g p ns).map (copy g)) := by
  induction ns generalizing g with
  | nil => exact ⟨h, rfl⟩
  | cons n ns ih =>
      obtain ⟨hn, hnd⟩ := List.nodup_cons.mp hnd
      obtain ⟨hk, hks⟩ := List.forall_mem_cons.mp hns
      have hround := h.round hk data
      have hc := (Gateway.refreshEntry_frame data n g).sameConfig
      obtain ⟨hshared, hvisits⟩ := ih hround hnd hks
      have hrest := map_copy_congr h hks (List.forall_mem_singleton.mpr hk)
        (fun m hm he => hn (List.mem_singleton.mp he ▸ hm)) data
      have hrest : (exposing g p ns).map (copy (g.refreshEntry data n).1) =
          (exposing g p ns).map (copy g) := hrest
      rw [exposing_congr hc, hrest] at hvisits
      refine ⟨hshared, ?_⟩
      by_cases hp : p ∈ (g.regmap.val n).sources
      · have hvisit := round_visit (h.exposes n hk hp) (h.clear n hk hp) h.rerrors data
        have hown : copy (Gateway.refreshEntries data ns (g.refreshEntry data n).1).1 n =
            copy (g.refreshEntry data n).1 n := by
          have hothers := others_rounds ((h.exposes n hk hp).of_config hc).toOwnVariable
            (fun m hm => ⟨hks m hm, fun he => hn (he ▸ hm)⟩) data
          rw [copy, hothers.1, hothers.2, copy]
        rw [exposing, List.filter_cons_of_pos (by simpa using hp), List.map_cons, List.map_cons]
        rw [visits, ← hvisit]
        dsimp only
        rw [← exposing, ← hvisits]
        refine Prod.ext rfl ?_
        exact congrArg (· :: _) hown
      · rw [exposing, List.filter_cons_of_neg (by simpa using hp), ← exposing, ← word_round hp data]
        exact hvisits

/-- A pass of the loop is a pass over the copies of the word. -/
theorem pass_view (h : SharedWord g p) (data : ReadData) :
    SharedWord (g.taskRegsRefresh data).1 p ∧
      view (g.taskRegsRefresh data).1 p = SharedSlot.pass (view g p) := by
  have hc := (Gateway.taskRegsRefresh_frame data g).sameConfig
  have hrounds := rounds_visits h g.regmap.nodup (fun _ hn => hn) data
  refine ⟨hrounds.1, ?_⟩
  rw [view, exposing_congr hc, hc.keys]
  exact hrounds.2

def passes (data : ℕ → ReadData) (g : Gateway) : ℕ → Gateway
  | 0 => g
  | k + 1 => ((passes data g k).taskRegsRefresh (data k)).1

theorem passes_view (h : SharedWord g p) (data : ℕ → ReadData) (k : ℕ) :
    SharedWord (passes data g k) p ∧ view (passes data g k) p = SharedSlot.pass^[k] (view g p) := by
  induction k with
  | zero => exact ⟨h, rfl⟩
  | succ k ih =>
      rw [Function.iterate_succ_apply', ← ih.2]
      exact pass_view ih.1 (data k)

structure Unchanged (p : RegPtr) (g g' : Gateway) : Prop where
  data : g'.plcs.data p = g.plcs.data p
  entries : ∀ n ∈ g.regmap.keys, p ∈ (g.regmap.val n).sources →
    g'.regmap.val n = g.regmap.val n ∧ g'.var n = g.var n

/-- A further pass changes nothing, and all values are equal. -/
structure AtRest (g : Gateway) (p : RegPtr) : Prop where
  unchanged : ∀ data, Unchanged p g (g.taskRegsRefresh data).1
  equal : ∀ n ∈ g.regmap.keys, p ∈ (g.regmap.val n).sources →
    (g.regmap.val n).number = .ofUi16 (g.plcs.data p).rvalue ∧
      (g.var n).rawValue = .ofUi16 (g.plcs.data p).rvalue

theorem settled_view_iff : Settled (view g p) ↔
    ∀ n ∈ g.regmap.keys, p ∈ (g.regmap.val n).sources →
      (g.regmap.val n).number = word g p ∧ (g.var n).rawValue = word g p := by
  simp only [Settled, view, exposing, List.forall_mem_map, List.mem_filter, decide_eq_true_eq,
    and_imp, copy, Copy.mk.injEq]

theorem round_unchanged (h : SharedWord g p) (hs : Settled (view g p)) (hn : n ∈ g.regmap.keys)
    (data : ReadData) : Unchanged p g (g.refreshEntry data n).1 := by
  have hf := Gateway.refreshEntry_frame data n g
  by_cases hp : p ∈ (g.regmap.val n).sources
  · obtain ⟨hnum, hraw⟩ := settled_view_iff.mp hs n hn hp
    have hx := h.exposes n hn hp
    have hc := h.clear n hn hp
    have hno : ¬ (g.turn n).takes = true := fun ht =>
      (takes_iff hx hc h.rerrors).mp ht (hraw.trans hnum.symm)
    have hdata : (g.refreshEntry data n).1.plcs.data p = g.plcs.data p :=
      (hx.round_data data).trans (if_neg hno)
    refine ⟨hdata, fun m hm hmp => ?_⟩
    by_cases hmn : m = n
    · subst hmn
      refine ⟨RegC.eq_of (hf.defs m) ?_ ?_, ?_⟩
      · rw [Gateway.refreshEntry_val, hx.round_varErrors h.rerrors, hc.varErrors]
      · rw [round_number hx hc h.rerrors, word, hdata, hnum, word]
      · rw [round_var hx hc h.rerrors, if_pos hnum.symm]
    · exact others_rounds (h.exposes m hm hmp).toOwnVariable
        (List.forall_mem_singleton.mpr ⟨hn, Ne.symm hmn⟩) data
  · refine ⟨hf.plcs.others p hp, fun m hm hmp => ?_⟩
    have hmn : n ≠ m := fun he => hp (he ▸ hmp)
    exact others_rounds (h.exposes m hm hmp).toOwnVariable
      (List.forall_mem_singleton.mpr ⟨hn, hmn⟩) data

theorem rounds_unchanged (h : SharedWord g p) (hs : Settled (view g p)) {ns : List Name}
    (hns : ∀ n ∈ ns, n ∈ g.regmap.keys) (data : ReadData) :
    Unchanged p g (Gateway.refreshEntries data ns g).1 := by
  induction ns generalizing g with
  | nil => exact ⟨rfl, fun _ _ _ => ⟨rfl, rfl⟩⟩
  | cons n ns ih =>
      obtain ⟨hk, hks⟩ := List.forall_mem_cons.mp hns
      have hf := Gateway.refreshEntry_frame data n g
      have hhead := round_unchanged h hs hk data
      have hs' : Settled (view (g.refreshEntry data n).1 p) := by
        refine settled_view_iff.mpr fun m hm hp => ?_
        rw [hf.defs] at hp
        rw [word, hhead.data, (hhead.entries m hm hp).1, (hhead.entries m hm hp).2]
        exact settled_view_iff.mp hs m hm hp
      have htail := ih (h.round hk data) hs' hks
      refine ⟨htail.data.trans hhead.data, fun m hm hp => ?_⟩
      have hp' : p ∈ ((g.refreshEntry data n).1.regmap.val m).sources := by rwa [hf.defs]
      obtain ⟨hval, hvar⟩ := htail.entries m hm hp'
      exact ⟨hval.trans (hhead.entries m hm hp).1, hvar.trans (hhead.entries m hm hp).2⟩

theorem atRest_iff (h : SharedWord g p) : AtRest g p ↔ Settled (view g p) :=
  ⟨fun hr => settled_view_iff.mpr hr.equal, fun hs =>
    ⟨rounds_unchanged h hs fun _ hn => hn, settled_view_iff.mp hs⟩⟩

def Settles (data : ℕ → ReadData) (g : Gateway) (p : RegPtr) : Prop :=
  ∃ k, AtRest (passes data g k) p

/-- Repeated passes come to rest with all values equal exactly if the values of
the word and of the entries over it calm down early. -/
theorem settles_iff (h : SharedWord g p) (data : ℕ → ReadData) :
    Settles data g p ↔ Calms (view g p) := by
  simp only [Settles, atRest_iff (passes_view h data _).1, (passes_view h data _).2]
  exact reaches_settled_iff (view g p)

/-- A word with its own entry `/a` and a reference `/b`, each with its local and
its OPC value. -/
def pair (w l₁ o₁ l₂ o₂ : Word) : Gateway where
  plcs := fun _ => smallPlc { rvalue := w, rmode := 1 }
  regmap := ⟨[['a'], ['b']], by decide, fun n =>
    if n = ['a'] then
      { toRegDef := .ofModbus ⟨0, 0⟩ 1 ['/', 'a'] (by decide), number := .ofUi16 l₁ }
    else
      { toRegDef := .ofSource (smallPlc_linked { rvalue := w, rmode := 1 }) (some ⟨0, 0⟩) typeU16
          row_u16 1 ['/', 'b'] (by decide)
        number := .ofUi16 l₂ }⟩
  opcs := ⟨⟨[['/', 'a'], ['/', 'b']], by decide, fun s =>
    if s = ['/', 'a'] then { uaType := .uint16, rawValue := .ofUi16 o₁, node := .ofUi16 o₁ }
    else { uaType := .uint16, rawValue := .ofUi16 o₂, node := .ofUi16 o₂ }⟩, fun _ => statusGood⟩

theorem pair_strOpcname (w l₁ o₁ l₂ o₂ : Word) (n : Name) :
    ((pair w l₁ o₁ l₂ o₂).regmap.val n).strOpcname =
      if n = ['a'] then ['/', 'a'] else ['/', 'b'] := by
  simp only [pair]
  split_ifs <;> rfl

theorem pair_shared (w l₁ o₁ l₂ o₂ : Word) : SharedWord (pair w l₁ o₁ l₂ o₂) ⟨0, 0⟩ := by
  have hkeys : ∀ n ∈ (pair w l₁ o₁ l₂ o₂).regmap.keys, n = ['a'] ∨ n = ['b'] := by
    intro n hn
    simpa [pair] using hn
  refine ⟨rfl, fun n hn _ => ?_, fun n hn _ => ?_⟩
  · refine ⟨⟨hn, ?_, ?_, ?_⟩, ?_, ?_, ?_, rfl⟩
    · rcases hkeys n hn with rfl | rfl <;> rfl
    · rintro ⟨m, hm, hne, hs⟩
      simp only [varsOf, Set.mem_ofPred_eq, pair_strOpcname] at hs
      revert hs
      rcases hkeys n hn with rfl | rfl <;> rcases hkeys m hm with rfl | rfl <;>
        first | exact absurd rfl hne | decide
    all_goals rcases hkeys n hn with rfl | rfl <;> first | rfl | exact Int.one_ne_zero
  · rcases hkeys n hn with rfl | rfl <;> exact ⟨rfl, rfl, rfl, rfl, rfl⟩

theorem pair_view (w l₁ o₁ l₂ o₂ : Word) : view (pair w l₁ o₁ l₂ o₂) ⟨0, 0⟩ =
    (.ofUi16 w, [⟨.ofUi16 l₁, .ofUi16 o₁⟩, ⟨.ofUi16 l₂, .ofUi16 o₂⟩]) := rfl

theorem pair_settles : Settles (fun _ _ => none) (pair 1 0 2 0 0) ⟨0, 0⟩ :=
  (settles_iff (pair_shared 1 0 2 0 0) _).mpr (by decide)

/-- The device has moved the word to 1 while clients wrote 2 and 3: the three
values go round for good. -/
theorem pair_circles : ¬ ∀ (g : Gateway) (p : RegPtr) (data : ℕ → ReadData), SharedWord g p →
    Settles data g p := by
  intro h
  have hshared := pair_shared 1 0 2 0 3
  obtain ⟨k, hk⟩ := h (pair 1 0 2 0 3) ⟨0, 0⟩ (fun _ _ => none) hshared
  obtain ⟨hs, hview⟩ := passes_view hshared (fun _ _ => none) k
  have hsettled := (atRest_iff hs).mp hk
  rw [hview, pair_view] at hsettled
  cases k with
  | zero => exact absurd hsettled (by decide)
  | succ k =>
      have hfirst : SharedSlot.pass (NumericU.ofUi16 1,
          [⟨.ofUi16 0, .ofUi16 2⟩, ⟨.ofUi16 0, .ofUi16 3⟩]) =
            circling (NumericU.ofUi16 1) (.ofUi16 2) (.ofUi16 3) := by decide
      rw [Function.iterate_succ_apply, hfirst] at hsettled
      exact not_settled_circling (by decide) (by decide) (by decide) k hsettled

end RwModbus.Convergence
