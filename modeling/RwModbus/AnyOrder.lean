import RwModbus.Isolation

/-!
# The order of the rounds

A pass takes the entries in the order of their names. As long as no two entries
share a variable or a word, that order is of no account: each round finds what the
pass found, and leaves what it would leave if it were the only one.
-/
namespace RwModbus.AnyOrder
open Numeric Registers Reg Opc Refresh Sys Views

/-- No two entries share a variable or a word. -/
structure Separate (g : Gateway) : Prop where
  vars : ∀ n ∈ g.regmap.keys, ∀ s ∈ varsOf (g.regmap.val n).toRegDef, s ∉ g.otherVars n
  words : ∀ n ∈ g.regmap.keys, ∀ p ∈ (g.regmap.val n).sources, p ∉ g.otherSources n

/-- What entry `n` has in the second gateway is what its round makes of the first. -/
structure Alone (data : ReadData) (n : Name) (g g' : Gateway) : Prop where
  entry : g'.regmap.val n = ((g.turn n).refresh data).1.rm
  vars : ∀ s ∈ varsOf (g.regmap.val n).toRegDef,
    g'.opcs.vars.val s = ((g.turn n).refresh data).1.opcs.vars.val s
  words : ∀ p ∈ (g.regmap.val n).sources,
    g'.plcs.data p = ((g.turn n).refresh data).1.plcs.data p

/-- The gateways have the same entries, variables and words. -/
structure SameContents (g g' : Gateway) : Prop where
  config : g.SameConfig g'
  entries : ∀ n, g'.regmap.val n = g.regmap.val n
  vars : ∀ s, g'.opcs.vars.val s = g.opcs.vars.val s
  words : ∀ p, g'.plcs.data p = g.plcs.data p

variable {g g' : Gateway} {n m : Name} {data : ReadData}

theorem Separate.of_config (h : Separate g) (hc : g.SameConfig g') : Separate g' := by
  refine ⟨fun n hn => ?_, fun n hn => ?_⟩
  · rw [hc.defs, hc.otherVars]
    rw [hc.keys] at hn
    exact h.vars n hn
  · rw [hc.defs, hc.otherSources]
    rw [hc.keys] at hn
    exact h.words n hn

/-- The round of another entry goes unnoticed. -/
theorem Separate.sameView (h : Separate g) (hn : n ∈ g.regmap.keys) (hm : m ∈ g.regmap.keys)
    (hne : m ≠ n) (data : ReadData) : SameView (g.turn n) ((g.refreshEntry data m).1.turn n) := by
  have hframe := Gateway.refreshEntry_frame data m g
  refine ⟨hframe.entries n hne.symm, fun p hp => ?_, ?_⟩
  · exact hframe.plcs.others p fun hpm => h.words n hn p hp ⟨m, hm, hne, hpm⟩
  · refine ⟨hframe.sameConfig.opcs, ?_⟩
    apply hframe.opcs.others
    exact fun hsm => h.vars n hn _ (Or.inl rfl) ⟨m, hm, hne, hsm⟩

theorem Separate.alikeAt (h : Separate g) (hn : n ∈ g.regmap.keys) (hm : m ∈ g.regmap.keys)
    (hne : m ≠ n) {s : Name} (hs : s ∈ varsOf (g.regmap.val n).toRegDef) (data : ReadData) :
    AlikeAt s (g.turn n).opcs ((g.refreshEntry data m).1.turn n).opcs := by
  have hframe := Gateway.refreshEntry_frame data m g
  refine ⟨hframe.sameConfig.opcs, ?_⟩
  apply hframe.opcs.others
  exact fun hsm => h.vars n hn s hs ⟨m, hm, hne, hsm⟩

/-- The round of entry `n` after another one. -/
theorem Alone.of_later (h : Separate g) (hn : n ∈ g.regmap.keys) (hm : m ∈ g.regmap.keys)
    (hne : m ≠ n) (halone : Alone data n (g.refreshEntry data m).1 g') : Alone data n g g' := by
  have hview := h.sameView hn hm hne data
  have hdef := (Gateway.refreshEntry_frame data m g).defs n
  refine ⟨halone.entry.trans (hview.refresh_rm data), fun s hs => ?_, fun p hp => ?_⟩
  · rw [halone.vars s (by rw [hdef]; exact hs)]
    exact (hview.refresh_opcs (h.alikeAt hn hm hne hs data) data).val
  · rw [halone.words p (by rw [hdef]; exact hp)]
    exact hview.refresh_word data hp

/-- What entry `n` has after its round stays until the end of the others'. -/
theorem Alone.of_frame (h : Separate g) (hn : n ∈ g.regmap.keys) {ms : List Name}
    (hms : ∀ m ∈ ms, m ∈ g.regmap.keys ∧ m ≠ n) :
    Alone data n g (Gateway.refreshEntries data ms (g.refreshEntry data n).1).1 := by
  have hround := Gateway.refreshEntry_frame data n g
  have hrest := Gateway.refreshEntries_frame data ms (g.refreshEntry data n).1
  refine ⟨?_, fun s hs => ?_, fun p hp => ?_⟩
  · rw [hrest.entries n fun hmem => (hms n hmem).2 rfl, Gateway.refreshEntry_val]
  · apply hrest.opcs.others
    rintro ⟨m, hm, hsm⟩
    rw [hround.defs] at hsm
    exact h.vars n hn s hs ⟨m, (hms m hm).1, (hms m hm).2, hsm⟩
  · apply hrest.plcs.others
    rintro ⟨m, hm, hpm⟩
    rw [hround.defs] at hpm
    exact h.words n hn p hp ⟨m, (hms m hm).1, (hms m hm).2, hpm⟩

/-- Rounds of different entries, in any order, are as good as alone. -/
theorem rounds_alone (data : ReadData) {ns : List Name} (hnd : ns.Nodup) (h : Separate g)
    (hns : ∀ n ∈ ns, n ∈ g.regmap.keys) :
    (∀ n ∈ ns, Alone data n g (Gateway.refreshEntries data ns g).1) ∧
      (Gateway.refreshEntries data ns g).2 = ns.map fun n => (n, ((g.turn n).refresh data).2) := by
  induction ns generalizing g with
  | nil => exact ⟨fun n hn => absurd hn List.not_mem_nil, rfl⟩
  | cons m ms ih =>
      obtain ⟨hnotin, hnd'⟩ := List.nodup_cons.mp hnd
      have hm := hns m List.mem_cons_self
      have hconf := (Gateway.refreshEntry_frame data m g).sameConfig
      have hms : ∀ n ∈ ms, n ∈ g.regmap.keys ∧ m ≠ n := fun n hn =>
        ⟨hns n (List.mem_cons_of_mem m hn), fun hmn => hnotin (hmn ▸ hn)⟩
      obtain ⟨hrest, hdecisions⟩ := ih hnd' (h.of_config hconf) (by
        intro n hn
        rw [hconf.keys]
        exact (hms n hn).1)
      constructor
      · intro n hn
        cases List.mem_cons.mp hn with
        | inl heq =>
            subst heq
            exact Alone.of_frame h hm fun k hk => ⟨(hms k hk).1, (hms k hk).2.symm⟩
        | inr hlater =>
            exact Alone.of_later h (hms n hlater).1 hm (hms n hlater).2 (hrest n hlater)
      · rw [List.map_cons, Gateway.refreshEntries]
        dsimp only
        rw [hdecisions]
        congr 1
        apply List.map_congr_left
        intro n hn
        rw [(h.sameView (hms n hn).1 hm (hms n hn).2 data).refresh_decision data]

/-- The rounds of all entries in two orders. -/
theorem sameContents_of_perm (h : Separate g) (data : ReadData) {ns ms : List Name}
    (hns : ns.Perm g.regmap.keys)
    (hms : ms.Perm g.regmap.keys) : SameContents (Gateway.refreshEntries data ns g).1
      (Gateway.refreshEntries data ms g).1 := by
  have hkeys : ∀ {ls : List Name}, ls.Perm g.regmap.keys → ∀ n, n ∈ ls ↔ n ∈ g.regmap.keys :=
    fun hls n => hls.mem_iff
  have hframe := Gateway.refreshEntries_frame data ns g
  have hframe' := Gateway.refreshEntries_frame data ms g
  obtain ⟨halone, -⟩ := rounds_alone data (hns.nodup_iff.mpr g.regmap.nodup) h
    fun n hn => (hkeys hns n).mp hn
  obtain ⟨halone', -⟩ := rounds_alone data (hms.nodup_iff.mpr g.regmap.nodup) h
    fun n hn => (hkeys hms n).mp hn
  refine ⟨(sameConfig_symm hframe.sameConfig).trans hframe'.sameConfig, fun n => ?_, fun s => ?_,
    fun p => ?_⟩
  · by_cases hn : n ∈ g.regmap.keys
    · rw [(halone n ((hkeys hns n).mpr hn)).entry, (halone' n ((hkeys hms n).mpr hn)).entry]
    · rw [hframe.entries n fun hmem => hn ((hkeys hns n).mp hmem),
        hframe'.entries n fun hmem => hn ((hkeys hms n).mp hmem)]
  · by_cases hs : ∃ n ∈ g.regmap.keys, s ∈ varsOf (g.regmap.val n).toRegDef
    · obtain ⟨n, hn, hsn⟩ := hs
      rw [(halone n ((hkeys hns n).mpr hn)).vars s hsn, (halone' n ((hkeys hms n).mpr hn)).vars s hsn]
    · have hout : ∀ {ls : List Name}, ls.Perm g.regmap.keys →
          s ∉ {s | ∃ n ∈ ls, s ∈ varsOf (g.regmap.val n).toRegDef} := fun hls hmem =>
        hs (hmem.imp fun n hn => ⟨(hkeys hls n).mp hn.1, hn.2⟩)
      rw [hframe.opcs.others s (hout hns), hframe'.opcs.others s (hout hms)]
  · by_cases hp : ∃ n ∈ g.regmap.keys, p ∈ (g.regmap.val n).sources
    · obtain ⟨n, hn, hpn⟩ := hp
      rw [(halone n ((hkeys hns n).mpr hn)).words p hpn,
        (halone' n ((hkeys hms n).mpr hn)).words p hpn]
    · have hout : ∀ {ls : List Name}, ls.Perm g.regmap.keys →
          p ∉ {p | ∃ n ∈ ls, p ∈ (g.regmap.val n).sources} := fun hls hmem =>
        hp (hmem.imp fun n hn => ⟨(hkeys hls n).mp hn.1, hn.2⟩)
      rw [hframe.plcs.others p (hout hns), hframe'.plcs.others p (hout hms)]

/-- A pass does to every entry what its round alone would do, and if the rounds are made
in any other order, they leave the same and decide the same. -/
theorem pass_in_any_order (h : Separate g) (data : ReadData) {ns : List Name}
    (hns : ns.Perm g.regmap.keys) :
    (∀ n ∈ g.regmap.keys, Alone data n g (g.taskRegsRefresh data).1) ∧
    SameContents (g.taskRegsRefresh data).1 (Gateway.refreshEntries data ns g).1 ∧
    (Gateway.refreshEntries data ns g).2.Perm (g.taskRegsRefresh data).2 := by
  obtain ⟨-, hdecisions⟩ := rounds_alone data (hns.nodup_iff.mpr g.regmap.nodup) h
    fun n hn => hns.mem_iff.mp hn
  obtain ⟨halone, hpass⟩ := rounds_alone data g.regmap.nodup h fun n hn => hn
  refine ⟨halone, sameContents_of_perm h data (List.Perm.refl _) hns, ?_⟩
  rw [hdecisions, Gateway.taskRegsRefresh, hpass]
  exact hns.map _

open Isolation (twoPlcs twoPlcs_a twoPlcs_b mem_twoPlcs wordOf_sources)

theorem twoPlcs_vars {n : Name} {s : Name} (hn : n ∈ twoPlcs.gateway.regmap.keys)
    (hs : s ∈ varsOf (twoPlcs.gateway.regmap.val n).toRegDef) : s = '/' :: n := by
  have ha : ¬ millisSuffix <:+ ['/', 'a'] := by decide
  have hb : ¬ millisSuffix <:+ ['/', 'b'] := by decide
  cases mem_twoPlcs hn with
  | inl h =>
      subst h
      cases hs with
      | inl hs => exact hs
      | inr hs => exact absurd hs.1 ha
  | inr h =>
      subst h
      cases hs with
      | inl hs => exact hs
      | inr hs => exact absurd hs.1 hb

theorem twoPlcs_words {n : Name} {p : RegPtr} (hn : n ∈ twoPlcs.gateway.regmap.keys)
    (hp : p ∈ (twoPlcs.gateway.regmap.val n).sources) : p.plc = if n = ['a'] then 0 else 1 := by
  cases mem_twoPlcs hn with
  | inl h =>
      subst h
      rw [twoPlcs_a, wordOf_sources] at hp
      rw [Set.mem_singleton_iff.mp hp]
      rfl
  | inr h =>
      subst h
      rw [twoPlcs_b, wordOf_sources] at hp
      rw [Set.mem_singleton_iff.mp hp]
      rfl

theorem twoPlcs_separate : Separate twoPlcs.gateway := by
  refine ⟨fun n hn s hs => ?_, fun n hn p hp => ?_⟩
  · rintro ⟨m, hm, hne, hsm⟩
    have heq := (twoPlcs_vars hm hsm).symm.trans (twoPlcs_vars hn hs)
    exact hne (List.cons.inj heq).2
  · rintro ⟨m, hm, hne, hpm⟩
    have heq := (twoPlcs_words hm hpm).symm.trans (twoPlcs_words hn hp)
    cases mem_twoPlcs hn with
    | inl h =>
        cases mem_twoPlcs hm with
        | inl h' => exact hne (h'.trans h.symm)
        | inr h' => simp [h, h'] at heq
    | inr h =>
        cases mem_twoPlcs hm with
        | inl h' => simp [h, h'] at heq
        | inr h' => exact hne (h'.trans h.symm)

theorem twoPlcs_any_order :
    (∀ n ∈ [['a'], ['b']], Alone (fun _ => none) n twoPlcs.gateway
      (twoPlcs.gateway.taskRegsRefresh fun _ => none).1) ∧
    SameContents (twoPlcs.gateway.taskRegsRefresh fun _ => none).1
      (Gateway.refreshEntries (fun _ => none) [['b'], ['a']] twoPlcs.gateway).1 ∧
    (Gateway.refreshEntries (fun _ => none) [['b'], ['a']] twoPlcs.gateway).2.Perm
      (twoPlcs.gateway.taskRegsRefresh fun _ => none).2 :=
  pass_in_any_order twoPlcs_separate (fun _ => none) (List.Perm.swap _ _ _)

end RwModbus.AnyOrder
