import RwModbus.OpcRegs
import RwModbus.SourceWalk

/-!
# Variables under their short names

The tasks address a variable by its entry's key and leave it to `GetVarFullName` to
find the path: the first one, in the order of all names, whose last segment is the
key. Other variables may end in the same segment, and a key with a slash is no
segment at all.
-/
namespace RwModbus.OpcRegs
open Numeric Registers Reg Opc Refresh Loader

theorem removeDblSlashes_of_notMem {s : Name} (h : '/' ∉ s) : removeDblSlashes s = s := by
  induction s with
  | nil => rfl
  | cons c s ih =>
      rw [List.mem_cons, not_or] at h
      rw [removeDblSlashes, if_neg fun hc => h.1 hc.1.symm, ih h.2]

theorem removeDblSlashes_append (a : Name) {b : Name} (h : '/' ∉ b) :
    ∃ a', removeDblSlashes (a ++ '/' :: b) = a' ++ '/' :: b := by
  induction a with
  | nil =>
      refine ⟨[], ?_⟩
      rw [List.nil_append, removeDblSlashes, if_neg fun hc => h (List.mem_of_mem_head? hc.2),
        removeDblSlashes_of_notMem h]
  | cons c a ih =>
      rw [List.cons_append, removeDblSlashes]
      split_ifs with hc
      · exact ⟨a, rfl⟩
      · obtain ⟨a', ha'⟩ := ih
        exact ⟨c :: a', by rw [ha', List.cons_append]⟩

theorem cleanPath_append (a : Name) {b : Name} (h : '/' ∉ b) :
    ∃ a', cleanPath (a ++ '/' :: b) = a' ++ '/' :: b := by
  unfold cleanPath
  generalize 4 = k
  induction k generalizing a with
  | zero => exact ⟨a, rfl⟩
  | succ k ih =>
      obtain ⟨a₁, ha₁⟩ := removeDblSlashes_append a h
      rw [Function.iterate_succ_apply, ha₁]
      exact ih a₁

theorem baseName_append (a : Name) {b : Name} (h : '/' ∉ b) :
    OpcServer.baseName (a ++ '/' :: b) = b := by
  have hb : ∀ c ∈ b.reverse, decide (c ≠ '/') = true := by
    intro c hc
    simpa using fun heq : c = '/' => h (heq ▸ List.mem_reverse.mp hc)
  rw [OpcServer.baseName, List.rtakeWhile, List.reverse_append, List.reverse_cons, List.append_assoc,
    List.takeWhile_append_of_pos hb]
  simp

/-- Among ascending paths the loop finds `s` if no other with its last segment comes
before it. -/
theorem findFullName_iff {n s : Name} (hn : '/' ∉ n) (hb : OpcServer.baseName s = n)
    {keys : List Name} (hasc : keys.Pairwise (· < ·)) (hslash : ∀ t ∈ keys, '/' ∈ t)
    (hs : s ∈ keys) : OpcServer.findFullName n keys = s ↔
      ∀ t ∈ keys, OpcServer.baseName t = n → s ≤ t := by
  induction keys with
  | nil => exact absurd hs List.not_mem_nil
  | cons ss rest ih =>
      obtain ⟨hlt, hasc'⟩ := List.pairwise_cons.mp hasc
      have hss : '/' ∈ ss := hslash ss List.mem_cons_self
      have hne : ss ≠ n := fun h => hn (h ▸ hss)
      rw [OpcServer.findFullName, if_neg hne]
      by_cases hbase : OpcServer.baseName ss = n
      · have hsub : n <:+: ss := hbase ▸ (List.rtakeWhile_suffix _ ss).isInfix
        rw [if_pos ⟨hsub, hss, hbase⟩]
        constructor
        · rintro rfl t ht -
          rcases List.mem_cons.mp ht with rfl | ht
          · exact le_rfl
          · exact (hlt t ht).le
        · intro h
          rcases List.mem_cons.mp hs with heq | hs
          · exact heq.symm
          · exact absurd (hlt s hs) (not_lt.mpr (h ss List.mem_cons_self hbase))
      · rw [if_neg fun hc => hbase hc.2.2]
        have hs' : s ∈ rest := (List.mem_cons.mp hs).resolve_left fun h => hbase (h ▸ hb)
        rw [ih hasc' (fun t ht => hslash t (List.mem_cons_of_mem ss ht)) hs']
        constructor
        · intro h t ht hbt
          rcases List.mem_cons.mp ht with rfl | ht
          · exact absurd hbt hbase
          · exact h t ht hbt
        · exact fun h t ht => h t (List.mem_cons_of_mem ss ht)

theorem slash_mem_request {rm : RegC} {q : Request} (h : q ∈ requests rm) : '/' ∈ q.name := by
  rw [requests, List.mem_append, List.mem_cons] at h
  rcases h with h | rfl | h
  · split_ifs at h with hm
    · rw [List.mem_singleton.mp h]
      exact slash_mem_statusName rm.path hm
    · exact absurd h List.not_mem_nil
  · simp [errName, errFolder]
  · rw [Option.mem_toList, Option.map_eq_some_iff] at h
    obtain ⟨t, -, rfl⟩ := h
    exact rm.path

/-- Nothing that ends in `/n` comes before the variable of entry `n`: neither what
some entry asked for nor, if `n` is empty, a folder. -/
structure Unshadowed (g : Gateway) (n : Name) : Prop where
  plain : '/' ∉ n
  vars : ∀ m ∈ g.regmap.keys, ∀ q ∈ requests (g.regmap.val m), ¬ DblSlash q.name →
    OpcServer.baseName q.name = n → (g.regmap.val n).strOpcname ≤ q.name
  folders : n = [] → ∀ t ∈ g.opcs.vars.keys, OpcServer.baseName t = [] →
    (g.regmap.val n).strOpcname ≤ t

section
variable {wrStatus : Name → StatusCode} {beyond : Name → NumericU} {c : Config} {g : Gateway}

theorem mem_allRequests {R : KeyedMap Name RegC} {q : Request} :
    q ∈ allRequests R ↔ ∃ m ∈ R.keys, q ∈ requests (R.val m) := List.mem_flatMap

theorem slash_mem_vars (h : initAll wrStatus beyond c = some g) {t : Name}
    (ht : t ∈ g.opcs.vars.keys) : '/' ∈ t := by
  rcases (initAll_named h).names t ht with ⟨p, rfl⟩ | ⟨-, q, hq, rfl⟩
  · simp
  · obtain ⟨m, -, hq⟩ := mem_allRequests.mp hq
    exact slash_mem_request hq

theorem baseName_strOpcname (h : initAll wrStatus beyond c = some g) {n : Name}
    (hn : n ∈ g.regmap.keys) (hplain : '/' ∉ n) :
    OpcServer.baseName (g.regmap.val n).strOpcname = n := by
  obtain ⟨P, R, hr, -, hmap, -⟩ := initAll_cases h
  rw [hmap] at hn ⊢
  obtain ⟨base, hpath⟩ := (cfgMaster_sound hr n hn).path
  obtain ⟨a, ha⟩ := cleanPath_append base hplain
  rw [KeyedMap.map_val, hpath, ha, baseName_append a hplain]

/-- After any load, the key of an entry that has a variable leads to that variable
exactly if it is the whole path, or has no slash and is not shadowed. -/
theorem getVarFullName_iff (h : initAll wrStatus beyond c = some g) {n : Name}
    (hn : n ∈ g.regmap.keys) (hs : g.opcs.isVariable (g.regmap.val n).strOpcname = true) :
    g.opcs.getVarFullName n = (g.regmap.val n).strOpcname ↔
      n = (g.regmap.val n).strOpcname ∨ Unshadowed g n := by
  by_cases hplain : '/' ∈ n
  · rw [OpcServer.getVarFullName_of_slash hplain]
    exact ⟨Or.inl, fun hc => hc.resolve_right fun hu => hu.plain hplain⟩
  have hne : n ≠ (g.regmap.val n).strOpcname := fun heq => hplain (heq ▸ (g.regmap.val n).path)
  have hnamed := initAll_named h
  rw [OpcServer.getVarFullName, findFullName_iff hplain (baseName_strOpcname h hn hplain)
    g.opcs.vars.ascending (fun t => slash_mem_vars h) (OpcServer.mem_keys_of_isVariable hs)]
  constructor
  · intro hfirst
    refine Or.inr ⟨hplain, fun m hm q hq hd => ?_, fun hnil t ht hb => ?_⟩
    · exact hfirst q.name (hnamed.added q (mem_allRequests.mpr ⟨m, hm, hq⟩) hd)
    · exact hfirst t ht (hb.trans hnil.symm)
  · intro hc t ht hb
    have hu := hc.resolve_left hne
    rcases hnamed.names t ht with ⟨p, rfl⟩ | ⟨hd, q, hq, rfl⟩
    · -- a folder ends in a slash
      have hnil : OpcServer.baseName ('/' :: p ++ ['/']) = [] := baseName_append _ List.not_mem_nil
      exact hu.folders (hb.symm.trans hnil) _ ht hnil
    · obtain ⟨m, hm, hq⟩ := mem_allRequests.mp hq
      exact hu.vars m hm q hq hd hb

end

/-- A configuration of one variable of SCADA's own. -/
def oneVar (dname : Name) : Config where
  plcList := allPlcs
  plcs := []
  scadaList := allPlcs
  scada := [smallSet dname [⟨['x'], ['r', 'w'], ['u'], none, none⟩]]

def oneVarGateway (dname : Name) : Gateway := gatewayOf (oneVar dname) rfl

theorem getVarFullName_oneVar :
    (oneVarGateway []).opcs.getVarFullName ['x'] = ['/', 'S', '/', 'x'] :=
  (getVarFullName_iff (gatewayOf_loads (oneVar []) rfl) (by decide) (by decide)).mpr
    (Or.inr ⟨by decide, by decide, by decide⟩)

/-- The variable of set `a/b` is not found under its key. -/
theorem getVarFullName_slash : ¬ ∀ (wrStatus : Name → StatusCode) (beyond : Name → NumericU)
    (c : Config) (g : Gateway), initAll wrStatus beyond c = some g → ∀ n ∈ g.regmap.keys,
    g.opcs.isVariable (g.regmap.val n).strOpcname = true →
    g.opcs.getVarFullName n = (g.regmap.val n).strOpcname := by
  intro h
  have hfound := h accepts zeroes (oneVar ['a', '/', 'b']) _ (gatewayOf_loads _ rfl)
    ['a', '/', 'b', '.', 'x'] (by decide) (by decide)
  exact absurd hfound (by decide)

end RwModbus.OpcRegs
